import Netlist.Proofs.Compilation.Stages
import Netlist.Proofs.PortMap.Drawn
import Netlist.Proofs.PortMap.Duplicates

/-!
# Ports that join

A port is drawn between a link and a node. Port maps are built link by link, from
the ports that have an end at the link, so a port with no end at any link of the
network is never looked at.

- `Joins`: an edge runs between a link and a node of a network.
- `ports_join`: **in a network that compiles, the ports with an end at a link are
  the ones that join it with a node**; every other port stands in no port map.
- `port_passed_over`: a port between two nodes, with which a network compiles.
-/

namespace Netlist.Compilation

open Netlist.PortMap (portsAt edgesOf mem_edgesOf drawn_of_build farNode?_eq_some)
open Netlist.Topology (Extracts)

variable {c : Catalog} {d d₁ d' : Diagram} {t : Topology} {network p : Slot} {gone : List Slot}

/-- A link of a network. -/
def IsLink (d : Diagram) (network i : Slot) : Prop :=
  i ∈ d.descendants network ∧ ∃ e shape, d.get? i = some e ∧ e.role = .link shape

/-- A node of a network: a numbered one, a reference, a ground, or a copy in an
interface. -/
def IsNode (d : Diagram) (network i : Slot) : Prop :=
  i ∈ d.descendants network ∧ ∃ e kind, d.get? i = some e ∧ e.role = .node kind

/-- An edge runs between a link and a node of a network. -/
def Joins (d : Diagram) (network : Slot) (edge : Element) : Prop :=
  ∃ link node, IsLink d network link ∧ IsNode d network node ∧
    (edge.source = some link ∧ edge.target = some node ∨
      edge.source = some node ∧ edge.target = some link)

/-- An edge has an end at a link of a network. -/
def TouchesLink (d : Diagram) (network : Slot) (edge : Element) : Prop :=
  ∃ link, IsLink d network link ∧ edge.touches link = true

theorem Joins.touchesLink {edge : Element} (h : Joins d network edge) :
    TouchesLink d network edge := by
  obtain ⟨link, node, hlink, -, ⟨hsource, -⟩ | ⟨-, htarget⟩⟩ := h
  · exact ⟨link, hlink, by rw [Element.touches, hsource, beq_self_eq_true, Bool.true_or]⟩
  · exact ⟨link, hlink, by rw [Element.touches, htarget, beq_self_eq_true, Bool.or_true]⟩

/-- The other end of an edge and the end it was looked up from. -/
theorem ends_of_otherEnd? {edge : Element} {link node : Slot}
    (h : edge.otherEnd? link = some node) :
    edge.source = some link ∧ edge.target = some node ∨
      edge.source = some node ∧ edge.target = some link := by
  rw [Element.otherEnd?] at h
  split_ifs at h with hsource htarget
  · exact .inl ⟨hsource, h⟩
  · exact .inr ⟨h, htarget⟩

/-! ## The links and nodes of an extracted topology -/

/-- The links of a topology are those of the network. -/
theorem mem_links_iff (h : Extracts d t d₁ gone) {i : Slot} :
    i ∈ t.links ↔ IsLink d t.network i := by
  rw [h.links, Topology.mem_withRole, IsLink]
  refine and_congr_right fun _ => exists_congr fun e => ?_
  rw [exists_and_left]
  refine and_congr_right fun _ => ?_
  cases e.role <;> simp [Role.isLink]

/-- Whatever counts as a node is a node of the network. -/
theorem isNode_of_extracts (h : Extracts d t d₁ gone) {i : Slot} (hi : t.isNode i = true) :
    IsNode d t.network i := by
  refine ⟨?_, h.exists_role hi⟩
  rcases (Topology.isNode_iff h.nodup_copies).mp hi with hi | hi | hi | ⟨interface, hi⟩
  · exact ((h.nodes i).mp hi).inside
  · exact ((h.references i).mp hi).inside
  · exact (h.grounds i hi).inside
  · exact ((h.copies i interface).mp hi).inside

/-- A port with an end at a link of a topology is one of its ports. -/
theorem mem_edgesOf_of_touches (h : Extracts d t d₁ gone) {e : Element} {link : Slot}
    (he : d.get? p = some e) (hrole : e.role = .port) (hlink : link ∈ t.links)
    (htouches : e.touches link = true) : p ∈ edgesOf d₁ t link := by
  have hp : p ∈ t.ports := by
    rw [h.ports, Topology.mem_portsOf_iff]
    exact ⟨⟨e, he, hrole⟩, .inr ⟨link, hlink, by rw [he]; exact htouches⟩⟩
  exact mem_edgesOf.mpr ⟨hp, e, (h.get?_port hp).trans he, htouches⟩

/-! ## Ports of a compiled network -/

variable {scope : Slot} {switches : Switches} {r : Compilation}

/-- **In a network that compiles, the ports with an end at a link are the ones that
join it with a node.** Any other port, inside the network or not, stands in no port
map. -/
theorem ports_join (h : Edit.Runs (compile c switches scope) d r d') {e : Element}
    (he : d.get? p = some e) (hrole : e.role = .port) :
    (TouchesLink d r.topology.network e ↔ Joins d r.topology.network e) ∧
      (¬ TouchesLink d r.topology.network e →
        ∀ link ∈ r.topology.links, ∀ number, p ∉ portsAt d r.topology link number) := by
  obtain ⟨d₁, d₂, maps, gone, hstages⟩ := compile_runs h
  have hextracts := hstages.extracts
  refine ⟨⟨?_, Joins.touchesLink⟩, ?_⟩
  · rintro ⟨link, hlink, htouches⟩
    have hmem := (mem_links_iff hextracts).mpr hlink
    have hedge := mem_edgesOf_of_touches hextracts he hrole hmem htouches
    obtain ⟨port, rfl, hdrawn⟩ := drawn_of_build hstages.build hmem hedge
    obtain ⟨e', he', hother, hnode⟩ := farNode?_eq_some hdrawn.far
    rw [hextracts.get?_port (mem_edgesOf.mp hedge).1, he, Option.some.injEq] at he'
    subst he'
    exact ⟨link, port.node, hlink, isNode_of_extracts hextracts hnode, ends_of_otherEnd? hother⟩
  · intro hloose link hlink number hp
    obtain ⟨e', he', htouches, -⟩ := PortMap.carries_iff.mp (List.mem_filter.mp hp).2
    cases he.symm.trans he'
    exact hloose ⟨link, (mem_links_iff hextracts).mp hlink, htouches⟩

/-! ## A port between two nodes -/

/-- A resistor between two nodes, and one more port drawn from node to node. -/
def bridged : Diagram :=
  let elements : List Element :=
    [{ id := "root", role := .root },
      { id := "net", role := .network .sub, label := "Net", parent := some 0 },
      { id := "a", role := .node .basic, label := "0", parent := some 1 },
      { id := "b", role := .node .basic, label := "1", parent := some 1 },
      { id := "r", role := .link ⟨"Resistor", none⟩, label := "R1", parent := some 1 },
      { id := "p", role := .port, label := "0", parent := some 1, source := some 4, target := some 2 },
      { id := "q", role := .port, label := "1", parent := some 1, source := some 4, target := some 3 },
      { id := "x", role := .port, label := "0", parent := some 1, source := some 2, target := some 3 }]
  ⟨(elements.map some).toArray⟩

/-- The network of that resistor compiles. -/
theorem exists_runs_bridged : ∃ r d', Edit.Runs (compile PortMap.resistors {} Diagram.root) bridged r d' ∧
    r.topology.network = 1 ∧ r.topology.links = [4] := by
  have hout : ((compile PortMap.resistors {} Diagram.root).run bridged).result.toOption.any
      (fun r => decide (r.topology.network = 1 ∧ r.topology.links = [4])) = true := by cbv
  obtain ⟨r, hr, hruns⟩ := Edit.exists_runs hout
  exact ⟨r, _, hruns, of_decide_eq_true hr⟩

/-- The resistor is the only link of its network. -/
theorem not_touchesLink_bridged {e : Element} (he : bridged.get? 7 = some e) :
    ¬ TouchesLink bridged 1 e := by
  rintro ⟨link, ⟨-, e', shape, he', hrole⟩, htouches⟩
  cases he
  -- Its two ends are at nodes.
  rw [Element.touches, Bool.or_eq_true, beq_iff_eq, beq_iff_eq] at htouches
  rcases htouches with hend | hend <;> cases hend <;> cases he' <;> cases hrole

/-- Port `5` joins the resistor with a node, and port `7` stands in no port map. -/
theorem ports_join_bridged : ∃ r d',
    Edit.Runs (compile PortMap.resistors {} Diagram.root) bridged r d' ∧
      (∃ e, bridged.get? 5 = some e ∧ Joins bridged r.topology.network e) ∧
      ∀ number, 7 ∉ portsAt bridged r.topology 4 number := by
  obtain ⟨r, d', hruns, hnetwork, hlinks⟩ := exists_runs_bridged
  have hlink : IsLink bridged 1 4 := ⟨by decide +kernel, _, _, rfl, rfl⟩
  refine ⟨r, d', hruns, ⟨_, rfl, ?_⟩, fun number => ?_⟩
  · exact (ports_join (p := 5) hruns rfl rfl).1.mp ⟨4, hnetwork ▸ hlink, rfl⟩
  · refine (ports_join (p := 7) hruns rfl rfl).2 ?_ 4 (hlinks ▸ List.mem_singleton_self 4) number
    rw [hnetwork]
    exact not_touchesLink_bridged rfl

/-- Not every port of a network that compiles joins a link with a node. -/
theorem port_passed_over : ¬ ∀ (c : Catalog) (d : Diagram) (scope : Slot) (r : Compilation)
    (d' : Diagram), Edit.Runs (compile c {} scope) d r d' →
      ∀ p ∈ d.descendants r.topology.network, ∀ e, d.get? p = some e → e.role = .port →
        Joins d r.topology.network e := by
  intro hall
  obtain ⟨r, d', hruns, hnetwork, -⟩ := exists_runs_bridged
  have hin : 7 ∈ bridged.descendants r.topology.network := hnetwork ▸ by decide +kernel
  have hjoins := (hall _ bridged _ r d' hruns 7 hin _ rfl rfl).touchesLink
  rw [hnetwork] at hjoins
  exact not_touchesLink_bridged rfl hjoins

end Netlist.Compilation
