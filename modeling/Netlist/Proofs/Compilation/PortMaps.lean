import Netlist.Proofs.Compilation.Stages

/-!
# Compiled port maps say what was drawn

Between the drawing and the port maps of a compiled network lie several passes:
nodes are sorted and numbered anew, ports claim their slots, plugs are set apart,
fields are reconciled, and the links are read off the diagram in the end. Their
outcome can be said in terms of the drawing alone.

- `EndsOutside`, `Meaning`: where a port of a link ends, and what it is wired to:
  ground, or the rank of the label its end had in the drawing.
- `SaysDrawn`: a port map in terms of the ports that are drawn.
- `compile_says_drawn`: **the links of a compiled network are the links that are
  drawn, jumpers last, and their port maps say what is drawn.**
-/

namespace Netlist.Compilation

open Netlist.PortMap
  (portsAt farNode? farNode?_eq_some scope? inMain Meets Wired Resolves setUpOrder isJumper)
open Netlist.Topology (mainLabels rankOf Extracts)

variable {c : Catalog} {d d₁ : Diagram} {t : Topology} {link : Slot} {gone : List Slot}

/-! ## The ports of a drawing -/

/-- The far end of a port of a link lies outside all interfaces. -/
def EndsOutside (d : Diagram) (link port : Slot) : Prop :=
  ∃ e node, d.get? port = some e ∧ e.otherEnd? link = some node ∧
    Topology.interfaceAround d node = .ok none

/-- What a port of a link is wired to, given the labels of the drawing. -/
inductive Meaning (d : Diagram) (network link port : Slot) : PortTarget → Prop
  | ground {e node : Element} {i : Slot} (edge : d.get? port = some e)
      (far : e.otherEnd? link = some i) (end_ : d.get? i = some node)
      (ground : node.isGround = true) : Meaning d network link port .ground
  | node {e node : Element} {i : Slot} {label : Int} (edge : d.get? port = some e)
      (far : e.otherEnd? link = some i) (end_ : d.get? i = some node)
      (not_ground : node.isGround = false) (number : node.labelNumber? = some label)
      (named : label ∈ mainLabels d network) :
      Meaning d network link port (.node (rankOf d network label))

/-- A port map of a link says what is drawn, its plugs aside: a slot goes to the
one port that ends outside all interfaces, else to the first port with its
number, else to ground. -/
structure SaysDrawn (d : Diagram) (t : Topology) (master : Master) (link : Slot)
    (portMap : List PortTarget) : Prop where
  length : portMap.length = max master.ports {k | portsAt d t link k ≠ []}.ncard
  required : ∀ k ∈ master.required, portsAt d t link k ≠ []
  within : ∀ k, portsAt d t link k ≠ [] → k < portMap.length
  outside : ∀ k ∉ master.plugs, ∀ target, portMap[k]? = some target →
    ∀ p ∈ portsAt d t link k, EndsOutside d link p →
      (∀ q ∈ portsAt d t link k, EndsOutside d link q → q = p) ∧
        Meaning d t.network link p target
  inside : ∀ k ∉ master.plugs, ∀ target, portMap[k]? = some target →
    (∀ p ∈ portsAt d t link k, ¬ EndsOutside d link p) →
      ∀ p ∈ (portsAt d t link k).head?, Meaning d t.network link p target
  free : ∀ k ∉ master.plugs, ∀ target, portMap[k]? = some target →
    portsAt d t link k = [] → target = .ground

/-! ## The ports after extraction -/

/-- The ports of a link are the same before and after extraction. -/
theorem portsAt_extracted (h : Extracts d t d₁ gone) (k : Nat) :
    portsAt d₁ t link k = portsAt d t link k := by
  refine List.filter_congr fun p hp => ?_
  rw [PortMap.carries, PortMap.carries, h.get?_port hp]

theorem farNode?_extracted (h : Extracts d t d₁ gone) {p : Slot} (hp : p ∈ t.ports) :
    farNode? d₁ t link p = farNode? d t link p := by
  rw [farNode?, farNode?, h.get?_port hp]

/-- A port is read as one of the main network iff it ends outside all interfaces. -/
theorem inMain_iff_endsOutside (h : Extracts d t d₁ gone) {p node : Slot} (hp : p ∈ t.ports)
    (hfar : farNode? d₁ t link p = some node) :
    inMain d₁ t link p = true ↔ EndsOutside d link p := by
  rw [inMain, scope?, hfar, Option.map_some, beq_iff_eq, Option.some.injEq]
  rw [farNode?_extracted h hp] at hfar
  obtain ⟨e, he, hother, hnode⟩ := farNode?_eq_some hfar
  have haround := h.interfaceAround hnode
  constructor
  · intro hnone
    exact ⟨e, node, he, hother, by rw [haround, hnone]⟩
  · rintro ⟨e', node', he', hother', hhome⟩
    rw [he] at he'
    cases he'
    rw [hother] at hother'
    cases hother'
    rw [haround] at hhome
    exact Except.ok.inj hhome

/-- **What a port is wired to after extraction is what it means in the drawing**:
the new label of its end is the rank of the old one. -/
theorem meaning_of_meets (h : Extracts d t d₁ gone) {p : Slot} {target : PortTarget}
    (hp : p ∈ t.ports) (hmeets : Meets d₁ t link p target) :
    Meaning d t.network link p target := by
  obtain ⟨node, hfar, htarget⟩ := hmeets
  rw [farNode?_extracted h hp] at hfar
  obtain ⟨e, he, hother, hnode⟩ := farNode?_eq_some hfar
  rw [PortMap.target, bind_eq_ok] at htarget
  obtain ⟨e₁, he₁, htarget⟩ := htarget
  rw [Diagram.fetch_eq_ok] at he₁
  -- A ground keeps its label, and every other node was given its rank.
  rcases h.ground_or_moves hnode with hground | ⟨hground, hmoves⟩
  · obtain ⟨e₀, he₀, hground⟩ := Option.any_eq_true _ _ |>.mp hground
    obtain ⟨e', he', halike⟩ := h.get?_of_not_gone he₀ (h.not_gone hnode)
    rw [he₁] at he'
    cases he'
    have hsame : e₁.isGround = true := by
      rw [Element.isGround, halike.role]
      exact hground
    rw [if_pos hsame] at htarget
    cases htarget
    exact .ground he hother he₀ hground
  · obtain ⟨e₀, x, he₀, hx, hmain, -, hget⟩ := h.moved node hmoves
    rw [he₀, Option.any_some] at hground
    rw [he₁, Option.some.injEq] at hget
    have hsame : e₁.isGround = false := by
      rw [hget, Element.isGround, Element.role_detachAll]
      exact hground
    have hlabel : e₁.label = toString (rankOf d t.network x) := by
      rw [hget, Element.label_detachAll]
    rw [if_neg (by rw [hsame]; decide)] at htarget
    split at htarget
    · rename_i number hnumber
      cases htarget
      rw [Element.labelNatural?_toString hlabel hnumber]
      exact .node he hother he₀ hground hx hmain
    · cases htarget

/-- **A resolved port map says what is drawn.** -/
theorem saysDrawn_of_resolves (h : Extracts d t d₁ gone) {master : Master}
    {portMap plugged : List PortTarget} (hresolves : Resolves d₁ t master link portMap)
    (hlength : plugged.length = portMap.length)
    (hplugged : ∀ k ∉ master.plugs, plugged[k]? = portMap[k]?) :
    SaysDrawn d t master link plugged := by
  have hports : ∀ k, portsAt d₁ t link k = portsAt d t link k := portsAt_extracted h
  have hmem : ∀ {k p}, p ∈ portsAt d t link k → p ∈ t.ports := fun hp => List.mem_of_mem_filter hp
  -- In the main network means at a port that ends outside of the link.
  have hmain : ∀ {k p}, p ∈ portsAt d t link k →
      (inMain d₁ t link p = true ↔ EndsOutside d link p) := by
    intro k p hp
    obtain ⟨scopes, hscopes, -⟩ := hresolves.distinct k
    have hscope : scope? d₁ t link p ∈ scopes.map some :=
      hscopes ▸ List.mem_map_of_mem ((hports k).symm ▸ hp)
    obtain ⟨s, -, hs⟩ := List.mem_map.mp hscope
    obtain ⟨node, hfar, -⟩ := Option.map_eq_some_iff.mp hs.symm
    exact inMain_iff_endsOutside h (hmem hp) hfar
  have hwired : ∀ k ∉ master.plugs, ∀ target, plugged[k]? = some target →
      Wired d₁ t link k target := fun k hk target htarget =>
    hresolves.slot k target (hplugged k hk ▸ htarget)
  refine {
    length := by rw [hlength, hresolves.length]; simp only [hports]
    required := fun k hk => hports k ▸ hresolves.required k hk
    within := fun k hk => hlength ▸ hresolves.within k ((hports k).symm ▸ hk)
    outside := fun k hk target htarget p hp hout => ?_
    inside := fun k hk target htarget hout p hp => ?_
    free := fun k hk target htarget hnil => ?_ }
  · cases hwired k hk target htarget with
    | @main edge _ only meets =>
      rw [hports] at only
      -- No second port of this number may end outside.
      have hedge : ∀ q ∈ portsAt d t link k, EndsOutside d link q → q = edge := by
        intro q hq hqout
        have : q ∈ (portsAt d t link k).filter (inMain d₁ t link) :=
          List.mem_filter.mpr ⟨hq, (hmain hq).mpr hqout⟩
        rw [only] at this
        exact List.mem_singleton.mp this
      obtain rfl := hedge p hp hout
      exact ⟨hedge, meaning_of_meets h (hmem hp) meets⟩
    | inner none_main =>
      have := none_main p ((hports k).symm ▸ hp)
      rw [(hmain hp).mpr hout] at this
      cases this
    | free none_drawn =>
      rw [hports] at none_drawn
      rw [none_drawn] at hp
      cases hp
  · have hp' := List.mem_of_mem_head? hp
    cases hwired k hk target htarget with
    | @main edge _ only meets =>
      rw [hports] at only
      have hedge : edge ∈ (portsAt d t link k).filter (inMain d₁ t link) := by
        rw [only]
        exact List.mem_singleton_self edge
      obtain ⟨hedge, hin⟩ := List.mem_filter.mp hedge
      -- No port of this number ends outside, so none is in the main network.
      exact absurd ((hmain hedge).mp hin) (hout edge hedge)
    | inner _ first meets =>
      rw [hports] at first
      rw [Option.mem_def, first, Option.some.injEq] at hp
      subst hp
      exact meaning_of_meets h (hmem hp') meets
    | free none_drawn =>
      rw [hports] at none_drawn
      rw [none_drawn] at hp'
      cases hp'
  · rcases (hwired k hk target htarget).meets_or_free with ⟨p, hp, -⟩ | ⟨-, rfl⟩
    · rw [hports, hnil] at hp
      cases hp
    · rfl

/-! ## Reading the links -/

/-- Links are read off one by one. -/
theorem linkRecords_eq_ok {resolved : List ResolvedLink} {records : List LinkRecord}
    (h : linkRecords d resolved = .ok records)
    (hlinks : ∀ r ∈ resolved, ∃ e shape, d.get? r.link = some e ∧ e.role = .link shape) :
    List.Forall₂ (fun r record => ∃ e, d.get? r.link = some e ∧ e.role = .link record.shape ∧
      record.name = e.label ∧ record.portMap = r.portMap) resolved records := by
  induction resolved generalizing records with
  | nil =>
    cases h
    exact .nil
  | cons r rest ih =>
    obtain ⟨⟨e, shape, he, hrole⟩, htail⟩ := List.forall_mem_cons.mp hlinks
    rw [linkRecords, bind_eq_ok] at h
    obtain ⟨e', he', h⟩ := h
    rw [Diagram.fetch_eq_ok, he, Option.some.injEq] at he'
    subst he'
    rw [bind_eq_ok] at h
    obtain ⟨later, hlater, h⟩ := h
    rw [hrole] at h
    cases h
    exact .cons ⟨e, he, hrole, rfl, rfl⟩ (ih hlater htail)

theorem links_readNetwork {maps : PortMaps} {entries : List InterfaceEntry} {network : Network}
    (h : readNetwork t maps entries d = .ok network) : linkRecords d maps.links = .ok network.links := by
  rw [readNetwork, bind_eq_ok] at h
  obtain ⟨container, -, h⟩ := h
  rw [bind_eq_ok] at h
  obtain ⟨nodes, -, h⟩ := h
  rw [bind_eq_ok] at h
  obtain ⟨links, hlinks, h⟩ := h
  rw [bind_eq_ok] at h
  obtain ⟨spotters, -, h⟩ := h
  cases h
  exact hlinks

variable {prune : Bool} {scope : Slot} {d₂ d' : Diagram} {r : Compilation} {maps : PortMaps}

/-- A link keeps its role and label throughout a compilation. -/
theorem Stages.get?_link (h : Stages c prune scope d d₁ d₂ d' r maps gone)
    (hlink : link ∈ r.topology.links) :
    ∃ e shape e₁ e', d.get? link = some e ∧ e.role = .link shape ∧
      d₁.get? link = some e₁ ∧ e₁.role = e.role ∧
      d'.get? link = some e' ∧ e'.role = e.role ∧ e'.label = e.label := by
  rw [h.extracts.links, Topology.mem_withRole] at hlink
  obtain ⟨-, e, he, hrole⟩ := hlink
  obtain ⟨shape, hshape⟩ : ∃ shape, e.role = .link shape := by
    cases hr : e.role <;> rw [hr] at hrole <;> first | exact ⟨_, rfl⟩ | cases hrole
  have hd₁ := h.extracts.get?_of_not_node he (by rw [hshape]; rfl)
  obtain ⟨e₂, hd₂, hbare⟩ := h.reconciled.role hd₁
  have hother : link ∉ r.topology.interfaces := by
    rw [h.extracts.interfaces, Topology.mem_withRole]
    rintro ⟨-, e', he', hinterface⟩
    rw [he] at he'
    cases he'
    rw [hshape] at hinterface
    cases hinterface
  refine ⟨e, shape, _, e₂, he, hshape, hd₁, by simp, by rw [h.others link hother, hd₂], ?_, ?_⟩
  · rw [Element.role_of_bare hbare, Element.role_detachAll]
  · rw [Element.label_of_bare hbare, Element.label_detachAll]

/-- **The links of a compiled network are the links that are drawn**, those with
plugs last, and their port maps say what is drawn. -/
theorem compile_says_drawn {switches : Switches}
    (h : Edit.Runs (compile c switches scope) d r d') :
    List.Forall₂ (fun link record => ∃ e master, d.get? link = some e ∧
        e.role = .link record.shape ∧ e.label = record.name ∧
        c.masterOf? e.role = some master ∧ SaysDrawn d r.topology master link record.portMap)
      (setUpOrder c d r.topology.links) r.network.links := by
  obtain ⟨d₁, d₂, maps, gone, hstages⟩ := compile_runs h
  have hjumper : ∀ link ∈ r.topology.links, isJumper c d₁ link = isJumper c d link := by
    intro link hlink
    obtain ⟨e, -, e₁, -, he, -, he₁, hrole, -⟩ := hstages.get?_link hlink
    rw [isJumper, isJumper, he, he₁, Option.bind_some, Option.bind_some, hrole]
  -- Masters are told by roles, and extracting the topology keeps the roles of links.
  have horder : setUpOrder c d₁ r.topology.links = setUpOrder c d r.topology.links := by
    rw [setUpOrder, setUpOrder, List.filter_congr hjumper,
      List.filter_congr fun link hlink => by rw [hjumper link hlink]]
  obtain ⟨hresolved, -, -⟩ := PortMap.build_eq_ok hstages.build
  rw [horder] at hresolved
  have hmem : ∀ link ∈ setUpOrder c d r.topology.links, link ∈ r.topology.links := by
    intro link hlink
    rw [setUpOrder, List.mem_append, List.mem_filter, List.mem_filter] at hlink
    rcases hlink with hlink | hlink
    · exact hlink.1
    · exact hlink.1
  have hrecords := linkRecords_eq_ok (links_readNetwork hstages.network) fun resolved hres => by
    obtain ⟨link, hlink, hresolves⟩ := forall₂_mem_right hresolved hres
    obtain ⟨e, shape, -, e', -, hshape, -, -, he', hrole, -⟩ :=
      hstages.get?_link (hmem link hlink)
    exact ⟨e', shape, hresolves.link_eq ▸ he', hrole.trans hshape⟩
  refine forall₂_imp_mem (forall₂_trans hresolved hrecords) fun link hlink record _ hboth => ?_
  obtain ⟨resolved, hresolves, e', he', hshape, hname, hmap⟩ := hboth
  obtain ⟨e, shape, e₁, e'', he, -, he₁, hrole₁, he'', hrole, hlabel⟩ :=
    hstages.get?_link (hmem link hlink)
  rw [hresolves.link_eq, he''] at he'
  cases he'
  obtain ⟨e₁', master, portMap, he₁', hmaster, hres, hlength, hplugged⟩ := hresolves.drawn
  rw [he₁] at he₁'
  cases he₁'
  refine ⟨e, master, he, hrole ▸ hshape, by rw [hname, hlabel], hrole₁ ▸ hmaster, ?_⟩
  rw [hmap]
  exact saysDrawn_of_resolves hstages.extracts hres hlength hplugged

/-! ## A drawing with gaps -/

/-- Nodes labelled `7` and `3`, a ground, and a valve. Port `0` of the valve ends
at a copy of node `3` and at node `7`, port `1` at the ground. -/
def gapped : Diagram :=
  let elements : List Element :=
    [{ id := "root", role := .root },
      { id := "net", role := .network .sub, parent := some 0 },
      { id := "a", role := .node .basic, label := "7", parent := some 1 },
      { id := "b", role := .node .basic, label := "3", parent := some 1 },
      { id := "g", role := .node .ground, parent := some 1 },
      { id := "v", role := .link ⟨"Valve", none⟩, label := "V1", parent := some 1 },
      { id := "i", role := .interface ⟨none, none⟩, label := "inlet", parent := some 1 },
      { id := "k", role := .node .basic, label := "3", parent := some 6 },
      { id := "p", role := .port, label := "0", parent := some 1, source := some 5, target := some 7 },
      { id := "q", role := .port, label := "0", parent := some 1, source := some 5, target := some 2 },
      { id := "s", role := .port, label := "1", parent := some 1, source := some 5, target := some 4 }]
  ⟨(elements.map some).toArray⟩

/-- The port in the main network wins, and `7` is the second label. -/
theorem compile_says_drawn_gapped :
    ∃ r d', Edit.Runs (compile Recording.valves {} Diagram.root) gapped r d' ∧
      ∃ link master, SaysDrawn gapped r.topology master link [.node 1, .ground] := by
  have hout : ((compile Recording.valves {} Diagram.root).run gapped).result.toOption.any
      (fun r => decide (r.network.links.map LinkRecord.portMap = [[.node 1, .ground]])) = true := by
    cbv
  obtain ⟨r, hr, hlinks⟩ := Option.any_eq_true _ _ |>.mp hout
  have hruns : Edit.Runs (compile Recording.valves {} Diagram.root) gapped r
      ((compile Recording.valves {} Diagram.root).run gapped).diagram := by
    refine ⟨?_, rfl⟩
    cases hresult : ((compile Recording.valves {} Diagram.root).run gapped).result with
    | ok r' =>
      rw [hresult] at hr
      cases hr
      rfl
    | error e =>
      rw [hresult] at hr
      cases hr
  refine ⟨r, _, hruns, ?_⟩
  obtain ⟨record, hrecord, hmap⟩ := List.mem_map.mp
    ((of_decide_eq_true hlinks).symm ▸ List.mem_singleton_self _)
  obtain ⟨link, -, -, master, -, -, -, -, hsays⟩ :=
    forall₂_mem_right (compile_says_drawn hruns) hrecord
  exact ⟨link, master, hmap ▸ hsays⟩

end Netlist.Compilation
