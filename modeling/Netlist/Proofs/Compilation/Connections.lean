import Netlist.Proofs.Compilation.Interfaces
import Netlist.Proofs.Compilation.Joints
import Netlist.Proofs.Topology.Partition

/-!
# The connections of a compiled network

Every interface of a network is entered with the connections of the ports that end at its
keyed nodes. Bindings are kept while port maps are built, whether or not their ports win
the slots, and are told apart by interface only when the interfaces are recorded. Here the
connections are read off the drawing.

- `tie?`: the connection that a port makes between a link and an interface.
- `Entered`: what is entered for an interface.
- `connection?_of_drawn`: what becomes of the binding of one port.
- `connections_of_compile`: **every interface of the network is entered, in document order,
  with the connections of its links and their ports**; none is lost, since every interface
  around a node is in the network, unless the root is.
- `connection_lost`: a network with the root inside, and an interface around it.
-/

namespace Netlist.Compilation

open Diagram (root)
open Netlist.PortMap (edgesOf bindingAt? binding? IsDrawn farNode?_eq_some drawn_of_build
  bindings_of_build mem_edgesOf)
open Netlist.Recording (connection? connections bindingsOf)
open Netlist.Topology (Extracts interfaceAround withRole mem_withRole)

variable {c : Catalog} {prune : Bool} {scope : Slot} {d d₁ d₂ d' : Diagram} {r : Compilation}
  {maps : PortMaps} {gone slots : List Slot} {t : Topology} {i interface link p : Slot} {e : Element}

/-- The ports with an end at a link, in document order. -/
def portsTouching (d : Diagram) (link : Slot) : List Slot :=
  d.select fun e => e.role == .port && e.touches link

/-- The connection that a port makes between a link and an interface: the other end of the
port is a node with a key, and the interface is the nearest around that node. -/
def tie? (d : Diagram) (maps : PortMaps) (interface link port : Slot) : Option Connection := do
  let edge ← d.get? port
  let number ← edge.labelNatural? Text.countLimit
  let node ← edge.otherEnd? link
  let e ← d.get? node
  let key ← e.key?
  let owner ← d.get? link
  if e.role.nodeKind?.isSome ∧ (interfaceAround d node).toOption = some (some interface) then
    some ⟨owner.label, number, key, maps.numbers link⟩
  else none

/-- The connections of an interface, by links and their ports. -/
def ties (d : Diagram) (maps : PortMaps) (network interface : Slot) : List Connection :=
  (withRole d (d.descendants network) Role.isLink).flatMap fun link =>
    (portsTouching d link).filterMap (tie? d maps interface link)

/-- What is entered for an interface: its label, the number of nodes, and its connections. -/
def Entered (d : Diagram) (maps : PortMaps) (r : Compilation) (interface : Slot)
    (entry : InterfaceEntry) : Prop :=
  ∃ e, d.get? interface = some e ∧
    entry = ⟨e.label, ⟨r.network.nodes.length, ties d maps r.topology.network interface⟩⟩

/-! ## The binding of one port -/

/-- What is no node of a network still has its label after reconciling. -/
theorem label_of_reconciled (hextracts : Extracts d t d₁ gone) (hframe : SameButFields slots d₁ d₂)
    (he : d.get? i = some e) (hrole : e.role.nodeKind? = none) :
    ∃ e₂, d₂.get? i = some e₂ ∧ e₂.label = e.label := by
  obtain ⟨e₂, he₂, hbare⟩ := hframe.role (hextracts.get?_of_not_node he hrole)
  exact ⟨e₂, he₂, (Element.label_of_bare hbare).trans (Element.label_detachAll _ _)⟩

/-- A node of a network still has its key after reconciling. -/
theorem key_of_reconciled (hextracts : Extracts d t d₁ gone)
    (hframe : SameButFields (t.links ++ t.spotters) d₁ d₂) (hnode : t.isNode i = true)
    (he : d.get? i = some e) : ∃ e₁, d₁.get? i = some e₁ ∧ d₂.get? i = some e₁ ∧ e₁.key? = e.key? := by
  obtain ⟨e₁, he₁, halike⟩ := hextracts.get?_of_not_gone he (hextracts.not_gone hnode)
  obtain ⟨e₀, kind, he₀, hrole⟩ := hextracts.exists_role hnode
  obtain rfl : e₀ = e := Option.some.inj (he₀.symm.trans he)
  refine ⟨e₁, he₁, ?_, by rw [Element.key?, halike.fields, Element.key?]⟩
  rw [hframe.2 i, he₁]
  rw [hextracts.links, hextracts.spotters, List.mem_append, mem_withRole, mem_withRole]
  rintro (⟨-, e', he', hother⟩ | ⟨-, e', he', hother⟩) <;> cases he.symm.trans he' <;>
    rw [hrole] at hother <;> cases hother

/-- The connection of a binding, if it has one. -/
def connectionOf? (maps : PortMaps) (d : Diagram) (b : InterfaceBinding) : Option Connection :=
  (connection? maps d b).toOption.join

/-- The connections of bindings are those that the bindings have. -/
theorem connections_eq_filterMap {bindings : List InterfaceBinding} {found : List Connection}
    (h : connections maps d bindings = .ok found) :
    found = bindings.filterMap (connectionOf? maps d) := by
  induction bindings generalizing found with
  | nil =>
    cases h
    rfl
  | cons b bindings ih =>
    rw [connections, bind_eq_ok] at h
    obtain ⟨o, ho, h⟩ := h
    rw [bind_eq_ok] at h
    obtain ⟨later, hlater, h⟩ := h
    cases h
    have hb : connectionOf? maps d b = o := by rw [connectionOf?, ho]; rfl
    rw [ih hlater]
    cases o with
    | none => rw [List.filterMap_cons_none hb, Option.toList_none, List.nil_append]
    | some connection =>
      rw [List.filterMap_cons_some hb, Option.toList_some, List.singleton_append]

/-- **What becomes of the binding of a port** is the tie that the port makes. -/
theorem bind_binding?_of_drawn (hextracts : Extracts d t d₁ gone)
    (hframe : SameButFields (t.links ++ t.spotters) d₁ d₂) (hlink : link ∈ t.links)
    {port : DrawnPort} (hport : port.edge ∈ t.ports) (hdrawn : IsDrawn d₁ t link port) :
    ((binding? d₁ t link port).bind fun b =>
      if b.interface == interface then connectionOf? maps d₂ b else none) =
      tie? d maps interface link port.edge := by
  obtain ⟨edge, hedge, -, hnumber⟩ := PortMap.carries_iff.mp hdrawn.carries
  obtain ⟨edge', hedge', hother, hnode⟩ := farNode?_eq_some hdrawn.far
  obtain rfl : edge = edge' := Option.some.inj (hedge.symm.trans hedge')
  rw [hextracts.get?_port hport] at hedge
  obtain ⟨node, kind, he, hrole⟩ := hextracts.exists_role hnode
  obtain ⟨node₁, he₁, he₂, hkey⟩ := key_of_reconciled hextracts hframe hnode he
  rw [hextracts.links, mem_withRole] at hlink
  obtain ⟨-, owner, howner, hislink⟩ := hlink
  have hother' : owner.role.nodeKind? = none := by
    cases hr : owner.role <;> rw [hr] at hislink <;> first | rfl | cases hislink
  obtain ⟨owner₂, howner₂, hlabel⟩ := label_of_reconciled hextracts hframe howner hother'
  have haround := hextracts.interfaceAround hnode
  -- All that the tie reads is known now, but for the home of the node and its key.
  have htie : tie? d maps interface link port.edge = node.key?.bind fun key =>
      if t.interfaceOf? port.node = some interface then
        some ⟨owner.label, port.number, key, maps.numbers link⟩ else none := by
    simp only [tie?, hedge, hnumber, hother, he, howner, haround, hrole, Option.bind_eq_bind,
      Option.bind_some, Role.nodeKind?, Option.isSome_some, Except.toOption, Option.some.injEq,
      true_and]
  rw [htie, binding?, he₁, Option.any_some, hkey]
  cases hhome : t.interfaceOf? port.node with
  | none =>
    cases node.key? <;> rfl
  | some home =>
    cases hk : node.key? with
    | none => rfl
    | some key =>
      rw [Option.bind_some, Option.isSome_some, if_pos rfl, Option.bind_some, Option.bind_some]
      -- The port counts for the interface that its node is in, and for no other one.
      by_cases hsame : home = interface
      · have hfound : connection? maps d₂ ⟨link, port.number, port.node, home⟩ =
            .ok (some ⟨owner.label, port.number, key, maps.numbers link⟩) := by
          rw [connection?, bind_eq_ok]
          refine ⟨node₁, Diagram.fetch_eq_ok.mpr he₂, ?_⟩
          rw [hkey, hk, ← hlabel]
          exact bind_eq_ok.mpr ⟨owner₂, Diagram.fetch_eq_ok.mpr howner₂, rfl⟩
        rw [if_pos (beq_iff_eq.mpr hsame), if_pos (congrArg some hsame), connectionOf?, hfound]
        rfl
      · rw [if_neg (mt beq_iff_eq.mp hsame), if_neg (mt Option.some.inj hsame)]

/-- The ports of a link of the network are all ports that touch it. -/
theorem edgesOf_extracted (h : Extracts d t d₁ gone) (hlink : link ∈ t.links) :
    edgesOf d₁ t link = portsTouching d link := by
  have hsame : edgesOf d₁ t link = t.ports.filter fun p => (d.get? p).any fun e => e.touches link :=
    List.filter_congr fun p hp => by rw [h.get?_port hp]
  rw [hsame, h.ports, Topology.portsOf, portsTouching, Diagram.select, Diagram.select,
    List.filter_filter, List.filter_filter]
  refine List.filter_congr fun p _ => ?_
  cases d.get? p with
  | none => rfl
  | some e =>
    rw [Option.any_some, Option.any_some, Option.any_some]
    cases htouches : e.touches link with
    | false => simp
    | true =>
      have hany : (t.links.any fun link => e.touches link) = true :=
        List.any_eq_true.mpr ⟨link, hlink, htouches⟩
      simp [hany]

/-- **The connections that are recorded for an interface are its ties.** -/
theorem connections_eq_ties (hextracts : Extracts d t d₁ gone)
    (hbuild : PortMaps.build c t d₁ = .ok maps)
    (hframe : SameButFields (t.links ++ t.spotters) d₁ d₂) {found : List Connection}
    (h : connections maps d₂ (bindingsOf maps interface) = .ok found) :
    found = ties d maps t.network interface := by
  rw [connections_eq_filterMap h, bindingsOf, List.filterMap_filter, bindings_of_build hbuild,
    List.filterMap_flatMap, ties, ← hextracts.links]
  refine List.flatMap_congr fun link hlink => ?_
  rw [List.filterMap_filterMap, ← edgesOf_extracted hextracts hlink]
  refine List.filterMap_congr fun p hp => ?_
  obtain ⟨port, rfl, hdrawn⟩ := drawn_of_build hbuild hlink hp
  rw [hdrawn.bindingAt?]
  exact bind_binding?_of_drawn hextracts hframe hlink (mem_edgesOf.mp hp).1 hdrawn

/-! ## Interfaces around the network -/

/-- What an element is inside of is around it, if the root is not inside of it. -/
theorem encloses_of_inside {a : Slot} (h : d.Inside i a) (ha : ∃ e, d.get? a = some e)
    (hroot : ¬ d.Inside root a) : d.Encloses a i := by
  obtain ⟨e, he⟩ := ha
  induction h using Relation.TransGen.head_induction_on with
  | single hp => exact .parent hp he
  | @head i p hp hin ih =>
    obtain ⟨e', he'⟩ := Diagram.Inside.live hin
    have hne : p ≠ root := by
      rintro rfl
      exact hroot hin
    exact .above hp he' hne ih

/-- The interface around a node of the network is the nearest one, and one of the network. -/
theorem Stages.interfaceAround_iff (h : Stages c prune scope d d₁ d₂ d' r maps gone)
    (hvalid : d.validate = .ok ()) (hroot : ¬ d.Inside root r.topology.network)
    (hin : d.Inside i r.topology.network) :
    interfaceAround d i = .ok (some interface) ↔
      interface ∈ withRole d (d.descendants r.topology.network) Role.isInterface ∧
        d.Nearest (fun _ e => e.role.isInterface) i interface := by
  have hloop : ∀ i, ¬ d.Inside i i := fun _ => Diagram.not_inside_self hvalid
  constructor
  · intro haround
    have hnearest := Diagram.nearestAncestor_eq_some haround
    have hmem := Topology.mem_interfaces_of_around h.extract hroot hin haround
    exact ⟨h.extracts.interfaces ▸ hmem, hnearest⟩
  · rintro ⟨hmem, hnearest⟩
    obtain ⟨hmem, e, he, hrole⟩ := mem_withRole.mp hmem
    have hbelow := (Diagram.mem_descendants.mp hmem).2.2
    have hencloses : d.Encloses interface i :=
      encloses_of_inside hnearest.inside ⟨e, he⟩ fun hup => hroot (hup.trans hbelow)
    obtain ⟨home, hhome⟩ : ∃ home, interfaceAround d i = .ok home :=
      Diagram.exists_nearestAncestor hloop i _
    cases home with
    | none =>
      have hfails := (Diagram.nearestAncestor_eq_none_iff.mp hhome).2 interface e hencloses he
      rw [hrole] at hfails
      cases hfails
    | some found =>
      -- both are the nearest, so neither is inside the other
      have hfound := Diagram.nearestAncestor_eq_some hhome
      obtain ⟨e', he', hrole'⟩ := hfound.passes
      rcases hfound.least hnearest.inside he hrole with heq | hup
      · rw [hhome, heq]
      rcases hnearest.least hfound.inside he' hrole' with heq | hdown
      · rw [hhome, heq]
      · exact absurd (hup.trans hdown) (hloop found)

/-! ## All interfaces -/

theorem length_nodeRecords {number : Nat} {nodes : List Slot} {records : List NodeRecord}
    (h : nodeRecords d number nodes = .ok records) : records.length = nodes.length := by
  induction nodes generalizing number records with
  | nil =>
    cases h
    rfl
  | cons i nodes ih =>
    rw [nodeRecords, bind_eq_ok] at h
    obtain ⟨e, -, h⟩ := h
    rw [bind_eq_ok] at h
    obtain ⟨later, hlater, h⟩ := h
    cases h
    rw [List.length_cons, List.length_cons, ih hlater]

/-- A network has a record for each of its numbered nodes. -/
theorem length_nodes_readNetwork {entries : List InterfaceEntry} {network : Network}
    (h : readNetwork t maps entries d = .ok network) : network.nodes.length = t.nodeCount := by
  rw [readNetwork, bind_eq_ok] at h
  obtain ⟨container, -, h⟩ := h
  rw [bind_eq_ok] at h
  obtain ⟨nodes, hnodes, h⟩ := h
  rw [bind_eq_ok] at h
  obtain ⟨links, -, h⟩ := h
  rw [bind_eq_ok] at h
  obtain ⟨spotters, -, h⟩ := h
  cases h
  exact length_nodeRecords hnodes

/-- **Every interface of a network that compiles is entered with its connections**, in
document order. The interface of a node is the one that the search upwards finds, which ends
at the root. Unless the root is inside the network, it is the nearest interface around the
node, and one of the network. -/
theorem connections_of_compile {switches : Switches}
    (h : Edit.Runs (compile c switches scope) d r d') :
    (∃ d₁ maps, Topology.extract c switches.pruneGrounds scope d = .ok (r.topology, d₁) ∧
      PortMaps.build c r.topology d₁ = .ok maps ∧
      List.Forall₂ (Entered d maps r)
        (withRole d (d.descendants r.topology.network) Role.isInterface) r.network.interfaces) ∧
    (¬ d.Inside root r.topology.network → ∀ i, IsNode d r.topology.network i → ∀ interface,
      interfaceAround d i = .ok (some interface) ↔
        interface ∈ withRole d (d.descendants r.topology.network) Role.isInterface ∧
          d.Nearest (fun _ e => e.role.isInterface) i interface) ∧
    (scope = root ∨ d.Rooted → ¬ d.Inside root r.topology.network) := by
  have hvalid := compile_validates h
  obtain ⟨d₁, d₂, maps, gone, hstages⟩ := compile_runs h
  refine ⟨⟨d₁, maps, hstages.extract, hstages.build, ?_⟩, fun hroot i hi interface => ?_, ?_⟩
  · rw [← hstages.extracts.interfaces]
    refine forall₂_imp_mem hstages.recorded fun interface hinterface entry _ hrecorded => ?_
    obtain ⟨e₂, found, he₂, hfound, rfl, -⟩ := hrecorded
    rw [hstages.extracts.interfaces, mem_withRole] at hinterface
    obtain ⟨-, e, he, hrole⟩ := hinterface
    have hother : e.role.nodeKind? = none := by
      cases hr : e.role <;> rw [hr] at hrole <;> first | rfl | cases hrole
    obtain ⟨e₂', he₂', hlabel⟩ :=
      label_of_reconciled hstages.extracts hstages.reconciled he hother
    obtain rfl : e₂ = e₂' := Option.some.inj (he₂.symm.trans he₂')
    refine ⟨e, he, ?_⟩
    rw [hlabel, length_nodes_readNetwork hstages.network,
      connections_eq_ties hstages.extracts hstages.build hstages.reconciled hfound]
  · exact hstages.interfaceAround_iff hvalid hroot (Diagram.mem_descendants.mp hi.1).2.2
  · exact hstages.root_outside hvalid

/-- The valve is connected to the key of its interface. -/
theorem connections_of_compile_tapped : ∃ r d',
    Edit.Runs (compile Recording.valves {} root) (Recording.tapped "V1") r d' ∧
      r.network.interfaces = [⟨"inlet", ⟨2, [⟨"V1", 1, "in", [0, 1]⟩]⟩⟩] ∧
      ¬ (Recording.tapped "V1").Inside root r.topology.network := by
  have hextract : Topology.extract Recording.valves true root (Recording.tapped "V1") =
      .ok (Recording.tappedTopology, Recording.tapped "V1") := by cbv
  have hbuild : PortMaps.build Recording.valves Recording.tappedTopology (Recording.tapped "V1") =
      .ok Recording.tappedMaps := by cbv
  have hout : ((compile Recording.valves {} root).run (Recording.tapped "V1")).result.toOption.any
      (fun r => decide (r.network.nodes.length = 2)) = true := by cbv
  obtain ⟨r, hr, hruns⟩ := Edit.exists_runs hout
  obtain ⟨⟨d₁, maps, hextract', hbuild', hentered⟩, -, hroot⟩ := connections_of_compile hruns
  obtain ⟨htopology, rfl⟩ := Prod.mk.inj (Except.ok.inj (hextract'.symm.trans hextract))
  rw [htopology, hbuild, Except.ok.injEq] at hbuild'
  subst hbuild'
  refine ⟨r, _, hruns, ?_, hroot (.inl rfl)⟩
  have hinterfaces : withRole (Recording.tapped "V1")
      ((Recording.tapped "V1").descendants r.topology.network) Role.isInterface = [5] := by
    rw [htopology]
    cbv
  rw [hinterfaces] at hentered
  obtain ⟨entry, entries, ⟨e, he, rfl⟩, hrest, hlist⟩ := List.forall₂_cons_left_iff.mp hentered
  rw [List.forall₂_nil_left_iff.mp hrest] at hlist
  rw [hlist, htopology, of_decide_eq_true hr]
  cases he
  cbv

/-! ## A root inside the network -/

/-- A network whose node `3` is above it in the root, and whose keyed node `4` is in the
interface around it. -/
def uprooted : Diagram :=
  let elements : List Element :=
    [{ id := "root", role := .root, parent := some 2 },
      { id := "i", role := .interface ⟨none, none⟩, label := "outer" },
      { id := "net", role := .network .sub, label := "Net", parent := some 1 },
      { id := "a", role := .node .basic, label := "0", parent := some 0 },
      { id := "k", role := .node .basic, label := "0", parent := some 2,
        fields := Fields.ofList [(Element.keyField, "in")] },
      { id := "v", role := .link ⟨"Valve", none⟩, label := "V1", parent := some 2 },
      { id := "p", role := .port, label := "0", parent := some 2, source := some 5, target := some 4 },
      { id := "q", role := .port, label := "1", parent := some 2, source := some 5, target := some 3 }]
  ⟨(elements.map some).toArray⟩

/-- A keyed node of a network that compiles may be in an interface outside the network. -/
theorem connection_lost : ¬ ∀ (c : Catalog) (d : Diagram) (scope : Slot) (r : Compilation)
    (d' : Diagram), Edit.Runs (compile c {} scope) d r d' →
      ∀ i interface, IsNode d r.topology.network i →
        (d.get? i).any (fun e => e.key?.isSome) = true →
        d.Nearest (fun _ e => e.role.isInterface) i interface →
        interface ∈ d.descendants r.topology.network := by
  intro hall
  have hout : ((compile Recording.valves {} 2).run uprooted).result.toOption.any
      (fun r => decide (r.topology.network = 2)) = true := by cbv
  obtain ⟨r, hr, hruns⟩ := Edit.exists_runs hout
  have hnetwork : r.topology.network = 2 := of_decide_eq_true hr
  have hnode : IsNode uprooted 2 4 := ⟨by decide +kernel, _, _, rfl, rfl⟩
  have hnearest : uprooted.Nearest (fun _ e => e.role.isInterface) 4 1 :=
    .skip ⟨_, rfl, rfl⟩ rfl rfl (.hit ⟨_, rfl, rfl⟩ rfl rfl)
  have hmem := hall _ uprooted 2 r _ hruns 4 1 (hnetwork ▸ hnode) rfl hnearest
  rw [hnetwork] at hmem
  revert hmem
  decide +kernel

end Netlist.Compilation
