import Netlist.Proofs.PortMap.Slots

/-!
# What port maps are read off

Building port maps looks at the links of a network, at its ports, and at the nodes that
its ports end at: at their names and labels, at the ends of ports, at which nodes are
grounds or have keys, and at the masters of links. Diagrams that agree on these have the
same port maps, and the same failures. Whatever no port ends at does not matter.

- `SameSign`, `SameDrawn`: elements that agree on what port maps look at.
- `SameReading`: diagrams that agree on what the port maps of a topology are read off.
- `build_congr_of_reading`: **port maps are the same in diagrams that agree on what they
  are read off.**
- `SameParts`, `SameView`, `build_congr`: the case that the diagrams agree everywhere.
-/

namespace Netlist.PortMap

variable {c : Catalog} {d d' : Diagram} {t t' : Topology} {i link : Slot} {owner : Locator}

/-- Elements that agree on what port maps look at, ends and keys aside. -/
structure SameSign (e e' : Element) : Prop where
  locator : e'.locator = e.locator
  ground : e'.isGround = e.isGround
  master : ∀ c : Catalog, c.masterOf? e'.role = c.masterOf? e.role

/-- Elements that agree on what port maps look at, keys aside. -/
structure SameDrawn (e e' : Element) : Prop where
  locator : e'.locator = e.locator
  source : e'.source = e.source
  target : e'.target = e.target
  ground : e'.isGround = e.isGround
  master : ∀ c : Catalog, c.masterOf? e'.role = c.masterOf? e.role

/-- Topologies that agree on what port maps look at. -/
structure SameParts (t t' : Topology) : Prop where
  links : t'.links = t.links
  ports : t'.ports = t.ports
  isNode : ∀ i, t'.isNode i = t.isNode i
  interfaceOf? : ∀ i, t'.interfaceOf? i = t.interfaceOf? i

/-- Diagrams that agree on what the port maps of a topology look at. Only nodes in
interfaces are asked for keys. -/
structure SameView (t : Topology) (d d' : Diagram) : Prop where
  elements : ∀ i, Option.Rel SameDrawn (d.get? i) (d'.get? i)
  keys : ∀ i, (t.interfaceOf? i).isSome = true →
    ((d'.get? i).any fun e => e.key?.isSome) = (d.get? i).any fun e => e.key?.isSome

/-- Two topologies and diagrams agree on a node that a port may end at. -/
structure SameFar (t t' : Topology) (d d' : Diagram) (i : Slot) : Prop where
  isNode : t'.isNode i = t.isNode i
  interfaceOf? : t'.interfaceOf? i = t.interfaceOf? i
  element : Option.Rel SameSign (d.get? i) (d'.get? i)
  key : (t.interfaceOf? i).isSome = true →
    ((d'.get? i).any fun e => e.key?.isSome) = (d.get? i).any fun e => e.key?.isSome

/-- Two topologies and diagrams agree on all that port maps are read off. -/
structure SameReading (t t' : Topology) (d d' : Diagram) : Prop where
  links : t'.links = t.links
  ports : t'.ports = t.ports
  link : ∀ i ∈ t.links, Option.Rel SameSign (d.get? i) (d'.get? i)
  port : ∀ p ∈ t.ports, Option.Rel SameDrawn (d.get? p) (d'.get? p)
  node : ∀ p ∈ t.ports, ∀ e, d.get? p = some e → ∀ i, e.touches i = true → SameFar t t' d d' i

theorem SameSign.label {e e' : Element} (h : SameSign e e') : e'.label = e.label := by
  show e'.locator.label = e.locator.label
  rw [h.locator]

theorem SameSign.labelNatural? {e e' : Element} (h : SameSign e e') (limit : Nat) :
    e'.labelNatural? limit = e.labelNatural? limit := by
  rw [Element.labelNatural?, Element.labelNatural?, Element.labelNumber?, Element.labelNumber?, h.label]

theorem SameDrawn.sign {e e' : Element} (h : SameDrawn e e') : SameSign e e' :=
  ⟨h.locator, h.ground, h.master⟩

theorem SameDrawn.touches {e e' : Element} (h : SameDrawn e e') (i : Slot) :
    e'.touches i = e.touches i := by
  rw [Element.touches, Element.touches, h.source, h.target]

theorem SameDrawn.otherEnd? {e e' : Element} (h : SameDrawn e e') (i : Slot) :
    e'.otherEnd? i = e.otherEnd? i := by
  rw [Element.otherEnd?, Element.otherEnd?, h.source, h.target]

/-- The end across from a slot is an end. -/
theorem touches_of_otherEnd? {e : Element} (h : e.otherEnd? link = some i) :
    e.touches i = true := by
  rw [Element.otherEnd?] at h
  rw [Element.touches, Bool.or_eq_true, beq_iff_eq, beq_iff_eq]
  split at h
  · exact .inr h
  · split at h
    · exact .inl h
    · cases h

/-- What follows on a fetch is the same if it only looks at what the elements agree on. -/
theorem fetch_bind_congr {α : Type} {R : Element → Element → Prop}
    {f f' : Element → Except Fault α} (h : Option.Rel R (d.get? i) (d'.get? i))
    (hf : ∀ e e', d.get? i = some e → R e e' → f' e' = f e) :
    (d'.fetch i >>= f') = (d.fetch i >>= f) := by
  rw [Diagram.fetch, Diagram.fetch]
  generalize d.get? i = o at h hf
  generalize d'.get? i = o' at h
  cases h with
  | none => rfl
  | some hsame => exact hf _ _ rfl hsame

/-! ## One link -/

theorem readPort_congr (h : SameReading t t' d d') {edge : Slot} (hedge : edge ∈ t.ports) :
    readPort d' t' link owner edge = readPort d t link owner edge := by
  refine fetch_bind_congr (h.port edge hedge) fun e e' he hsame => ?_
  have hnode : ((e.otherEnd? link).filter fun node => node != link && t'.isNode node) =
      (e.otherEnd? link).filter fun node => node != link && t.isNode node := by
    cases hend : e.otherEnd? link with
    | none => rfl
    | some node =>
      have hfar := h.node edge hedge e he node (touches_of_otherEnd? hend)
      simp only [Option.filter, hfar.isNode]
  rw [hsame.sign.labelNatural?, hsame.locator, hsame.sign.label, hsame.otherEnd?, hnode]

theorem drawnPorts_congr (h : SameReading t t' d d') {edges : List Slot} (hedges : edges ⊆ t.ports) :
    drawnPorts d' t' link owner edges = drawnPorts d t link owner edges := by
  induction edges with
  | nil => rfl
  | cons edge edges ih =>
    obtain ⟨hedge, hrest⟩ := List.cons_subset.mp hedges
    refine fetch_bind_congr (h.port edge hedge) fun e e' _ hsame => ?_
    rw [hsame.touches, readPort_congr h hedge, ih hrest]

theorem target_congr {node : Slot} (h : SameFar t t' d d' node) : target d' node = target d node :=
  fetch_bind_congr h.element fun e e' _ hsame => by
    rw [hsame.ground, hsame.labelNatural?, hsame.locator, hsame.label]

theorem binding?_congr {port : DrawnPort} (h : SameFar t t' d d' port.node) :
    binding? d' t' link port = binding? d t link port := by
  rw [binding?, binding?, h.interfaceOf?]
  cases hscope : t.interfaceOf? port.node with
  | none => rfl
  | some interface => rw [Option.bind_some, Option.bind_some, h.key (by rw [hscope]; rfl)]

/-- A drawn port is a port of the network that ends at its node. -/
theorem sameFar_of_drawn (h : SameReading t t' d d') {drawn : List DrawnPort}
    (hdrawn : drawnPorts d t link owner t.ports = .ok drawn) :
    ∀ port ∈ drawn, port.edge ∈ t.ports ∧ SameFar t t' d d' port.node := by
  obtain ⟨hall, hedges⟩ := drawnPorts_eq_ok hdrawn
  intro port hport
  have hedge : port.edge ∈ t.ports := by
    have hmem := List.mem_map_of_mem (f := DrawnPort.edge) hport
    rw [hedges] at hmem
    exact List.mem_of_mem_filter hmem
  obtain ⟨e, he, hend, -⟩ := farNode?_eq_some (hall port hport).far
  exact ⟨hedge, h.node port.edge hedge e he port.node (touches_of_otherEnd? hend)⟩

theorem fill_congr (h : SameReading t t' d d') {drawn : List DrawnPort}
    (hdrawn : ∀ port ∈ drawn, port.edge ∈ t.ports ∧ SameFar t t' d d' port.node)
    (slots : List (Option Claim)) : fill d' t' owner slots drawn = fill d t owner slots drawn := by
  induction drawn generalizing slots with
  | nil => rfl
  | cons port drawn ih =>
    obtain ⟨⟨hedge, hnode⟩, hrest⟩ := List.forall_mem_cons.mp hdrawn
    refine fetch_bind_congr (h.port port.edge hedge) fun e e' _ hsame => ?_
    simp only [hsame.locator, target_congr hnode, hnode.interfaceOf?, ih hrest]

theorem resolve_congr (h : SameReading t t' d d') (master : Master) :
    resolve d' t' link owner master = resolve d t link owner master := by
  rw [resolve, resolve, h.ports, drawnPorts_congr h (List.Subset.refl _)]
  cases hdrawn : drawnPorts d t link owner t.ports with
  | error f => rfl
  | ok drawn =>
    have hnodes := sameFar_of_drawn h hdrawn
    have hbindings : drawn.filterMap (binding? d' t' link) = drawn.filterMap (binding? d t link) :=
      List.filterMap_congr fun port hport => binding?_congr (hnodes port hport).2
    simp only [bind, Except.bind, fill_congr h hnodes, hbindings]

/-! ## All links -/

theorem resolveAll_congr (h : SameReading t t' d d') {links : List Slot} (hlinks : links ⊆ t.links) :
    resolveAll c d' t' links = resolveAll c d t links := by
  induction links with
  | nil => rfl
  | cons i links ih =>
    obtain ⟨hi, hrest⟩ := List.cons_subset.mp hlinks
    refine fetch_bind_congr (h.link i hi) fun e e' _ hsame => ?_
    simp only [hsame.master, hsame.locator, hsame.label, resolve_congr h, ih hrest]

/-- **Port maps are the same in diagrams that agree on what they are read off.** -/
theorem build_congr_of_reading (h : SameReading t t' d d') :
    PortMaps.build c t' d' = PortMaps.build c t d := by
  rw [PortMaps.build, PortMaps.build, h.links, resolveAll_congr h (List.Subset.refl _)]

theorem rel_sign {o o' : Option Element} (h : Option.Rel SameDrawn o o') :
    Option.Rel SameSign o o' := by
  cases h with
  | none => exact .none
  | some hsame => exact .some hsame.sign

theorem SameView.reading (h : SameView t d d') (ht : SameParts t t') : SameReading t t' d d' where
  links := ht.links
  ports := ht.ports
  link i _ := rel_sign (h.elements i)
  port p _ := h.elements p
  node _ _ _ _ i _ := ⟨ht.isNode i, ht.interfaceOf? i, rel_sign (h.elements i), h.keys i⟩

/-- Port maps are the same in diagrams that agree on all elements. -/
theorem build_congr (h : SameView t d d') (ht : SameParts t t') :
    PortMaps.build c t' d' = PortMaps.build c t d :=
  build_congr_of_reading (h.reading ht)

end Netlist.PortMap
