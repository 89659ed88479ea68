import Netlist.Proofs.Edit.Runs
import Netlist.Topology.Buckets

/-!
# The parts of a network

Collecting a topology sorts the elements of a network by the part they play.
Here each part is described by what its members are, so that later arguments
never look at the sorting again.

- `isNode_iff_...`: what makes a slot a node of a collected topology.
- `Collected`: the parts of a topology before anything is numbered or removed.
- `collect_eq_ok`: what `collect` gives is `Collected`.
-/

namespace Netlist.Topology

variable {d : Diagram} {scope : Slot} {t : Topology} {i network : Slot}

/-- A node inside a network that passes a test on its subtype and whose nearest
interface is the given one, or that lies in the main network. -/
structure NodeIn (d : Diagram) (network : Slot) (home : Option Slot) (p : NodeKind → Bool)
    (i : Slot) : Prop where
  inside : i ∈ d.descendants network
  kind : (d.get? i).any (fun e => e.nodeKind?.any p) = true
  home : interfaceAround d i = .ok home

/-! ## The network of a scope -/

theorem container_eq_ok (h : container d scope = .ok network) :
    containers d scope = [network] := by
  rw [container] at h
  split at h
  · rename_i heq
    cases h
    exact heq
  · cases h
  · cases hf : d.fetch _ with
    | error e =>
      rw [hf] at h
      cases h
    | ok e =>
      rw [hf] at h
      cases h

theorem mem_containers : i ∈ containers d scope ↔
    (i = scope ∨ i ∈ d.descendants scope) ∧ ∃ e, d.get? i = some e ∧ e.role.isSubNetwork = true := by
  simp only [containers, List.mem_append, List.mem_filter, List.mem_singleton,
    Option.any_eq_true, or_and_right]

theorem mem_containers_of_container (h : container d scope = .ok network) :
    network ∈ containers d scope := by
  rw [container_eq_ok h]
  exact List.mem_singleton_self _

theorem exists_of_container (h : container d scope = .ok network) :
    ∃ e, d.get? network = some e ∧ e.role.isSubNetwork = true :=
  (mem_containers.mp (mem_containers_of_container h)).2

theorem nodup_descendants (d : Diagram) (container : Slot) : (d.descendants container).Nodup := by
  rw [Diagram.descendants]
  split
  · exact List.nodup_range.filter _
  · exact List.nodup_nil

/-! ## Roles -/

theorem mem_withRole {members : List Slot} {p : Role → Bool} :
    i ∈ withRole d members p ↔ i ∈ members ∧ ∃ e, d.get? i = some e ∧ p e.role = true := by
  rw [withRole, List.mem_filter, Option.any_eq_true]

theorem nodup_withRole {members : List Slot} (h : members.Nodup) (p : Role → Bool) :
    (withRole d members p).Nodup := h.filter _

/-! ## Homes -/

/-- Every node is paired with the nearest interface around it. -/
theorem homes_eq_ok {nodes : List Slot} {pairs : List (Slot × Option Slot)}
    (h : homes d nodes = .ok pairs) :
    pairs.map Prod.fst = nodes ∧ ∀ n home, (n, home) ∈ pairs → interfaceAround d n = .ok home := by
  induction nodes generalizing pairs with
  | nil =>
    cases h
    exact ⟨rfl, fun _ _ hmem => nomatch hmem⟩
  | cons n nodes ih =>
    rw [homes, bind_eq_ok] at h
    obtain ⟨home, hhome, h⟩ := h
    rw [bind_eq_ok] at h
    obtain ⟨rest, hrest, h⟩ := h
    cases h
    obtain ⟨hfst, hall⟩ := ih hrest
    refine ⟨by rw [List.map_cons, hfst], fun n' home' hmem => ?_⟩
    rcases List.mem_cons.mp hmem with heq | hmem
    · cases heq
      exact hhome
    · exact hall n' home' hmem

/-- A node among the pairs comes with its home. -/
theorem mem_homes {nodes : List Slot} {pairs : List (Slot × Option Slot)}
    (h : homes d nodes = .ok pairs) {home : Option Slot} :
    (i, home) ∈ pairs ↔ i ∈ nodes ∧ interfaceAround d i = .ok home := by
  obtain ⟨hfst, hall⟩ := homes_eq_ok h
  constructor
  · intro hmem
    exact ⟨hfst ▸ List.mem_map_of_mem hmem, hall i home hmem⟩
  · rintro ⟨hi, hhome⟩
    rw [← hfst, List.mem_map] at hi
    obtain ⟨⟨n, home'⟩, hmem, rfl⟩ := hi
    rw [hall n home' hmem] at hhome
    cases hhome
    exact hmem

theorem mem_mainNodes {pairs : List (Slot × Option Slot)} {p : NodeKind → Bool} :
    i ∈ mainNodes d pairs p ↔
      (i, none) ∈ pairs ∧ (d.get? i).any (fun e => e.nodeKind?.any p) = true := by
  rw [mainNodes, List.mem_filterMap]
  constructor
  · rintro ⟨⟨n, home⟩, hmem, h⟩
    simp only [Option.ite_none_right_eq_some, Bool.and_eq_true, Option.isNone_iff_eq_none,
      Option.some.injEq] at h
    obtain ⟨⟨rfl, hkind⟩, rfl⟩ := h
    exact ⟨hmem, hkind⟩
  · rintro ⟨hmem, hkind⟩
    exact ⟨(i, none), hmem, by simp [hkind]⟩

theorem mem_innerNodes {pairs : List (Slot × Option Slot)} {interface : Slot} :
    (i, interface) ∈ innerNodes pairs ↔ (i, some interface) ∈ pairs := by
  rw [innerNodes, List.mem_filterMap]
  constructor
  · rintro ⟨⟨n, home⟩, hmem, h⟩
    simp only [Option.map_eq_some_iff, Prod.mk.injEq] at h
    obtain ⟨_, rfl, rfl, rfl⟩ := h
    exact hmem
  · intro hmem
    exact ⟨(i, some interface), hmem, rfl⟩

/-- Main nodes come in the order of the pairs. -/
theorem mainNodes_sublist (d : Diagram) (pairs : List (Slot × Option Slot)) (p : NodeKind → Bool) :
    (mainNodes d pairs p).Sublist (pairs.map Prod.fst) := by
  induction pairs with
  | nil => exact List.Sublist.slnil
  | cons pair pairs ih =>
    obtain ⟨n, home⟩ := pair
    rw [mainNodes, List.filterMap_cons]
    split
    · exact ih.cons n
    · rename_i m hm
      simp only [Option.ite_none_right_eq_some, Option.some.injEq] at hm
      rw [← hm.2]
      exact ih.cons_cons n

theorem innerNodes_sublist (pairs : List (Slot × Option Slot)) :
    ((innerNodes pairs).map Prod.fst).Sublist (pairs.map Prod.fst) := by
  induction pairs with
  | nil => exact List.Sublist.slnil
  | cons pair pairs ih =>
    obtain ⟨n, home⟩ := pair
    rw [innerNodes, List.filterMap_cons]
    cases home with
    | none => exact ih.cons n
    | some interface => exact ih.cons_cons n

/-! ## A collected topology -/

/-- A topology whose parts are the elements of a network, in document order. -/
structure Collected (d : Diagram) (t : Topology) : Prop where
  nodes : ∀ i, i ∈ t.nodes ↔ NodeIn d t.network none NodeKind.isNumbered i
  references : ∀ i, i ∈ t.references ↔ NodeIn d t.network none (· == .reference) i
  grounds : ∀ i, i ∈ t.grounds ↔ NodeIn d t.network none (· == .ground) i
  copies : ∀ i interface, (i, interface) ∈ t.interfaceNodes ↔
    NodeIn d t.network (some interface) (fun _ => true) i
  links : t.links = withRole d (d.descendants t.network) Role.isLink
  spotters : t.spotters = withRole d (d.descendants t.network) Role.isSpotter
  interfaces : t.interfaces = withRole d (d.descendants t.network) Role.isInterface
  ports : t.ports = portsOf d (d.descendants t.network) t.links
  nodup_nodes : t.nodes.Nodup
  nodup_references : t.references.Nodup
  nodup_grounds : t.grounds.Nodup
  nodup_copies : (t.interfaceNodes.map Prod.fst).Nodup

theorem any_nodeKind?_isSome (p : NodeKind → Bool) {e : Element}
    (h : e.nodeKind?.any p = true) : e.role.nodeKind?.isSome = true := by
  obtain ⟨kind, hkind, -⟩ := Option.any_eq_true _ _ |>.mp h
  rw [show e.role.nodeKind? = some kind from hkind]
  rfl

/-- **What is collected are the parts of the network.** -/
theorem collect_eq_ok (h : collect d scope = .ok t) :
    container d scope = .ok t.network ∧ Collected d t := by
  rw [collect, bind_eq_ok] at h
  obtain ⟨network, hnetwork, h⟩ := h
  rw [bind_eq_ok] at h
  obtain ⟨pairs, hpairs, h⟩ := h
  cases h
  refine ⟨hnetwork, ?_⟩
  -- A node is in the main network if no interface is its home.
  have hmain : ∀ p : NodeKind → Bool, ∀ i,
      i ∈ mainNodes d pairs p ↔ NodeIn d network none p i := by
    intro p i
    rw [mem_mainNodes, mem_homes hpairs, mem_withRole]
    constructor
    · rintro ⟨⟨⟨hinside, -⟩, hhome⟩, hkind⟩
      exact ⟨hinside, hkind, hhome⟩
    · rintro ⟨hinside, hkind, hhome⟩
      obtain ⟨e, he, hp⟩ := Option.any_eq_true _ _ |>.mp hkind
      exact ⟨⟨⟨hinside, e, he, any_nodeKind?_isSome p hp⟩, hhome⟩, hkind⟩
  have hfst := (homes_eq_ok hpairs).1
  have hnodup : (pairs.map Prod.fst).Nodup := by
    rw [hfst]
    exact nodup_withRole (nodup_descendants d network) _
  exact {
    nodes := hmain _
    references := hmain _
    grounds := hmain _
    copies := by
      intro i interface
      rw [mem_innerNodes, mem_homes hpairs, mem_withRole]
      constructor
      · rintro ⟨⟨hinside, e, he, hkind⟩, hhome⟩
        refine ⟨hinside, ?_, hhome⟩
        rw [he, Option.any_some]
        obtain ⟨kind, hkind⟩ := Option.isSome_iff_exists.mp hkind
        rw [Element.nodeKind?, hkind, Option.any_some]
      · rintro ⟨hinside, hkind, hhome⟩
        obtain ⟨e, he, hp⟩ := Option.any_eq_true _ _ |>.mp hkind
        exact ⟨⟨hinside, e, he, any_nodeKind?_isSome _ hp⟩, hhome⟩
    links := rfl
    spotters := rfl
    interfaces := rfl
    ports := rfl
    nodup_nodes := hnodup.sublist (mainNodes_sublist d pairs _)
    nodup_references := hnodup.sublist (mainNodes_sublist d pairs _)
    nodup_grounds := hnodup.sublist (mainNodes_sublist d pairs _)
    nodup_copies := hnodup.sublist (innerNodes_sublist pairs) }

theorem nodeKind?_eq_some {e : Element} {kind : NodeKind} :
    e.nodeKind? = some kind ↔ e.role = .node kind := by
  rw [Element.nodeKind?]
  cases e.role <;> simp [Role.nodeKind?]

/-- A node has the role of a node. -/
theorem NodeIn.exists_kind {home : Option Slot} {p : NodeKind → Bool}
    (h : NodeIn d network home p i) :
    ∃ e kind, d.get? i = some e ∧ e.role = .node kind ∧ p kind = true := by
  obtain ⟨e, he, hkind⟩ := Option.any_eq_true _ _ |>.mp h.kind
  obtain ⟨kind, hkind, hp⟩ := Option.any_eq_true _ _ |>.mp hkind
  exact ⟨e, kind, he, nodeKind?_eq_some.mp hkind, hp⟩

/-- Two parts with different homes or subtypes share no node. -/
theorem NodeIn.home_unique {home home' : Option Slot} {p q : NodeKind → Bool}
    (h : NodeIn d network home p i) (h' : NodeIn d network home' q i) : home = home' := by
  have := h.home.symm.trans h'.home
  exact Except.ok.inj this

theorem NodeIn.kind_overlap {home home' : Option Slot} {p q : NodeKind → Bool}
    (h : NodeIn d network home p i) (h' : NodeIn d network home' q i) :
    ∃ kind, p kind = true ∧ q kind = true := by
  obtain ⟨e, kind, he, hrole, hp⟩ := h.exists_kind
  obtain ⟨e', kind', he', hrole', hq⟩ := h'.exists_kind
  rw [he] at he'
  cases he'
  rw [hrole] at hrole'
  cases hrole'
  exact ⟨kind, hp, hq⟩

end Netlist.Topology
