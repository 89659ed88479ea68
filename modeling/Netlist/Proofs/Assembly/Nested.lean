import Netlist.Proofs.Assembly.Matching
import Netlist.Proofs.Assembly.Renewal
import Netlist.Proofs.Compilation.Connections

/-!
# Nodes deep inside an interface

Extraction assigns a node to the nearest interface around it, however many plain elements
lie between the two. Stitching reads the nodes directly inside an interface. What it reads
at an interface of a refreshed instance are therefore copies of assigned nodes, but not of
those that lie deeper, nor of those whose copy was removed for the lack of an end.

- `assigned`, `visible`: the nodes of an interface, and those of them that can be read.
- `Stages.mem_interfaceNodes_of_child`: nodes directly inside an interface are assigned to it.
- `Stages.key_of_connection`: a connection is recorded with the key of an assigned node.
- `Reads`, `ReadAt`: what is read at the copy of an interface.
- `nodes_of_refresh`: **stitching reads the copies of the visible nodes, in order**, and so
  of all assigned nodes iff all are visible.
- `deep_key_unread`: a connection recorded with a key that is not read.
-/

namespace Netlist

variable {c : Catalog} {prune : Bool} {scope : Slot} {d d₁ d₂ d' : Diagram} {r : Compilation}
  {maps : PortMaps} {gone : List Slot} {i o interface : Slot}

namespace Compilation

open Netlist.Topology (mem_withRole)

/-! ## Assigned nodes -/

/-- The nodes assigned to the interfaces of a network are in document order. -/
theorem Stages.sorted_interfaceNodes (h : Stages c prune scope d d₁ d₂ d' r maps gone) :
    (r.topology.interfaceNodes.map Prod.fst).Pairwise (· < ·) := by
  obtain ⟨t₀, hcollect, -, -, hnarrows⟩ := Topology.extract_narrows h.extract
  rw [hnarrows.copies]
  exact (Topology.collect_inOrder hcollect).copies

/-- A node that is assigned to an interface is there after compiling, with its key. -/
theorem Stages.get?_of_assigned (h : Stages c prune scope d d₁ d₂ d' r maps gone)
    (ho : (o, interface) ∈ r.topology.interfaceNodes) : ∃ e, d₂.get? o = some e ∧
      d'.get? o = some e ∧ e.nodeKind?.isSome = true := by
  have hnode : r.topology.isNode o = true :=
    (Topology.isNode_iff h.extracts.nodup_copies).mpr (.inr (.inr (.inr ⟨_, ho⟩)))
  obtain ⟨e, kind, he, hrole⟩ := h.extracts.exists_role hnode
  obtain ⟨e₁, he₁, he₂, -⟩ := key_of_reconciled h.extracts h.reconciled hnode he
  obtain ⟨e₁', he₁', halike⟩ := h.extracts.get?_of_not_gone he (h.extracts.not_gone hnode)
  obtain rfl : e₁ = e₁' := Option.some.inj (he₁.symm.trans he₁')
  have hrole₁ : e₁.role = .node kind := halike.role.trans hrole
  refine ⟨e₁, he₂, (h.others o fun hmem => ?_).trans he₂, ?_⟩
  · obtain ⟨-, hinterface⟩ := Recording.interfaces_of_extracts h.extracts
    obtain ⟨e', he', hrole'⟩ := hinterface o hmem
    obtain rfl : e₁ = e' := Option.some.inj (he₁.symm.trans he')
    rw [hrole₁] at hrole'
    cases hrole'
  · rw [Element.nodeKind?, hrole₁]
    rfl

/-- **A node directly inside an interface is assigned to it.** -/
theorem Stages.mem_interfaceNodes_of_child (h : Stages c prune scope d d₁ d₂ d' r maps gone)
    (hvalid : d.validate = .ok ()) (hi : i ∈ r.topology.interfaces) {e : Element}
    (he : d'.get? o = some e) (hp : e.parent = some i) (hkind : e.nodeKind?.isSome = true) :
    (o, i) ∈ r.topology.interfaceNodes := by
  obtain ⟨x, hx, hsame⟩ := h.role (f := Role.nodeKind?) (fun _ role => by cases role <;> rfl) he
  have hparent : d.HasParent o i := h.hasParent ⟨e, he, hp⟩
  rw [h.extracts.interfaces, mem_withRole] at hi
  obtain ⟨hmem, y, hy, hrole⟩ := hi
  have hin := (Relation.TransGen.single hparent).trans (Diagram.mem_descendants.mp hmem).2.2
  refine (h.extracts.copies o i).mpr ⟨h.mem_network hvalid hin, ?_, ?_⟩
  · rw [hx, Option.any_some]
    obtain ⟨kind, hkind⟩ := Option.isSome_iff_exists.mp hkind
    rw [Element.nodeKind?, ← hsame, show e.role.nodeKind? = some kind from hkind]
    rfl
  · obtain ⟨home, hhome⟩ : ∃ home, Topology.interfaceAround d o = .ok home :=
      Diagram.exists_nearestAncestor (fun _ => Diagram.not_inside_self hvalid) o _
    rw [hhome]
    cases home with
    | none =>
      have hfails := (Diagram.nearestAncestor_eq_none_iff.mp hhome).2 i y (.parent hparent hy) hy
      rw [hrole] at hfails
      cases hfails
    | some found =>
      rw [(Diagram.nearestAncestor_eq_some hhome).unique (.hit hparent hy hrole)]

/-- **A connection is recorded with the key of an assigned node.** -/
theorem Stages.key_of_connection (h : Stages c prune scope d d₁ d₂ d' r maps gone)
    (hi : i ∈ r.topology.interfaces) {e : Element} {record : InterfaceRecord}
    (he : d'.get? i = some e) (hrecord : e.role.record? = some record) {connection : Connection}
    (hmem : connection ∈ record.connections) : ∃ o x, (o, i) ∈ r.topology.interfaceNodes ∧
      d'.get? o = some x ∧ x.key? = some connection.key := by
  obtain ⟨entry, -, y, found, hy, hfound, -, hget⟩ := forall₂_mem_left h.recorded hi
  obtain ⟨-, hinterface⟩ := Recording.interfaces_of_extracts h.extracts
  obtain ⟨z, hz, hrole⟩ := hinterface i hi
  obtain ⟨y', hy', hbare⟩ := h.reconciled.role hz
  obtain rfl : y = y' := Option.some.inj (hy.symm.trans hy')
  rw [← Element.role_of_bare hbare] at hrole
  obtain rfl := Option.some.inj (hget.symm.trans he)
  obtain rfl : ⟨r.topology.nodeCount, found⟩ = record :=
    Option.some.inj ((Role.record?_setRecord _ hrole).symm.trans hrecord)
  obtain ⟨b, hb, hconnection⟩ := Recording.mem_connections hfound hmem
  rw [Recording.bindingsOf, List.mem_filter, beq_iff_eq] at hb
  obtain ⟨hb, rfl⟩ := hb
  obtain ⟨-, hbinds⟩ := (PortMap.build_eq_ok h.build).2.2 b hb
  have hassigned := (Topology.interfaceOf?_eq_some h.extracts.nodup_copies).mp hbinds.interface
  obtain ⟨x, hx, hx', -⟩ := h.get?_of_assigned hassigned
  refine ⟨b.node, x, hassigned, hx', ?_⟩
  rw [Recording.connection?, bind_eq_ok] at hconnection
  obtain ⟨x', hfetch, hconnection⟩ := hconnection
  obtain rfl : x = x' := Option.some.inj (hx.symm.trans (Diagram.fetch_eq_ok.mp hfetch))
  cases hkey : x.key? with
  | none =>
    rw [hkey] at hconnection
    cases hconnection
  | some key =>
    rw [hkey] at hconnection
    obtain ⟨owner, -, hconnection⟩ := bind_eq_ok.mp hconnection
    cases hconnection
    rfl

end Compilation

namespace Assembly

variable {m : Import} {s p j k : Slot} {offset : Nat} {catalog : Catalog} {switches : Switches}
  {shelf : Shelf} {naming : Naming} {name : String} {done : Refreshed} {e : Element}

/-- The nodes that extraction assigns to an interface, in document order. -/
def assigned (t : Topology) (interface : Slot) : List Slot :=
  (t.interfaceNodes.filter fun p => p.2 == interface).map Prod.fst

theorem mem_assigned {t : Topology} : o ∈ assigned t interface ↔ (o, interface) ∈ t.interfaceNodes := by
  rw [assigned, List.mem_map]
  constructor
  · rintro ⟨⟨o, i⟩, hmem, rfl⟩
    rw [List.mem_filter, beq_iff_eq] at hmem
    obtain ⟨hmem, rfl⟩ := hmem
    exact hmem
  · exact fun hmem => ⟨_, List.mem_filter.mpr ⟨hmem, beq_self_eq_true _⟩, rfl⟩

/-- Whether a node of a drawing can be read at the copy of an interface: it is directly
inside the interface, and it has no end that is not copied. -/
def visible (m : Import) (interface o : Slot) : Bool :=
  (m.diagram.get? o).any fun e => e.parent == some interface && !isBroken m.copies e

theorem visible_iff : visible m interface o = true ↔ ∃ drawn, m.diagram.get? o = some drawn ∧
    drawn.parent = some interface ∧ ¬ Broken m o := by
  rw [visible, Option.any_eq_true]
  refine exists_congr fun drawn => and_congr_right fun hdrawn => ?_
  rw [broken_iff hdrawn, Bool.and_eq_true, beq_iff_eq, Bool.not_eq_true', Bool.not_eq_true]

/-- A node that is read is the copy of one of the drawing: it has its key and subtype, and
its label moved. -/
def Reads (m : Import) (offset : Nat) (o : Slot) (n : Slot × Element) : Prop :=
  (o, n.1) ∈ m.copies ∧ ∃ drawn, m.diagram.get? o = some drawn ∧ n.2.role = drawn.role ∧
    n.2.key? = drawn.key? ∧ n.2.label = (shift (Word.signed offset) drawn).label

/-- What stitching reads at the copy `c` of the interface `i`, against what extraction
assigned to `i`. -/
structure ReadAt (m : Import) (offset : Nat) (d : Diagram) (i c : Slot) : Prop where
  /-- The copies of the visible nodes are read, in order. -/
  read : List.Forall₂ (Reads m offset)
    ((assigned m.compiled.topology i).filter (visible m i)) (nodesOf d c)
  /-- The copies of all nodes are read iff all are visible. -/
  agree : List.Forall₂ (Reads m offset) (assigned m.compiled.topology i) (nodesOf d c) ↔
    ∀ o ∈ assigned m.compiled.topology i, visible m i o = true
  /-- Connections are recorded with keys of nodes that were assigned. -/
  recorded : ∀ connection ∈ recordedAt d c, ∃ o ∈ assigned m.compiled.topology i,
    (m.diagram.get? o).bind Element.key? = some connection.key
  /-- A key is read iff a visible node has it. -/
  keys : ∀ subnet key, key ∈ (Side.mk c subnet (nodesOf d c)).keys ↔
    ∃ o ∈ assigned m.compiled.topology i, visible m i o = true ∧
      (m.diagram.get? o).bind Element.key? = some key

/-! ## Lists in order -/

/-- **Two lists in order are related side by side**, if each item of either is related to one
of the other, and the relation respects the order. -/
theorem forall₂_of_sorted {β : Type} {R : Slot → β → Prop} {f : β → Slot} {as : List Slot}
    {bs : List β} (has : as.Pairwise (· < ·)) (hbs : (bs.map f).Pairwise (· < ·))
    (hforth : ∀ a ∈ as, ∃ b ∈ bs, R a b) (hback : ∀ b ∈ bs, ∃ a ∈ as, R a b)
    (hlt : ∀ {a b a' b'}, R a b → R a' b' → a < a' → f b < f b')
    (hunique : ∀ {a b b'}, R a b → R a b' → f b = f b') : List.Forall₂ R as bs := by
  induction as generalizing bs with
  | nil =>
    cases bs with
    | nil => exact .nil
    | cons b bs =>
      obtain ⟨a, ha, -⟩ := hback b List.mem_cons_self
      cases ha
  | cons a as ih =>
    cases bs with
    | nil =>
      obtain ⟨b, hb, -⟩ := hforth a List.mem_cons_self
      cases hb
    | cons b bs =>
      obtain ⟨ha, has⟩ := List.pairwise_cons.mp has
      rw [List.map_cons, List.pairwise_cons] at hbs
      obtain ⟨hb, hbs⟩ := hbs
      have hfirst : ∀ b' ∈ bs, f b < f b' := fun b' hb' => hb _ (List.mem_map_of_mem hb')
      -- The first items are related: if both were related to later ones, these would cross.
      have hhead : R a b := by
        obtain ⟨b', hb', hab'⟩ := hforth a List.mem_cons_self
        obtain ⟨a', ha', ha'b⟩ := hback b List.mem_cons_self
        rcases List.mem_cons.mp hb' with rfl | hb'
        · exact hab'
        rcases List.mem_cons.mp ha' with rfl | ha'
        · exact ha'b
        exact absurd (hlt hab' ha'b (ha a' ha')) (Nat.lt_asymm (hfirst b' hb'))
      refine .cons hhead (ih has hbs (fun a' ha' => ?_) fun b' hb' => ?_)
      · obtain ⟨b', hb', hrel⟩ := hforth a' (List.mem_cons_of_mem a ha')
        rcases List.mem_cons.mp hb' with rfl | hb'
        · exact absurd (hlt hhead hrel (ha a' ha')) (Nat.lt_irrefl _)
        · exact ⟨b', hb', hrel⟩
      · obtain ⟨a', ha', hrel⟩ := hback b' (List.mem_cons_of_mem b hb')
        rcases List.mem_cons.mp ha' with rfl | ha'
        · exact absurd (hunique hhead hrel) (Nat.ne_of_lt (hfirst b' hb'))
        · exact ⟨a', ha', hrel⟩

theorem sorted_nodesOf (d : Diagram) (c : Slot) :
    ((nodesOf d c).map Prod.fst).Pairwise (· < ·) := by
  rw [List.pairwise_map]
  refine (Diagram.sorted_children d c).filterMap _ fun j k hlt n hn n' hn' => ?_
  obtain ⟨e, -, rfl⟩ := Option.map_eq_some_iff.mp hn
  obtain ⟨e', -, rfl⟩ := Option.map_eq_some_iff.mp hn'
  exact hlt

theorem Made.unique_original (h : Made catalog switches shelf name d m) {c : Slot}
    (hmem : (o, c) ∈ m.copies) (hmem' : (p, c) ∈ m.copies) : o = p :=
  congrArg Prod.fst (List.inj_on_of_nodup_map h.nodup.2 hmem hmem' rfl)

/-- **Copies are in the order of their originals.** -/
theorem Made.lt_of_lt (h : Made catalog switches shelf name d m) (hj : (o, j) ∈ m.copies)
    (hk : (p, k) ∈ m.copies) (hlt : o < p) : j < k := by
  have hfst : (m.copies.map Prod.fst).Pairwise (· < ·) := by
    rw [h.originals]
    exact List.pairwise_lt_range.filter _
  have hsnd : (m.copies.map Prod.snd).Pairwise (· < ·) := by
    rw [h.slots]
    exact List.pairwise_lt_range'
  rw [List.pairwise_map, List.pairwise_iff_getElem] at hfst hsnd
  obtain ⟨a, ha, hat⟩ := List.getElem_of_mem hj
  obtain ⟨b, hb, hbt⟩ := List.getElem_of_mem hk
  rcases Nat.lt_trichotomy a b with hab | rfl | hab
  · have hslots := hsnd a b ha hb hab
    rwa [hat, hbt] at hslots
  · rw [hat] at hbt
    cases hbt
    exact absurd hlt (Nat.lt_irrefl _)
  · have hback := hfst b a hb ha hab
    rw [hat, hbt] at hback
    exact absurd hlt (Nat.lt_asymm hback)

/-- **What is directly inside a copied interface is copied.** -/
theorem Made.exists_copy_of_child (h : Made catalog switches shelf name d m) {c : Slot} {drawn : Element}
    (hi : i ∈ m.compiled.topology.interfaces) (hmem : (i, c) ∈ m.copies)
    (ho : m.diagram.get? o = some drawn) (hp : drawn.parent = some i) : ∃ j, (o, j) ∈ m.copies := by
  have hvalid := Compilation.compile_validates h.compiles
  obtain ⟨_, _, _, _, hstages⟩ := Compilation.compile_runs h.compiles
  have hcopied : i ∈ members m.diagram m.compiled.topology
      (distinct m.diagram m.compiled.topology.interfaces) := by
    rw [← h.originals]
    exact List.mem_map_of_mem (f := Prod.fst) hmem
  have hchild : m.diagram.Inside o i := .single ⟨drawn, ho, hp⟩
  suffices hwanted : o ∈ members m.diagram m.compiled.topology
      (distinct m.diagram m.compiled.topology.interfaces) by
    rw [← h.originals] at hwanted
    obtain ⟨⟨_, j⟩, hj, rfl⟩ := List.mem_map.mp hwanted
    exact ⟨j, hj⟩
  have hfull : m.compiled.topology.interfaces.isEmpty = false := by
    rw [← Bool.not_eq_true, List.isEmpty_iff]
    exact List.ne_nil_of_mem hi
  have hbelow : ∀ {a}, (∃ x, m.diagram.get? a = some x) → m.diagram.Inside o a →
      o ∈ m.diagram.descendants a := by
    intro a hlive hin
    refine Diagram.mem_descendants.mpr ⟨hlive, ?_, hin⟩
    rintro rfl
    exact Diagram.not_inside_self hvalid (hstages.inside hin)
  rw [members, List.mem_filter, List.contains_iff_mem, if_neg (by rw [hfull]; exact Bool.false_ne_true)]
    at hcopied ⊢
  refine ⟨List.mem_range.mpr (Diagram.lt_bound_of_get? ho), ?_⟩
  obtain ⟨first, hfirst, hcopied⟩ := List.mem_flatMap.mp hcopied.2
  refine List.mem_flatMap.mpr ⟨first, hfirst, List.mem_cons_of_mem _ ?_⟩
  -- The interface is copied as one of the first or as a part of one, and so is its content.
  rcases List.mem_cons.mp hcopied with rfl | hin
  · exact hbelow (h.drawn i c hmem) hchild
  · obtain ⟨hlive, -, hin⟩ := Diagram.mem_descendants.mp hin
    exact hbelow hlive (hchild.trans hin)

/-! ## What is read -/

section

variable {c : Slot} (hmade : Made catalog switches shelf name d m) (hleaves : Leaves m s offset d')

include hmade hleaves

/-- What is copied to an interface is one of the interfaces of the network. -/
theorem original_of_interface (hmem : (i, c) ∈ m.copies) (hc : isInterface d' c = true) :
    i ∈ m.compiled.topology.interfaces ∧ ∃ drawn e, m.diagram.get? i = some drawn ∧
      d'.get? c = some e ∧ e.role.isInterface = true ∧ e.role = drawn.role := by
  obtain ⟨e, he, hrole⟩ := Option.any_eq_true _ _ |>.mp hc
  have hwhole : ¬ Broken m i := fun hbroken => by
    rw [hleaves.gone i c hmem hbroken] at he
    cases he
  obtain ⟨drawn, e', _, hdrawn, he', hcopy, -⟩ := hleaves.left i c hmem hwhole
  obtain rfl : e = e' := Option.some.inj (he.symm.trans he')
  obtain ⟨_, _, _, _, hstages⟩ := Compilation.compile_runs hmade.compiles
  have hcopied := List.mem_map_of_mem (f := Prod.fst) hmem
  rw [hmade.originals] at hcopied
  have hmember := hstages.of_member (Compilation.compile_validates hmade.compiles) hcopied hdrawn
  exact ⟨hmember.2.1 (hcopy.role ▸ hrole), drawn, e, hdrawn, he, hrole, hcopy.role⟩

/-- **What is read is the copy of a visible node.** -/
theorem exists_visible (hspared : Spared m s d d') (hissued : d.Issued) (hs : s < d.bound)
    (hmem : (i, c) ∈ m.copies) (hc : isInterface d' c = true) {n : Slot × Element}
    (hn : n ∈ nodesOf d' c) :
    ∃ o ∈ assigned m.compiled.topology i, visible m i o = true ∧ Reads m offset o n := by
  obtain ⟨he, hp, -, hkind⟩ := mem_nodesOf.mp hn
  have hbound := hmade.le_of_mem hmem
  have hnew : d.bound ≤ n.1 := by
    by_contra hold
    have hparent := (hspared.turn hmade hleaves).parents n.1 (Nat.lt_of_not_le hold) c ⟨_, he, hp⟩
    exact absurd (hissued n.1 c hparent) (Nat.not_lt.mpr hbound)
  obtain ⟨o, ho⟩ := hspared.exists_copy hmade hnew he
  have hwhole : ¬ Broken m o := fun hbroken => by
    rw [hleaves.gone o n.1 ho hbroken] at he
    cases he
  obtain ⟨drawn, e', _, hdrawn, he', hcopy, -⟩ := hleaves.left o n.1 ho hwhole
  obtain rfl := Option.some.inj (he.symm.trans he')
  have hup : drawn.parent = some i := by
    obtain ⟨heq, -⟩ | ⟨i', hup, hi'⟩ := hcopy.parent_cases hp
    · exact absurd (heq ▸ hs) (Nat.not_lt.mpr hbound)
    · rw [hup, hmade.unique_original hi' hmem]
  obtain ⟨_, _, _, _, hstages⟩ := Compilation.compile_runs hmade.compiles
  have hvalid := Compilation.compile_validates hmade.compiles
  obtain ⟨hi, -⟩ := original_of_interface hmade hleaves hmem hc
  have hnode : drawn.nodeKind?.isSome = true := by
    rw [Element.nodeKind?, ← hcopy.role]
    exact hkind
  refine ⟨o, mem_assigned.mpr (hstages.mem_interfaceNodes_of_child hvalid hi hdrawn hup hnode),
    visible_iff.mpr ⟨drawn, hdrawn, hup, hwhole⟩, ho, drawn, hdrawn, hcopy.role, ?_, hcopy.label⟩
  rw [Element.key?, Element.key?, hcopy.fields]

/-- **The copy of a visible node is read.** -/
theorem exists_read (hmem : (i, c) ∈ m.copies) (hc : isInterface d' c = true)
    (ho : o ∈ assigned m.compiled.topology i) (hvisible : visible m i o = true) :
    ∃ n ∈ nodesOf d' c, Reads m offset o n := by
  obtain ⟨drawn, hdrawn, hup, hwhole⟩ := visible_iff.mp hvisible
  obtain ⟨hi, -, x, -, hx, hinterface, -⟩ := original_of_interface hmade hleaves hmem hc
  obtain ⟨j, hj⟩ := hmade.exists_copy_of_child hi hmem hdrawn hup
  obtain ⟨drawn', e, _, hdrawn', he, hcopy, -⟩ := hleaves.left o j hj hwhole
  obtain rfl : drawn = drawn' := Option.some.inj (hdrawn.symm.trans hdrawn')
  obtain ⟨_, _, _, _, hstages⟩ := Compilation.compile_runs hmade.compiles
  obtain ⟨y, -, hy, hnode⟩ := hstages.get?_of_assigned (mem_assigned.mp ho)
  obtain rfl : drawn = y := Option.some.inj (hdrawn.symm.trans hy)
  have hkind : e.nodeKind?.isSome = true := by
    rw [Element.nodeKind?, hcopy.role]
    exact hnode
  have hparent : e.parent = some c := by
    rw [hcopy.parent, parentAmong, hup, copyOf?_of_mem hmade.nodup.1 hmem]
    rfl
  have hne : j ≠ c := by
    rintro rfl
    obtain rfl : e = x := Option.some.inj (he.symm.trans hx)
    rw [Element.nodeKind?, Role.nodeKind?_of_isInterface hinterface] at hkind
    cases hkind
  refine ⟨(j, e), mem_nodesOf.mpr ⟨he, hparent, hne, hkind⟩, hj, drawn, hdrawn, hcopy.role, ?_,
    hcopy.label⟩
  rw [Element.key?, Element.key?, hcopy.fields]

/-- **The copies of the visible nodes are read, in order.** -/
theorem forall₂_reads (hspared : Spared m s d d') (hissued : d.Issued) (hs : s < d.bound)
    (hmem : (i, c) ∈ m.copies) (hc : isInterface d' c = true) :
    List.Forall₂ (Reads m offset) ((assigned m.compiled.topology i).filter (visible m i))
      (nodesOf d' c) := by
  obtain ⟨_, _, _, _, hstages⟩ := Compilation.compile_runs hmade.compiles
  have hsorted : ((assigned m.compiled.topology i).filter (visible m i)).Pairwise (· < ·) :=
    (hstages.sorted_interfaceNodes.sublist (List.filter_sublist.map Prod.fst)).filter _
  refine forall₂_of_sorted hsorted (sorted_nodesOf d' c) (fun o ho => ?_) (fun n hn => ?_)
    (fun ho hp hlt => hmade.lt_of_lt ho.1 hp.1 hlt) fun ho hp => ?_
  · obtain ⟨ho, hvisible⟩ := List.mem_filter.mp ho
    exact exists_read hmade hleaves hmem hc ho hvisible
  · obtain ⟨o, ho, hvisible, hreads⟩ := exists_visible hmade hleaves hspared hissued hs hmem hc hn
    exact ⟨o, List.mem_filter.mpr ⟨ho, hvisible⟩, hreads⟩
  · exact congrArg Prod.snd (List.inj_on_of_nodup_map hmade.nodup.1 ho.1 hp.1 rfl)

/-- What is read at the copy of an interface. -/
theorem readAt_copy (hspared : Spared m s d d') (hissued : d.Issued) (hs : s < d.bound)
    (hmem : (i, c) ∈ m.copies) (hc : isInterface d' c = true) : ReadAt m offset d' i c := by
  have hread := forall₂_reads hmade hleaves hspared hissued hs hmem hc
  refine ⟨hread, ⟨fun hall => ?_, fun hall => ?_⟩, fun connection hconnection => ?_,
    fun subnet key => ?_⟩
  · exact List.length_filter_eq_length_iff.mp (hread.length_eq.trans hall.length_eq.symm)
  · rwa [List.filter_eq_self.mpr hall] at hread
  · obtain ⟨hi, drawn, e, hdrawn, he, -, hrole⟩ := original_of_interface hmade hleaves hmem hc
    obtain ⟨_, _, _, _, hstages⟩ := Compilation.compile_runs hmade.compiles
    rw [recordedAt, he, Option.bind_some, hrole] at hconnection
    cases hrecord : drawn.role.record? with
    | none =>
      rw [hrecord] at hconnection
      cases hconnection
    | some record =>
      rw [hrecord] at hconnection
      obtain ⟨o, x, ho, hx, hkey⟩ := hstages.key_of_connection hi hdrawn hrecord hconnection
      exact ⟨o, mem_assigned.mpr ho, by rw [hx, Option.bind_some, hkey]⟩
  · rw [Side.keys, List.mem_eraseDups, List.mem_mergeSort, List.mem_filterMap]
    constructor
    · rintro ⟨n, hn, hkey⟩
      obtain ⟨o, ho, -, drawn, hdrawn, -, hsame, -⟩ := forall₂_mem_right hread hn
      obtain ⟨ho, hvisible⟩ := List.mem_filter.mp ho
      exact ⟨o, ho, hvisible, by rw [hdrawn, Option.bind_some, ← hsame, hkey]⟩
    · rintro ⟨o, ho, hvisible, hkey⟩
      obtain ⟨n, hn, -, drawn, hdrawn, -, hsame, -⟩ :=
        forall₂_mem_left hread (List.mem_filter.mpr ⟨ho, hvisible⟩)
      rw [hdrawn, Option.bind_some, ← hsame] at hkey
      exact ⟨n, hn, hkey⟩

end

/-- **Stitching reads the copies of the visible nodes of an interface**, in order, with their
keys and subtypes and their labels moved. These are all nodes that extraction assigned to the
interface iff each of them is directly inside of it and has no end that is not copied. A
connection is recorded with the key of an assigned node, and its key is read iff a visible
node has it. -/
theorem nodes_of_refresh {visit : List (Slot × Slot) → List (Slot × Slot)}
    (hvisit : ∀ copies, (visit copies).Perm copies) (hrooted : d.Rooted) (hissued : d.Issued)
    (hloop : ¬ d.Inside s s)
    (h : Edit.Runs (refreshVisiting visit catalog switches shelf naming s name offset) d done d') :
    ∃ m, Made catalog switches shelf name d m ∧
      ∀ i c, (i, c) ∈ m.copies → isInterface d' c = true → ReadAt m offset d' i c := by
  obtain ⟨m, -, hmade, -, hleaves, hspared⟩ := spared_of_refresh hvisit hrooted hissued hloop h
  obtain ⟨e, _, _, _, _, he, -⟩ := refreshVisiting_runs_iff.mp h
  exact ⟨m, hmade, fun i c hmem hc => readAt_copy hmade hleaves hspared hissued
    (Diagram.lt_bound_of_get? he) hmem hc⟩

/-- A house with two keyed nodes in an interface, of which the tapped one is in a group. -/
def deepHouse : Diagram :=
  diagramOf
    [{ id := "root", role := .root },
      { id := "net", role := .network .sub, parent := some 0 },
      { id := "a", role := .node .basic, label := "0", parent := some 1 },
      { id := "b", role := .node .basic, label := "1", parent := some 1 },
      { id := "v", role := .link ⟨"Valve", none⟩, label := "V1", parent := some 1 },
      { id := "i", role := .interface ⟨none, none⟩, label := "inlet", parent := some 1 },
      { id := "j", role := .node .basic, label := "0", parent := some 5,
        fields := Fields.ofList [(Element.keyField, "out")] },
      { id := "g", role := .plain, parent := some 5 },
      { id := "k", role := .node .basic, label := "1", parent := some 7,
        fields := Fields.ofList [(Element.keyField, "in")] },
      { id := "p", role := .port, label := "0", parent := some 1, source := some 4, target := some 2 },
      { id := "q", role := .port, label := "1", parent := some 1, source := some 4, target := some 8 }]

/-- Refreshes the instance of the yard from the deep house. -/
def refreshDeep (visit : List (Slot × Slot) → List (Slot × Slot)) : Edit Failure Refreshed :=
  refreshVisiting visit Recording.valves {} (fun _ => .ok (some ⟨deepHouse, ""⟩))
    (fun slot => toString slot) 2 "house" 0

/-- What is read of the interface in slot `3` of the refreshed yard: the keys under which
connections are recorded, and those of the nodes. -/
def readDeep (o : Outcome Failure Refreshed) : Option (List String × List String) :=
  if o.result.isOk && isInterface o.diagram 3 then
    some ((recordedAt o.diagram 3).map Connection.key,
      (Side.mk 3 2 (nodesOf o.diagram 3)).keys)
  else none

theorem exists_runs_of_readDeep {m : Edit Failure Refreshed} {recorded keys : List String}
    (h : readDeep (m.run yard) = some (recorded, keys)) : ∃ done d', Edit.Runs m yard done d' ∧
      isInterface d' 3 = true ∧ (recordedAt d' 3).map Connection.key = recorded ∧
      (Side.mk 3 2 (nodesOf d' 3)).keys = keys := by
  rw [readDeep] at h
  split at h
  · rename_i hok
    rw [Bool.and_eq_true] at hok
    obtain ⟨hok, hinterface⟩ := hok
    cases hresult : (m.run yard).result with
    | error f =>
      rw [hresult] at hok
      cases hok
    | ok done =>
      obtain ⟨hrecorded, hkeys⟩ := Prod.mk.inj (Option.some.inj h)
      exact ⟨done, _, ⟨hresult, rfl⟩, hinterface, hrecorded, hkeys⟩
  · cases h

/-- The node outside the group is read. -/
theorem nodes_of_refresh_yard : ∃ m done d', Edit.Runs (refreshDeep List.reverse) yard done d' ∧
    isInterface d' 3 = true ∧ (Side.mk 3 2 (nodesOf d' 3)).keys = ["out"] ∧
    ∀ i c, (i, c) ∈ m.copies → isInterface d' c = true → ReadAt m 0 d' i c := by
  have hpristine : yard.Pristine := by decide
  have hread : readDeep ((refreshDeep List.reverse).run yard) = some (["in"], ["out"]) := by cbv
  obtain ⟨done, d', hruns, hinterface, -, hkeys⟩ := exists_runs_of_readDeep hread
  obtain ⟨m, -, hall⟩ := nodes_of_refresh (fun copies => copies.reverse_perm) hpristine.rooted
    hpristine.issued (Diagram.not_inside_self (by cbv)) hruns
  exact ⟨m, done, d', hruns, hinterface, hkeys, hall⟩

/-- **A connection can be recorded with a key that is not read**: the tapped node is in a
group inside the interface. -/
theorem deep_key_unread : ¬ ∀ (catalog : Catalog) (switches : Switches) (shelf : Shelf)
    (naming : Naming) (s : Slot) (name : String) (offset : Nat) (d d' : Diagram)
    (done : Refreshed), d.Pristine → ¬ d.Inside s s →
      Edit.Runs (refreshVisiting id catalog switches shelf naming s name offset) d done d' →
      ∀ c, d.bound ≤ c → isInterface d' c = true → ∀ connection ∈ recordedAt d' c,
        ∀ subnet, connection.key ∈ (Side.mk c subnet (nodesOf d' c)).keys := by
  intro hall
  have hread : readDeep ((refreshDeep id).run yard) = some (["in"], ["out"]) := by cbv
  obtain ⟨done, d', hruns, hinterface, hrecorded, hkeys⟩ := exists_runs_of_readDeep hread
  obtain ⟨connection, hmem, hkey⟩ : ∃ connection ∈ recordedAt d' 3, connection.key = "in" := by
    rw [← List.mem_map, hrecorded]
    exact List.mem_singleton_self _
  have hseen := hall _ _ _ _ _ _ _ yard d' done (by decide) (Diagram.not_inside_self (by cbv)) hruns
    3 (by decide) hinterface connection hmem 2
  rw [hkeys, hkey] at hseen
  revert hseen
  decide

end Assembly

end Netlist
