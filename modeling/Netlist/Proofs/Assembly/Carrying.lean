import Mathlib.Data.List.Sort
import Netlist.Proofs.Assembly.Findings

/-!
# Content in other slots

When the content of an instance is made anew, it gets new slots. Whatever is read
off it is the same as long as the new elements are as the old ones were and stand in
the same order. Super-ports are left out of this: they come and go with every
stitching.

- `proper?`, `BarePorts`: the elements that are no super-ports.
- `Carries`: a diagram with what another one has, in other slots; `Carries.trans`.
- `Carries.children`, `Carries.signature`: the children of an interface are carried in
  order, and its signature does not change.
- `Carries.nodesOf`: **the nodes of an interface are read in the same order.**
-/

namespace Netlist

open Assembly (isInterface nodesOf signature memberSign? MemberSign)

/-! ## Elements that are no super-ports -/

namespace Diagram

variable {d : Diagram} {i : Slot} {e : Element}

/-- The element in a slot, unless it is a super-port. -/
def proper? (d : Diagram) (i : Slot) : Option Element :=
  (d.get? i).filter fun e => !e.role.isSuperPort

theorem proper?_eq_some : d.proper? i = some e ↔ d.get? i = some e ∧ e.role.isSuperPort = false := by
  rw [proper?, Option.filter_eq_some_iff, Bool.not_eq_true']

theorem lt_bound_of_proper? (h : d.proper? i = some e) : i < d.bound :=
  lt_bound_of_get? (proper?_eq_some.mp h).1

/-- Nothing is in a super-port. -/
def BarePorts (d : Diagram) : Prop :=
  ∀ i p e, d.HasParent i p → d.get? p = some e → e.role.isSuperPort = false

end Diagram

namespace Assembly

variable {f g : Slot → Slot} {d d₁ d' : Diagram} {a i j p : Slot} {e e' : Element}

theorem isInterface_iff_proper? :
    isInterface d a = true ↔ ∃ e, d.proper? a = some e ∧ e.role.isInterface = true := by
  rw [isInterface, Option.any_eq_true]
  constructor
  · rintro ⟨e, he, hrole⟩
    exact ⟨e, Diagram.proper?_eq_some.mpr ⟨he, Role.isSuperPort_of_isInterface hrole⟩, hrole⟩
  · rintro ⟨e, he, hrole⟩
    exact ⟨e, (Diagram.proper?_eq_some.mp he).1, hrole⟩

/-! ## Carrying -/

/-- An element that is as another one, with its parent in another slot, but for its
identity, its span, its ends and the mark of a duplicate. -/
structure Like (f : Slot → Slot) (e e' : Element) : Prop where
  role : e'.role.unmarked = e.role.unmarked
  label : e'.label = e.label
  fields : e'.fields = e.fields
  parent : e'.parent = e.parent.map f

/-- The diagram `d'` has in the slot `f i` what `d` has in the slot `i`. What is directly
inside an element is in the same order, and nothing is added to it. -/
structure Carries (f : Slot → Slot) (d d' : Diagram) : Prop where
  bound : ∀ i < d.bound, f i < d'.bound
  injective : ∀ i < d.bound, ∀ j < d.bound, f i = f j → i = j
  element : ∀ i e, d.proper? i = some e → ∃ e', d'.proper? (f i) = some e' ∧ Like f e e'
  child : ∀ a j e', a < d.bound → d'.proper? j = some e' → e'.parent = some (f a) →
    ∃ i e, d.proper? i = some e ∧ e.parent = some a ∧ f i = j
  ordered : ∀ i j e e' p, d.proper? i = some e → d.proper? j = some e' → e.parent = some p →
    e'.parent = some p → i < j → f i < f j

theorem Like.trans {e'' : Element} (h : Like f e e') (h' : Like g e' e'') : Like (g ∘ f) e e'' where
  role := h'.role.trans h.role
  label := h'.label.trans h.label
  fields := h'.fields.trans h.fields
  parent := by rw [h'.parent, h.parent, Option.map_map]

theorem Carries.trans (h : Carries f d d₁) (h' : Carries g d₁ d') : Carries (g ∘ f) d d' where
  bound := fun i hi => h'.bound _ (h.bound i hi)
  injective := fun i hi j hj heq =>
    h.injective i hi j hj (h'.injective _ (h.bound i hi) _ (h.bound j hj) heq)
  element := by
    intro i e he
    obtain ⟨e₁, he₁, hlike⟩ := h.element i e he
    obtain ⟨e', he', hlike'⟩ := h'.element _ e₁ he₁
    exact ⟨e', he', hlike.trans hlike'⟩
  child := by
    intro a j e' ha he' hparent
    obtain ⟨j₁, e₁, he₁, hparent₁, rfl⟩ := h'.child (f a) j e' (h.bound a ha) he' hparent
    obtain ⟨i, e, he, hparent, rfl⟩ := h.child a j₁ e₁ ha he₁ hparent₁
    exact ⟨i, e, he, hparent, rfl⟩
  ordered := by
    intro i j e e' p he he' hp hp' hlt
    obtain ⟨e₁, he₁, hlike⟩ := h.element i e he
    obtain ⟨e₁', he₁', hlike'⟩ := h.element j e' he'
    refine h'.ordered _ _ e₁ e₁' (f p) he₁ he₁' ?_ ?_ (h.ordered i j e e' p he he' hp hp' hlt)
    · rw [hlike.parent, hp, Option.map_some]
    · rw [hlike'.parent, hp', Option.map_some]

/-- A diagram that has the same elements but for super-ports, ends and identities. -/
theorem Carries.of_same (hbound : ∀ i < d.bound, i < d'.bound)
    (helement : ∀ i e, d.proper? i = some e → ∃ e', d'.proper? i = some e' ∧ Like id e e')
    (hback : ∀ i e', d'.proper? i = some e' → ∃ e, d.proper? i = some e) : Carries id d d' where
  bound := hbound
  injective := fun _ _ _ _ heq => heq
  element := helement
  child := by
    intro a j e' _ he' hparent
    obtain ⟨e, he⟩ := hback j e' he'
    obtain ⟨e'', he'', hlike⟩ := helement j e he
    rw [he'] at he''
    cases he''
    refine ⟨j, e, he, ?_, rfl⟩
    rw [hlike.parent, Option.map_id, id] at hparent
    exact hparent
  ordered := fun _ _ _ _ _ _ _ _ _ hlt => hlt

/-! ## What is read off -/

theorem Carries.isInterface (h : Carries f d d') (ha : isInterface d a = true) :
    Assembly.isInterface d' (f a) = true := by
  obtain ⟨e, he, hrole⟩ := isInterface_iff_proper?.mp ha
  obtain ⟨e', he', hlike⟩ := h.element a e he
  refine isInterface_iff_proper?.mpr ⟨e', he', ?_⟩
  rw [Role.congr_of_unmarked Role.isInterface_unmarked hlike.role, hrole]

/-- The proper elements directly inside an element that pass a test, in order. -/
def properIn (d : Diagram) (a : Slot) (t : Element → Bool) : List Slot :=
  (List.range d.bound).filter fun i => (d.proper? i).any fun e => e.parent == some a && i != a && t e

theorem mem_properIn {t : Element → Bool} : i ∈ properIn d a t ↔
    i ≠ a ∧ ∃ e, d.proper? i = some e ∧ e.parent = some a ∧ t e = true := by
  rw [properIn, List.mem_filter, List.mem_range, Option.any_eq_true]
  simp only [Bool.and_eq_true, beq_iff_eq, bne_iff_ne]
  constructor
  · rintro ⟨-, e, he, ⟨hparent, hne⟩, ht⟩
    exact ⟨hne, e, he, hparent, ht⟩
  · rintro ⟨hne, e, he, hparent, ht⟩
    exact ⟨Diagram.lt_bound_of_proper? he, e, he, ⟨hparent, hne⟩, ht⟩

theorem sorted_properIn (d : Diagram) (a : Slot) (t : Element → Bool) :
    (properIn d a t).Pairwise (· < ·) :=
  List.pairwise_lt_range.filter _

/-- **What is directly inside an element is carried in order.** -/
theorem Carries.properIn (h : Carries f d d') (ha : a < d.bound) {t : Element → Bool}
    (ht : ∀ e e', Like f e e' → t e' = t e) :
    Assembly.properIn d' (f a) t = (Assembly.properIn d a t).map f := by
  refine List.Pairwise.eq_of_mem_iff (sorted_properIn d' _ t) ?_ fun j => ?_
  · rw [List.pairwise_map]
    refine (sorted_properIn d a t).imp_of_mem fun {i j} hi hj hlt => ?_
    obtain ⟨-, e, he, hparent, -⟩ := mem_properIn.mp hi
    obtain ⟨-, e', he', hparent', -⟩ := mem_properIn.mp hj
    exact h.ordered i j e e' a he he' hparent hparent' hlt
  · rw [mem_properIn, List.mem_map]
    constructor
    · rintro ⟨hne, e', he', hparent', ht'⟩
      obtain ⟨i, e, he, hparent, rfl⟩ := h.child a j e' ha he' hparent'
      obtain ⟨e'', he'', hlike⟩ := h.element i e he
      rw [he'] at he''
      cases he''
      refine ⟨i, mem_properIn.mpr ⟨?_, e, he, hparent, (ht _ _ hlike).symm.trans ht'⟩, rfl⟩
      rintro rfl
      exact hne rfl
    · rintro ⟨i, hi, rfl⟩
      obtain ⟨hne, e, he, hparent, hte⟩ := mem_properIn.mp hi
      obtain ⟨e', he', hlike⟩ := h.element i e he
      refine ⟨fun heq => hne (h.injective i (Diagram.lt_bound_of_proper? he) a ha heq), e', he', ?_,
        (ht _ _ hlike).trans hte⟩
      rw [hlike.parent, hparent, Option.map_some]

/-! ## Signatures and nodes -/

/-- Everything directly inside an element is proper. -/
def AllProper (d : Diagram) (a : Slot) : Prop :=
  ∀ i e, d.get? i = some e → e.parent = some a → e.role.isSuperPort = false

theorem children_eq_properIn (h : AllProper d a) :
    d.children a = Assembly.properIn d a fun _ => true := by
  refine List.Pairwise.eq_of_mem_iff (Diagram.sorted_children d a) (sorted_properIn d a _) fun i => ?_
  rw [Diagram.mem_children, mem_properIn]
  constructor
  · rintro ⟨⟨e, he, hparent⟩, hne⟩
    exact ⟨hne, e, Diagram.proper?_eq_some.mpr ⟨he, h i e he hparent⟩, hparent, rfl⟩
  · rintro ⟨hne, e, he, hparent, -⟩
    exact ⟨⟨e, (Diagram.proper?_eq_some.mp he).1, hparent⟩, hne⟩

/-- A list that is read off the children is read off those at which there is something. -/
theorem filterMap_children_eq {β : Type} {r : Slot → Element → Option β} {t : Element → Bool}
    (ht : ∀ i e, (r i e).isSome = true → e.role.isSuperPort = false ∧ t e = true) :
    ((d.children a).filterMap fun i => (d.get? i).bind (r i)) =
      (Assembly.properIn d a t).filterMap fun i => (d.get? i).bind (r i) := by
  rw [Diagram.filterMap_children, Assembly.properIn, List.filterMap_filter]
  refine List.filterMap_congr fun i _ => ?_
  rw [Diagram.pick, Diagram.proper?]
  cases d.get? i with
  | none => rfl
  | some e =>
    simp only [Option.bind_some, Option.filter_some]
    by_cases hr : (r i e).isSome = true
    · obtain ⟨hport, hte⟩ := ht i e hr
      simp [hport, hte]
    · rw [Bool.not_eq_true, Option.isSome_eq_false_iff, Option.isNone_iff_eq_none] at hr
      simp [hr]

theorem memberSign?_like (h : Like f e e') : memberSign? e' = memberSign? e :=
  memberSign?_congr (Role.congr_of_unmarked Role.nodeKind?_unmarked h.role) h.label h.fields

/-- **The signature of an interface does not change.** -/
theorem Carries.signature (h : Carries f d d') (ha : d.proper? a = some e) (hall : AllProper d a)
    (hall' : AllProper d' (f a)) : Assembly.signature d' (f a) = Assembly.signature d a := by
  obtain ⟨e', he', hlike⟩ := h.element a e ha
  have hlt := Diagram.lt_bound_of_proper? ha
  have hchildren : d'.children (f a) = (d.children a).map f := by
    rw [children_eq_properIn hall, children_eq_properIn hall',
      h.properIn hlt fun _ _ _ => rfl]
  refine signature_congr hchildren ?_ fun i hi => ?_
  · rw [(Diagram.proper?_eq_some.mp ha).1, (Diagram.proper?_eq_some.mp he').1, Option.map_some,
      Option.map_some, hlike.label]
  · obtain ⟨⟨x, hx, hparent⟩, -⟩ := Diagram.mem_children.mp hi
    obtain ⟨x', hx', hlike'⟩ := h.element i x (Diagram.proper?_eq_some.mpr ⟨hx, hall i x hx hparent⟩)
    rw [hx, (Diagram.proper?_eq_some.mp hx').1, Option.bind_some, Option.bind_some,
      memberSign?_like hlike']

/-- Two nodes that are the same for a side. -/
structure SameNode (n n' : Slot × Element) : Prop where
  role : n'.2.role = n.2.role
  label : n'.2.label = n.2.label
  fields : n'.2.fields = n.2.fields

/-- **The nodes of an interface are read in the same order.** -/
theorem Carries.nodesOf (h : Carries f d d') (ha : a < d.bound) :
    List.Forall₂ SameNode (Assembly.nodesOf d a) (Assembly.nodesOf d' (f a)) := by
  have hnodes : ∀ (d : Diagram) a, Assembly.nodesOf d a =
      (Assembly.properIn d a fun e => e.nodeKind?.isSome).filterMap
        fun i => (d.get? i).bind (nodeAt i) := by
    intro d a
    rw [nodesOf_eq]
    refine filterMap_children_eq fun i e he => ?_
    rw [nodeAt] at he
    split at he
    · rename_i hnode
      exact ⟨Role.isSuperPort_of_nodeKind? hnode, hnode⟩
    · cases he
  rw [hnodes, hnodes, h.properIn ha fun e e' hlike => by
    rw [Element.nodeKind?, Element.nodeKind?, Role.congr_of_unmarked Role.nodeKind?_unmarked hlike.role],
    List.filterMap_map]
  refine forall₂_filterMap fun i hi => ?_
  obtain ⟨-, e, he, -, hnode⟩ := mem_properIn.mp hi
  obtain ⟨e', he', hlike⟩ := h.element i e he
  have hrole : e'.role = e.role := Role.eq_of_unmarked hlike.role (by
    cases hr : e.role <;> rw [Element.nodeKind?, hr] at hnode <;> first | rfl | cases hnode)
  have hnode' : e'.nodeKind?.isSome = true := by
    rw [Element.nodeKind?, hrole]
    exact hnode
  refine ⟨(i, e), (f i, e'), ?_, ?_, hrole, hlike.label, hlike.fields⟩
  · rw [(Diagram.proper?_eq_some.mp he).1, Option.bind_some, nodeAt, if_pos hnode]
  · rw [Function.comp_apply, (Diagram.proper?_eq_some.mp he').1, Option.bind_some, nodeAt,
      if_pos hnode']

end Assembly

end Netlist
