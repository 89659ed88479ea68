import Netlist.Proofs.Assembly.Shape
import Netlist.Proofs.Assembly.Steps

/-!
# Marks of duplicates

At the end of its turn an instance writes its place into its fields and marks the
duplicates among its interfaces. Which ones those are is read off what is in the
instance, and neither marks nor fields nor ends play a part in it. So marking again
changes nothing, and nothing that happens elsewhere changes the duplicates.

- `get?_finished`: what the end of a turn does to every slot.
- `SameUnder`, `SameUnder.duplicates`: **the duplicates of an instance are the same as
  long as the same is in it.**
- `Marked`, `marked_of_marked`: marking duplicates that are marked changes nothing.
-/

namespace Netlist.Assembly

open Diagram (proper?_eq_some)

variable {d d' : Diagram} {s a i j p : Slot} {e e' : Element} {offset nodeCount : Nat}

/-! ## What marking does to a slot -/

/-- The element with the mark that was looked up for it, if there is one. -/
def tag (first : Option Slot) (e : Element) : Element :=
  match first with
  | some first => mark first e
  | none => e

@[simp] theorem id_tag (o : Option Slot) (e : Element) : (tag o e).id = e.id := by
  cases o <;> rfl

@[simp] theorem label_tag (o : Option Slot) (e : Element) : (tag o e).label = e.label := by
  cases o <;> rfl

@[simp] theorem fields_tag (o : Option Slot) (e : Element) : (tag o e).fields = e.fields := by
  cases o <;> rfl

@[simp] theorem parent_tag (o : Option Slot) (e : Element) : (tag o e).parent = e.parent := by
  cases o <;> rfl

@[simp] theorem endAt_tag (o : Option Slot) (isSource : Bool) (e : Element) :
    (tag o e).endAt isSource = e.endAt isSource := by
  cases o <;> rfl

@[simp] theorem unmarked_tag (o : Option Slot) (e : Element) :
    (tag o e).role.unmarked = e.role.unmarked := by
  cases o with
  | none => rfl
  | some first => exact Role.unmarked_setDuplicateOf first e.role

/-- A mark is the one that was given, or else the old one. -/
theorem mark?_tag (o : Option Slot) (h : e.role.isInterface = true) :
    (tag o e).role.mark? = o.or e.role.mark? := by
  cases o with
  | none => rfl
  | some first => exact Role.mark?_setDuplicateOf first h

/-- **Marking gives every element the mark that is looked up for it.** -/
theorem get?_markDuplicates {pairs : List (Slot × Slot)} (hnodup : (pairs.map Prod.fst).Nodup)
    (d : Diagram) (i : Slot) :
    (markDuplicates pairs d).get? i = (d.get? i).map (tag (pairs.lookup i)) := by
  induction pairs generalizing d with
  | nil => exact (congrFun Option.map_id (d.get? i)).symm
  | cons q pairs ih =>
    obtain ⟨j, first⟩ := q
    obtain ⟨hj, hnodup⟩ := List.nodup_cons.mp hnodup
    have hcons : markDuplicates ((j, first) :: pairs) d =
        markDuplicates pairs (d.modify j (mark first)) := rfl
    rw [hcons, ih hnodup, Diagram.get?_modify]
    by_cases hji : j = i
    · subst hji
      rw [if_pos rfl, lookup_of_notMem hj, List.lookup_cons_self, Option.map_map]
      rfl
    · rw [if_neg hji, List.lookup_cons, beq_false_of_ne (Ne.symm hji)]

theorem nodup_interfacesIn (d : Diagram) (s : Slot) : (interfacesIn d s).Nodup :=
  (Topology.nodup_descendants d s).filter _

theorem sorted_interfacesIn (d : Diagram) (s : Slot) : (interfacesIn d s).Pairwise (· < ·) :=
  (Diagram.sorted_descendants d s).filter _

/-- The interface that the end of a turn marks an element with. -/
def markFor? (d : Diagram) (s i : Slot) : Option Slot := (duplicates d (interfacesIn d s)).lookup i

theorem get?_marked (s : Slot) (d : Diagram) (i : Slot) :
    (marked s d).get? i = (d.get? i).map (tag (markFor? d s i)) :=
  get?_markDuplicates (nodup_keys_duplicates (nodup_interfacesIn d s)) d i

theorem bound_marked (s : Slot) (d : Diagram) : (marked s d).bound = d.bound :=
  bound_markDuplicates _ d

/-- A mark is looked up for interfaces of the instance only, and it leads to one. -/
theorem markFor?_eq_some {first : Slot} (h : markFor? d s i = some first) :
    i ∈ interfacesIn d s ∧ first ∈ interfacesIn d s := by
  obtain ⟨before, after, heq, -⟩ := List.lookup_eq_some_iff.mp h
  have hmem : (i, first) ∈ duplicates d (interfacesIn d s) := by
    rw [heq]
    exact List.mem_append_right _ List.mem_cons_self
  obtain ⟨hi, hfirst, -⟩ := mem_duplicates hmem
  exact ⟨hi, hfirst⟩

/-! ## The same content -/

/-- What is in `s` is the same in both diagrams, but for identities, ends and marks. -/
structure SameUnder (s : Slot) (d d' : Diagram) : Prop where
  live : (∃ e', d'.get? s = some e') ↔ ∃ e, d.get? s = some e
  kept : ∀ j e, d.Inside j s → d.proper? j = some e → ∃ e', d'.proper? j = some e' ∧ Like id e e'
  back : ∀ j e' p, d'.proper? j = some e' → e'.parent = some p → p = s ∨ d.Inside p s →
    ∃ e, d.proper? j = some e ∧ e.parent = some p

theorem SameUnder.inside (h : SameUnder s d d') (hbare : d.BarePorts) (he : d.proper? j = some e)
    (hin : d.Inside j s) : d'.Inside j s := by
  have hup : ∀ {j p e}, d.proper? j = some e → d.Inside j s → d.HasParent j p → d'.HasParent j p := by
    rintro j p e he hin ⟨x, hx, hparent⟩
    rw [(proper?_eq_some.mp he).1] at hx
    cases hx
    obtain ⟨e', he', hlike⟩ := h.kept j e hin he
    exact ⟨e', (proper?_eq_some.mp he').1, by rw [hlike.parent, hparent]; rfl⟩
  induction hin using Relation.TransGen.head_induction_on generalizing e with
  | single hp => exact .single (hup he (.single hp) hp)
  | head hp hin ih =>
    obtain ⟨y, hy⟩ := Diagram.Inside.live hin
    exact (ih (proper?_eq_some.mpr ⟨hy, hbare _ _ y hp hy⟩)).head (hup he (hin.head hp) hp)

theorem SameUnder.inside_back (h : SameUnder s d d') (hbare' : d'.BarePorts)
    (he' : d'.proper? j = some e') (hin : d'.Inside j s) :
    d.Inside j s ∧ ∃ e, d.proper? j = some e := by
  have hdown : ∀ {j p e'}, d'.proper? j = some e' → d'.HasParent j p → p = s ∨ d.Inside p s →
      d.Inside j s ∧ ∃ e, d.proper? j = some e := by
    rintro j p e' he' ⟨x, hx, hparent⟩ hp
    rw [(proper?_eq_some.mp he').1] at hx
    cases hx
    obtain ⟨e, he, hparent⟩ := h.back j e' p he' hparent hp
    have hup : d.HasParent j p := ⟨e, (proper?_eq_some.mp he).1, hparent⟩
    refine ⟨?_, e, he⟩
    rcases hp with rfl | hin
    · exact .single hup
    · exact hin.head hup
  induction hin using Relation.TransGen.head_induction_on generalizing e' with
  | single hp => exact hdown he' hp (.inl rfl)
  | head hp hin ih =>
    obtain ⟨y, hy⟩ := Diagram.Inside.live hin
    obtain ⟨hin', -⟩ := ih (proper?_eq_some.mpr ⟨hy, hbare' _ _ y hp hy⟩)
    exact hdown he' hp (.inr hin')

theorem mem_interfacesIn_iff_proper? : i ∈ interfacesIn d s ↔ (∃ x, d.get? s = some x) ∧ i ≠ s ∧
    d.Inside i s ∧ ∃ e, d.proper? i = some e ∧ e.role.isInterface = true := by
  rw [mem_interfacesIn, Diagram.mem_descendants]
  constructor
  · rintro ⟨⟨hs, hne, hin⟩, e, he, hrole⟩
    exact ⟨hs, hne, hin, e, proper?_eq_some.mpr ⟨he, Role.isSuperPort_of_isInterface hrole⟩, hrole⟩
  · rintro ⟨hs, hne, hin, e, he, hrole⟩
    exact ⟨⟨hs, hne, hin⟩, e, (proper?_eq_some.mp he).1, hrole⟩

/-- The interfaces of an instance are the same, in the same order. -/
theorem SameUnder.interfacesIn (h : SameUnder s d d') (hbare : d.BarePorts) (hbare' : d'.BarePorts) :
    Assembly.interfacesIn d' s = Assembly.interfacesIn d s := by
  refine List.Pairwise.eq_of_mem_iff (sorted_interfacesIn d' s) (sorted_interfacesIn d s) fun i => ?_
  rw [mem_interfacesIn_iff_proper?, mem_interfacesIn_iff_proper?, h.live]
  constructor
  · rintro ⟨hs, hne, hin', e', he', hrole'⟩
    obtain ⟨hin, e, he⟩ := h.inside_back hbare' he' hin'
    obtain ⟨e'', he'', hlike⟩ := h.kept i e hin he
    rw [he'] at he''
    cases he''
    exact ⟨hs, hne, hin, e, he, (Role.congr_of_unmarked Role.isInterface_unmarked hlike.role) ▸ hrole'⟩
  · rintro ⟨hs, hne, hin, e, he, hrole⟩
    obtain ⟨e', he', hlike⟩ := h.kept i e hin he
    exact ⟨hs, hne, h.inside hbare he hin, e', he',
      (Role.congr_of_unmarked Role.isInterface_unmarked hlike.role).trans hrole⟩

theorem isInterface_of_mem_interfacesIn (h : i ∈ Assembly.interfacesIn d s) : isInterface d i = true := by
  obtain ⟨-, e, he, hrole⟩ := mem_interfacesIn.mp h
  rw [isInterface, he, Option.any_some, hrole]

/-- **The duplicates of an instance are the same as long as the same is in it.** -/
theorem SameUnder.duplicates (h : SameUnder s d d') (hbare : d.BarePorts) (hbare' : d'.BarePorts)
    (hproper : InterfacesProper d) (hproper' : InterfacesProper d') :
    Assembly.duplicates d' (Assembly.interfacesIn d' s) =
      Assembly.duplicates d (Assembly.interfacesIn d s) := by
  have hinterfaces := h.interfacesIn hbare hbare'
  suffices hsign : ∀ a ∈ Assembly.interfacesIn d s, signature d' (id a) = signature d a by
    have hsame := duplicates_map hsign
    rw [List.map_id, Prod.map_id, List.map_id] at hsame
    rw [hinterfaces, hsame]
  intro a ha
  obtain ⟨-, -, hin, x, hx, -⟩ := mem_interfacesIn_iff_proper?.mp ha
  have hall := hproper a (isInterface_of_mem_interfacesIn ha)
  have hall' := hproper' a (isInterface_of_mem_interfacesIn (hinterfaces ▸ ha))
  have hchild : ∀ {i}, i ∈ d.children a → ∃ e e', d.proper? i = some e ∧ d'.proper? i = some e' ∧
      Like id e e' ∧ e.parent = some a ∧ i ≠ a := by
    intro i hi
    obtain ⟨hp, hne⟩ := Diagram.mem_children.mp hi
    obtain ⟨e, he, hparent⟩ := id hp
    have hproper := proper?_eq_some.mpr ⟨he, hall i e he hparent⟩
    obtain ⟨e', he', hlike⟩ := h.kept i e (hin.head hp) hproper
    exact ⟨e, e', hproper, he', hlike, hparent, hne⟩
  refine signature_congr ?_ ?_ fun i hi => ?_
  · rw [List.map_id]
    refine List.Pairwise.eq_of_mem_iff (Diagram.sorted_children d' a) (Diagram.sorted_children d a)
      fun i => ⟨fun hi => ?_, fun hi => ?_⟩
    · obtain ⟨⟨e', he', hparent⟩, hne⟩ := Diagram.mem_children.mp hi
      obtain ⟨e, he, hparent⟩ :=
        h.back i e' a (proper?_eq_some.mpr ⟨he', hall' i e' he' hparent⟩) hparent (.inr hin)
      exact Diagram.mem_children.mpr ⟨⟨e, (proper?_eq_some.mp he).1, hparent⟩, hne⟩
    · obtain ⟨e, e', -, he', hlike, hparent, hne⟩ := hchild hi
      refine Diagram.mem_children.mpr ⟨⟨e', (proper?_eq_some.mp he').1, ?_⟩, hne⟩
      rw [hlike.parent, hparent]
      rfl
  · obtain ⟨x', hx', hlike⟩ := h.kept a x hin hx
    rw [(proper?_eq_some.mp hx).1, id, (proper?_eq_some.mp hx').1, Option.map_some, Option.map_some,
      hlike.label]
  · obtain ⟨e, e', he, he', hlike, -, -⟩ := hchild hi
    rw [id, (proper?_eq_some.mp he).1, (proper?_eq_some.mp he').1, Option.bind_some,
      Option.bind_some, memberSign?_like hlike]

theorem SameUnder.markFor? (h : SameUnder s d d') (hbare : d.BarePorts) (hbare' : d'.BarePorts)
    (hproper : InterfacesProper d) (hproper' : InterfacesProper d') :
    Assembly.markFor? d' s = Assembly.markFor? d s := by
  funext i
  rw [Assembly.markFor?, Assembly.markFor?, h.duplicates hbare hbare' hproper hproper']

/-- Diagrams of the same shape with the same labels and fields in `s`. -/
theorem SameUnder.of_shape (h : SameShape d d') (hsame : ∀ j e e', d.Inside j s → d.get? j = some e →
    d'.get? j = some e' → e'.label = e.label ∧ e'.fields = e.fields) : SameUnder s d d' where
  live := by
    constructor
    · rintro ⟨e', he'⟩
      obtain ⟨e, he, -⟩ := h.back he'
      exact ⟨e, he⟩
    · rintro ⟨e, he⟩
      obtain ⟨e', he', -⟩ := h.symm.back he
      exact ⟨e', he'⟩
  kept := by
    intro j e hin he
    obtain ⟨hget, hport⟩ := proper?_eq_some.mp he
    obtain ⟨e', he', hunmarked, hparent⟩ := h.symm.back hget
    obtain ⟨hlabel, hfields⟩ := hsame j e e' hin hget he'
    refine ⟨e', proper?_eq_some.mpr ⟨he', ?_⟩, hunmarked.symm, hlabel, hfields, ?_⟩
    · exact (Role.congr_of_unmarked Role.isSuperPort_unmarked hunmarked).symm.trans hport
    · rw [← hparent, Option.map_id, id]
  back := by
    intro j e' p he' hparent' _
    obtain ⟨hget', hport'⟩ := proper?_eq_some.mp he'
    obtain ⟨e, he, hunmarked, hparent⟩ := h.back hget'
    refine ⟨e, proper?_eq_some.mpr ⟨he, ?_⟩, hparent.symm.trans hparent'⟩
    exact (Role.congr_of_unmarked Role.isSuperPort_unmarked hunmarked).symm.trans hport'

/-! ## The end of a turn -/

/-- The diagram after the end of a turn: the place is in the fields of the instance, and
its duplicates are marked. -/
def finished (s : Slot) (offset nodeCount : Nat) (d : Diagram) : Diagram :=
  marked s (d.modify s (withPlace offset nodeCount))

/-- An instance with its place in its fields. -/
def placedAt (s : Slot) (offset nodeCount : Nat) (j : Slot) (e : Element) : Element :=
  if s = j then withPlace offset nodeCount e else e

/-- **What the end of a turn does to every slot.** -/
theorem get?_finished (s : Slot) (offset nodeCount : Nat) (d : Diagram) (j : Slot) :
    (finished s offset nodeCount d).get? j = (d.get? j).map fun e =>
      tag (markFor? (d.modify s (withPlace offset nodeCount)) s j) (placedAt s offset nodeCount j e) := by
  rw [finished, get?_marked, Diagram.get?_modify]
  by_cases hj : s = j
  · subst hj
    rw [if_pos rfl, Option.map_map]
    congr 1
    funext e
    rw [Function.comp_apply, placedAt, if_pos rfl]
  · rw [if_neg hj]
    congr 1
    funext e
    rw [placedAt, if_neg hj]

theorem bound_finished (s : Slot) (offset nodeCount : Nat) (d : Diagram) :
    (finished s offset nodeCount d).bound = d.bound := by
  rw [finished, bound_marked, Diagram.bound_modify]

theorem shape_finished (s : Slot) (offset nodeCount : Nat) (o : Option Slot) (j : Slot) (e : Element) :
    shape (tag o (placedAt s offset nodeCount j e)) = shape e := by
  rw [shape, unmarked_tag, parent_tag, placedAt]
  split <;> rfl

/-- The end of a turn changes no shapes. -/
theorem sameShape_finished (s : Slot) (offset nodeCount : Nat) (d : Diagram) :
    SameShape d (finished s offset nodeCount d) :=
  .of_map (fun j e => shape_finished s offset nodeCount _ j e)
    (get?_finished s offset nodeCount d)

/-- **The end of a turn marks the duplicates that there are**, in the diagram before. -/
theorem markFor?_placed (hbare : d.BarePorts) (hproper : InterfacesProper d) (hs : ¬ d.Inside s s) :
    markFor? (d.modify s (withPlace offset nodeCount)) s = markFor? d s := by
  have hget : ∀ j, (d.modify s (withPlace offset nodeCount)).get? j =
      (d.get? j).map (placedAt s offset nodeCount j) := by
    intro j
    rw [Diagram.get?_modify]
    by_cases hj : s = j
    · rw [if_pos hj]
      congr 1
      funext e
      rw [placedAt, if_pos hj]
    · rw [if_neg hj]
      have hid : placedAt s offset nodeCount j = id := funext fun e => by rw [placedAt, if_neg hj, id]
      rw [hid, Option.map_id, id]
  have hshape : SameShape d (d.modify s (withPlace offset nodeCount)) :=
    .of_map (fun j e => shape_finished s offset nodeCount none j e) hget
  have hunder : SameUnder s d (d.modify s (withPlace offset nodeCount)) := by
    refine .of_shape hshape fun j e e' hin he he' => ?_
    rw [hget, he, Option.map_some, Option.some.injEq, placedAt, if_neg] at he'
    · rw [← he']
      exact ⟨rfl, rfl⟩
    · rintro rfl
      exact hs hin
  exact hunder.markFor? hbare (hshape.bare hbare) hproper (hshape.interfacesProper hproper)

/-- Nothing in the instance changes at the end of a turn but marks. -/
theorem sameUnder_finished (hs : ¬ d.Inside s s) : SameUnder s d (finished s offset nodeCount d) := by
  refine .of_shape (sameShape_finished s offset nodeCount d) fun j e e' hin he he' => ?_
  rw [get?_finished, he, Option.map_some, Option.some.injEq, placedAt, if_neg] at he'
  · rw [← he', label_tag, fields_tag]
    exact ⟨rfl, rfl⟩
  · rintro rfl
    exact hs hin

theorem markFor?_finished (hbare : d.BarePorts) (hproper : InterfacesProper d)
    (hs : ¬ d.Inside s s) : markFor? (finished s offset nodeCount d) s = markFor? d s := by
  have hshape := sameShape_finished s offset nodeCount d
  exact (sameUnder_finished hs).markFor? hbare (hshape.bare hbare) hproper
    (hshape.interfacesProper hproper)

/-! ## Marking again -/

/-- The duplicates among the interfaces of an instance are marked. -/
def Marked (d : Diagram) (s : Slot) : Prop :=
  ∀ i first e, markFor? d s i = some first → d.get? i = some e → e.role.mark? = some first

/-- **After its turn the duplicates of an instance are marked.** -/
theorem marked_finished (hbare : d.BarePorts) (hproper : InterfacesProper d) (hs : ¬ d.Inside s s) :
    Marked (finished s offset nodeCount d) s := by
  intro i first e' hfirst he'
  rw [markFor?_finished hbare hproper hs] at hfirst
  rw [get?_finished, markFor?_placed hbare hproper hs, Option.map_eq_some_iff] at he'
  obtain ⟨e, he, rfl⟩ := he'
  obtain ⟨-, e₀, he₀, hrole⟩ := mem_interfacesIn.mp (markFor?_eq_some hfirst).1
  rw [he] at he₀
  cases he₀
  have hinterface : (placedAt s offset nodeCount i e).role.isInterface = true := by
    rw [placedAt]
    split <;> exact hrole
  rw [mark?_tag _ hinterface, hfirst]
  rfl

/-- An interface with a certain mark is the same if it gets this mark. -/
theorem mark_of_mark? {first : Slot} (h : e.role.mark? = some first) : mark first e = e := by
  have hinterface : e.role.isInterface = true := by
    cases hr : e.role <;> rw [hr] at h <;> first | rfl | cases h
  have hrole : e.role.setDuplicateOf first = e.role :=
    Role.ext_mark (Role.unmarked_setDuplicateOf first e.role)
      ((Role.mark?_setDuplicateOf first hinterface).trans h.symm)
  rw [mark, hrole]

/-- **Marking duplicates that are marked changes nothing.** -/
theorem marked_of_marked (h : Marked d s) : marked s d = d := by
  refine Diagram.ext_get? (bound_marked s d) fun i => ?_
  rw [get?_marked]
  cases he : d.get? i with
  | none => rfl
  | some e =>
    rw [Option.map_some]
    congr 1
    cases hfirst : markFor? d s i with
    | none => rfl
    | some first => exact mark_of_mark? (h i first e hfirst he)

end Netlist.Assembly
