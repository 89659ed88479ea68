import Netlist.Proofs.Assembly.Copying

/-!
# Linking copies in any order

Copies are linked one after the other, and a copy with an end that is not copied is
removed on the way. The removal takes its slot off the ends of all elements that
were linked before; elements that are linked later get ends there all the same. So
what becomes of a copy depends on which copies are removed after it, and on nothing
else of the order.

- `brokenIn`: the copies that are removed.
- `get?_relinkAll_of_mem`: **what becomes of a copy**, ends included.
- `CopyAt`, `Relinked`: a copy as it is left, and all of them.
- `relinked_of_perm`: **however the copies are visited**, the broken ones are gone
  and the others have their parts from their originals.
- `imprint_of_perm`, `importVisiting_runs`: **a copy has the role and the fields of its
  original, its label moved, and its parent among the copies**; nothing else in the
  diagram changes, but for ends.
-/

namespace Netlist.Assembly

open Diagram (root)

variable {drawing d d₁ d' : Diagram} {copies order before after : List (Slot × Slot)}
  {s o c j : Slot} {drawn e : Element} {offset : Nat}

/-! ## One copy -/

/-- A copy in the place among the copies that its original has. -/
def linked (copies : List (Slot × Slot)) (s : Slot) (drawn e : Element) : Element :=
  { e with
    parent := some (parentAmong copies s drawn)
    source := copyOf? copies drawn.source
    target := copyOf? copies drawn.target }

/-- Linking does not look at the ends that a copy had. -/
theorem linked_detachAll (slots : List Slot) (e : Element) :
    linked copies s drawn (e.detachAll slots) = linked copies s drawn e := by
  show linked copies s drawn (e.detachAll slots).core = linked copies s drawn e.core
  rw [Element.core_detachAll]

/-- Linking a copy with all its ends changes only this copy. -/
theorem get?_relink_of_whole (hdrawn : drawing.get? o = some drawn)
    (hwhole : isBroken copies drawn = false) (j : Slot) :
    (relink drawing s copies d (o, c)).get? j =
      if j = c then (d.get? j).map (linked copies s drawn) else d.get? j := by
  rw [relink, hdrawn]
  dsimp only
  rw [if_neg (by rw [hwhole]; exact Bool.false_ne_true), Diagram.get?_modify]
  by_cases hj : j = c
  · rw [if_pos hj.symm, if_pos hj]
    rfl
  · rw [if_neg (Ne.symm hj), if_neg hj]

/-- Removing a broken copy takes its slot off all ends. -/
theorem get?_relink_of_broken (hdrawn : drawing.get? o = some drawn)
    (hbroken : isBroken copies drawn = true) (hc : c ≠ root) (he : d.get? c = some e) (j : Slot) :
    (relink drawing s copies d (o, c)).get? j =
      if j = c then none else (d.get? j).map (Element.detach c) := by
  rw [relink, hdrawn]
  dsimp only
  rw [if_pos hbroken]
  refine Diagram.get?_remove ?_ j
  rw [Diagram.removable?_eq d hc, he]
  rfl

/-! ## All copies -/

/-- The copies in a list that are removed since an end of the original is not copied. -/
def brokenIn (drawing : Diagram) (copies order : List (Slot × Slot)) : List Slot :=
  (order.filter fun p => (drawing.get? p.1).any (isBroken copies)).map Prod.snd

theorem mem_brokenIn : c ∈ brokenIn drawing copies order ↔
    ∃ o drawn, (o, c) ∈ order ∧ drawing.get? o = some drawn ∧ isBroken copies drawn = true := by
  rw [brokenIn, List.mem_map]
  constructor
  · rintro ⟨⟨o, c'⟩, hmem, rfl⟩
    rw [List.mem_filter, Option.any_eq_true] at hmem
    obtain ⟨hmem, drawn, hdrawn, hbroken⟩ := hmem
    exact ⟨o, drawn, hmem, hdrawn, hbroken⟩
  · rintro ⟨o, drawn, hmem, hdrawn, hbroken⟩
    refine ⟨(o, c), ?_, rfl⟩
    rw [List.mem_filter, Option.any_eq_true]
    exact ⟨hmem, drawn, hdrawn, hbroken⟩

/-- What linking asks of the copies that are visited: their slots are distinct and
live, and their originals are there. -/
structure Visitable (drawing : Diagram) (order : List (Slot × Slot)) (d : Diagram) : Prop where
  nodup : (order.map Prod.snd).Nodup
  slots : ∀ p ∈ order, p.2 ≠ root ∧ (d.get? p.2).isSome = true
  drawn : ∀ p ∈ order, ∃ drawn, drawing.get? p.1 = some drawn

/-- The effect of one visit on the slots that are visited later or never. -/
theorem get?_relink_of_ne (h : Visitable drawing ((o, c) :: order) d) (hj : j ≠ c) :
    (relink drawing s copies d (o, c)).get? j =
      (d.get? j).map (Element.detachAll (brokenIn drawing copies [(o, c)])) := by
  obtain ⟨drawn, hdrawn⟩ := h.drawn (o, c) List.mem_cons_self
  obtain ⟨hroot, hlive⟩ := h.slots (o, c) List.mem_cons_self
  obtain ⟨e, he⟩ := Option.isSome_iff_exists.mp hlive
  rw [brokenIn, List.filter_cons, hdrawn, Option.any_some]
  cases hbroken : isBroken copies drawn with
  | true =>
    rw [get?_relink_of_broken hdrawn hbroken hroot he, if_neg hj]
    rfl
  | false =>
    rw [get?_relink_of_whole hdrawn hbroken, if_neg hj]
    have hid : Element.detachAll [] = id := funext Element.detachAll_nil
    show d.get? j = (d.get? j).map (Element.detachAll [])
    rw [hid, Option.map_id, id]

theorem Visitable.tail (h : Visitable drawing ((o, c) :: order) d) :
    Visitable drawing order (relink drawing s copies d (o, c)) where
  nodup := (List.nodup_cons.mp h.nodup).2
  slots := by
    intro p hp
    obtain ⟨hroot, hlive⟩ := h.slots p (List.mem_cons_of_mem _ hp)
    have hne : p.2 ≠ c := ne_of_mem_of_not_mem (List.mem_map_of_mem hp) (List.nodup_cons.mp h.nodup).1
    refine ⟨hroot, ?_⟩
    rw [get?_relink_of_ne h hne, Option.isSome_map]
    exact hlive
  drawn := fun p hp => h.drawn p (List.mem_cons_of_mem _ hp)

theorem relinkAll_cons (drawing : Diagram) (s : Slot) (copies order : List (Slot × Slot))
    (p : Slot × Slot) (d : Diagram) : relinkAll drawing s copies (p :: order) d =
      relinkAll drawing s copies order (relink drawing s copies d p) := rfl

theorem brokenIn_cons (drawing : Diagram) (copies order : List (Slot × Slot)) (p : Slot × Slot) :
    brokenIn drawing copies (p :: order) =
      brokenIn drawing copies [p] ++ brokenIn drawing copies order := by
  rw [brokenIn, brokenIn, brokenIn, ← List.map_append, ← List.filter_append, List.singleton_append]

/-- **A slot that is not visited loses its ends at the copies that are removed.** -/
theorem get?_relinkAll_of_not_mem (h : Visitable drawing order d) (hj : j ∉ order.map Prod.snd) :
    (relinkAll drawing s copies order d).get? j =
      (d.get? j).map (Element.detachAll (brokenIn drawing copies order)) := by
  induction order generalizing d with
  | nil =>
    have hid : Element.detachAll [] = id := funext Element.detachAll_nil
    show d.get? j = (d.get? j).map (Element.detachAll [])
    rw [hid, Option.map_id, id]
  | cons p order ih =>
    obtain ⟨o, c⟩ := p
    rw [List.map_cons, List.mem_cons, not_or] at hj
    rw [relinkAll_cons, ih h.tail hj.2, get?_relink_of_ne h hj.1, Option.map_map,
      brokenIn_cons drawing copies order]
    congr 1
    funext e
    rw [Function.comp_apply, Element.detachAll, Element.detachAll, Element.detachAll,
      List.foldl_append]

/-- **What becomes of a copy**: a broken one is gone, and any other one is linked and
then loses its ends at the copies that are removed after it. -/
theorem get?_relinkAll_of_mem (h : Visitable drawing (before ++ (o, c) :: after) d)
    (hdrawn : drawing.get? o = some drawn) :
    (relinkAll drawing s copies (before ++ (o, c) :: after) d).get? c =
      if isBroken copies drawn then none
      else (d.get? c).map fun e =>
        (linked copies s drawn e).detachAll (brokenIn drawing copies after) := by
  induction before generalizing d with
  | nil =>
    rw [List.nil_append] at h ⊢
    have hc := (List.nodup_cons.mp h.nodup).1
    rw [relinkAll_cons, get?_relinkAll_of_not_mem h.tail hc]
    cases hbroken : isBroken copies drawn with
    | true =>
      obtain ⟨hroot, hlive⟩ := h.slots (o, c) List.mem_cons_self
      obtain ⟨e, he⟩ := Option.isSome_iff_exists.mp hlive
      rw [get?_relink_of_broken hdrawn hbroken hroot he, if_pos rfl, if_pos rfl, Option.map_none]
    | false =>
      rw [get?_relink_of_whole hdrawn hbroken, if_pos rfl, if_neg Bool.false_ne_true,
        Option.map_map]
      rfl
  | cons p before ih =>
    obtain ⟨o', c'⟩ := p
    rw [List.cons_append] at h ⊢
    have hne : c ≠ c' := by
      rintro rfl
      refine (List.nodup_cons.mp h.nodup).1 ?_
      rw [List.map_append, List.map_cons]
      exact List.mem_append_right _ List.mem_cons_self
    rw [relinkAll_cons, ih h.tail, get?_relink_of_ne h hne, Option.map_map]
    -- What was taken off the ends before is overwritten by the link.
    simp only [Function.comp_def, linked_detachAll]

/-! ## Moving the numbers -/

theorem get?_shiftAll {delta : Int} {slots : List Slot} (hnodup : slots.Nodup) (j : Slot) :
    (shiftAll delta slots d).get? j =
      if j ∈ slots then (d.get? j).map (shift delta) else d.get? j := by
  induction slots generalizing d with
  | nil => rfl
  | cons i slots ih =>
    obtain ⟨hi, hslots⟩ := List.nodup_cons.mp hnodup
    rw [shiftAll, List.foldl_cons]
    rw [← shiftAll, ih hslots, Diagram.get?_modify]
    by_cases hj : j = i
    · subst hj
      rw [if_neg hi, if_pos rfl, if_pos List.mem_cons_self]
    · rw [if_neg (Ne.symm hj)]
      simp only [List.mem_cons, hj, false_or]

/-! ## The copies as they are left -/

/-- A copy of an element of a drawing as it is left: with the role, the fields and the
moved label of its original, in its place among the copies, and with the ends of its
original but for those at some slots, which were cut off. -/
structure CopyAt (copies : List (Slot × Slot)) (s : Slot) (offset : Nat) (cut : List Slot)
    (drawn e : Element) : Prop extends Mirrors copies s offset drawn e where
  role : e.role = drawn.role
  ends : ∀ isSource a, e.endAt isSource = some a ↔
    copyOf? copies (drawn.endAt isSource) = some a ∧ a ∉ cut

/-- The copies of a drawing as they are left when they were visited in some order: those
with an end that is not copied are gone, and the others have lost their ends at the
copies that were removed after they were linked. -/
structure Relinked (drawing : Diagram) (copies : List (Slot × Slot)) (s : Slot) (offset : Nat)
    (order : List (Slot × Slot)) (d : Diagram) : Prop where
  gone : ∀ o c drawn, (o, c) ∈ order → drawing.get? o = some drawn →
    isBroken copies drawn = true → d.get? c = none
  left : ∀ before after o c drawn, order = before ++ (o, c) :: after →
    drawing.get? o = some drawn → isBroken copies drawn = false →
    ∃ e, d.get? c = some e ∧ CopyAt copies s offset (brokenIn drawing copies after) drawn e

theorem nodup_of_perm {members : List Slot} (hcopies : Copies drawing d d₁ members copies)
    (hperm : order.Perm copies) : (order.map Prod.snd).Nodup := by
  rw [(hperm.map Prod.snd).nodup_iff, hcopies.slots]
  exact List.nodup_range'

theorem visitable_of_perm {members : List Slot} (hcopies : Copies drawing d d₁ members copies)
    (hbound : 0 < d.bound) (hperm : order.Perm copies) : Visitable drawing order d₁ where
  nodup := nodup_of_perm hcopies hperm
  slots := by
    intro p hp
    have hmem : p.2 ∈ copies.map Prod.snd := List.mem_map_of_mem (hperm.mem_iff.mp hp)
    rw [hcopies.slots, List.mem_range'_1] at hmem
    obtain ⟨drawn, e, -, he, -⟩ := hcopies.new p.1 p.2 (hperm.mem_iff.mp hp)
    exact ⟨Nat.ne_of_gt (Nat.lt_of_lt_of_le hbound hmem.1), by rw [he]; rfl⟩
  drawn := by
    intro p hp
    obtain ⟨drawn, e, hdrawn, -⟩ := hcopies.new p.1 p.2 (hperm.mem_iff.mp hp)
    exact ⟨drawn, hdrawn⟩

/-- **However the copies are visited**, the broken ones are gone and the others have
their parts from their originals. -/
theorem relinked_of_perm {members : List Slot} (hcopies : Copies drawing d d₁ members copies)
    (hbound : 0 < d.bound) (hperm : order.Perm copies) : Relinked drawing copies s offset order
      (shiftAll (Word.signed offset) (order.map Prod.snd) (relinkAll drawing s copies order d₁)) := by
  have hnodup := nodup_of_perm hcopies hperm
  have hvisitable := visitable_of_perm hcopies hbound hperm
  -- A slot is visited once, and then the broken ones that come later take their ends off it.
  have hget : ∀ before after o c drawn, order = before ++ (o, c) :: after →
      drawing.get? o = some drawn →
      (shiftAll (Word.signed offset) (order.map Prod.snd)
        (relinkAll drawing s copies order d₁)).get? c =
        (if isBroken copies drawn then none else (d₁.get? c).map fun e =>
          (linked copies s drawn e).detachAll (brokenIn drawing copies after)).map
            (shift (Word.signed offset)) := by
    rintro before after o c drawn rfl hdrawn
    have hmem : c ∈ (before ++ (o, c) :: after).map Prod.snd := by
      rw [List.map_append, List.map_cons]
      exact List.mem_append_right _ List.mem_cons_self
    rw [get?_shiftAll hnodup, if_pos hmem, get?_relinkAll_of_mem hvisitable hdrawn]
  constructor
  · intro o c drawn hmem hdrawn hbroken
    obtain ⟨before, after, hsplit⟩ := List.append_of_mem hmem
    rw [hget before after o c drawn hsplit hdrawn, if_pos hbroken, Option.map_none]
  · intro before after o c drawn hsplit hdrawn hwhole
    have hmem : (o, c) ∈ copies := by
      rw [← hperm.mem_iff, hsplit]
      exact List.mem_append_right _ List.mem_cons_self
    obtain ⟨drawn', e, hdrawn', he, hrole, hlabel, hfields⟩ := hcopies.new o c hmem
    rw [hdrawn] at hdrawn'
    cases hdrawn'
    have hends : ∀ isSource, (linked copies s drawn e).endAt isSource =
        copyOf? copies (drawn.endAt isSource) := by
      intro isSource
      cases isSource <;> rfl
    have hleft := hget before after o c drawn hsplit hdrawn
    rw [if_neg (by rw [hwhole]; exact Bool.false_ne_true), he, Option.map_some,
      Option.map_some] at hleft
    refine ⟨_, hleft, ?_⟩
    rw [shift_eq]
    refine ⟨⟨?_, ?_, ?_⟩, ?_, fun isSource a => ?_⟩
    · rw [shift_eq]
      simp only [Element.role_detachAll, Element.label_detachAll]
      show movedLabel _ e.role e.label = movedLabel _ drawn.role drawn.label
      rw [hrole, hlabel]
    · simp only [Element.fields_detachAll]
      exact hfields
    · simp only [Element.parent_detachAll]
      rfl
    · simp only [Element.role_detachAll]
      exact hrole
    · rw [← hends]
      exact Element.endAt_detachAll _ _ isSource a

/-! ## Importing -/

/-- **However the copies are visited**, importing puts copies into new slots and changes
nothing else, but for ends. -/
theorem imprint_of_perm {members : List Slot} (hcopies : Copies drawing d d₁ members copies)
    (hbound : 0 < d.bound) (hperm : order.Perm copies) :
    Imprint drawing s offset members d
      (shiftAll (Word.signed offset) (order.map Prod.snd)
        (relinkAll drawing s copies order d₁)) copies := by
  have hnodup := nodup_of_perm hcopies hperm
  have hvisitable := visitable_of_perm hcopies hbound hperm
  have hrelinked : Relinked drawing copies s offset order _ :=
    relinked_of_perm hcopies hbound hperm
  refine ⟨hcopies.originals, hcopies.slots, ?_, fun j hj => ?_, fun o c x hmem hx => ?_,
    fun o c drawn hmem hdrawn hwhole => ?_⟩
  · rw [bound_shiftAll, bound_relinkAll, hcopies.bound]
  · have hj' : j ∉ order.map Prod.snd := by
      intro hmem
      rw [(hperm.map Prod.snd).mem_iff, hcopies.slots, List.mem_range'_1] at hmem
      exact Nat.not_le_of_lt hj hmem.1
    rw [core?_shiftAll hnodup, if_neg hj', Diagram.core?, get?_relinkAll_of_not_mem hvisitable hj',
      hcopies.old j hj, Option.map_map, Diagram.core?]
    congr 1
    exact funext fun e => Element.core_detachAll _ e
  · obtain ⟨drawn, -, hdrawn, -⟩ := hcopies.new o c hmem
    obtain ⟨before, after, hsplit⟩ := List.append_of_mem (hperm.mem_iff.mpr hmem)
    obtain ⟨e, he, rfl⟩ := Diagram.core?_eq_some.mp hx
    cases hbroken : isBroken copies drawn with
    | true =>
      rw [hrelinked.gone o c drawn (hperm.mem_iff.mpr hmem) hdrawn hbroken] at he
      cases he
    | false =>
      obtain ⟨e', he', hcopy⟩ := hrelinked.left before after o c drawn hsplit hdrawn hbroken
      rw [he] at he'
      cases he'
      exact ⟨drawn, hdrawn, hcopy.role, hcopy.label, hcopy.fields, hcopy.parent⟩
  · obtain ⟨before, after, hsplit⟩ := List.append_of_mem (hperm.mem_iff.mpr hmem)
    obtain ⟨e, he, -⟩ := hrelinked.left before after o c drawn hsplit hdrawn hwhole
    exact ⟨e.core, Diagram.core?_of_get? he⟩

theorem importVisiting_runs {visit : List (Slot × Slot) → List (Slot × Slot)} {naming : Naming}
    {owner : Locator} {t : Topology} {interfaces : List Slot} {u : Unit} (hbound : 0 < d.bound)
    (hvisit : ∀ copies, (visit copies).Perm copies)
    (h : Edit.Runs (importVisiting visit naming s owner drawing t interfaces offset) d u d') :
    ∃ copies, Imprint drawing s offset (members drawing t interfaces) d d' copies := by
  rw [importVisiting, Edit.runs_bind] at h
  obtain ⟨copies, d₁, hcopy, h⟩ := h
  rw [Edit.runs_update_bind, Edit.runs_update] at h
  subst h
  exact ⟨copies, imprint_of_perm (copyAll_runs hcopy) hbound (hvisit copies)⟩

end Netlist.Assembly
