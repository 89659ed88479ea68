import Mathlib.Data.List.Sort
import Netlist.Diagram.Sweep
import Netlist.Proofs.Diagram.Subtree

/-!
# Marks find what is inside

Passing over a diagram with one mark for each slot ends with marks on an element and what is
inside it, unless the mark of a slot is looked up that was never issued. That cannot happen
as long as every parent was issued.

- `Marking`: marks on an element and on nothing that is outside it.
- `Marking.sweepOnce`, `Marking.sweep`: what one pass does, and all of them.
- `eq_subtree_of_doomed`: what the marks find is the subtree of the element.
- `doomed_eq_ok`: **if every parent was issued, the marks find the subtree.**
-/

namespace Netlist.Diagram

variable {d : Diagram} {i top p : Slot} {e : Element} {marks marks' : Array Bool}
  {grew grew' : Bool} {elements : List (Slot × Element)} {slots : List Slot}

/-! ## What the marks say -/

/-- There is a mark for each slot; one is on an element, and the others are on elements
inside it. -/
structure Marking (d : Diagram) (top : Slot) (marks : Array Bool) : Prop where
  size : marks.size = d.bound
  marked : marks[top]? = some true
  sound : ∀ j, marks[j]? = some true → j = top ∨ d.Inside j top

/-- An element that is not to be marked has no marked parent, unless it is marked itself. -/
theorem marked_of_isDue (h : isDue marks i e = .ok false) (hp : e.parent = some p)
    (hparent : marks[p]? = some true) : marks[i]? = some true := by
  unfold isDue markAt at h
  rw [hp] at h
  cases hi : marks[i]? with
  | none =>
    rw [hi] at h
    cases h
  | some mark =>
    cases mark with
    | true => rfl
    | false =>
      simp only [hi, hparent] at h
      cases h

/-- An element that is to be marked is inside the element the marks started from. -/
theorem Marking.set (h : Marking d top marks) (he : d.get? i = some e)
    (hdue : isDue marks i e = .ok true) : Marking d top (marks.setIfInBounds i true) := by
  obtain ⟨hi, p, hp, hparent⟩ := isDue_eq_true hdue
  refine ⟨by rw [Array.size_setIfInBounds, h.size], ?_, fun j hj => ?_⟩
  · rw [Array.getElem?_setIfInBounds_ne]
    · exact h.marked
    · rintro rfl
      rw [h.marked] at hi
      cases hi
  · by_cases hij : i = j
    · subst hij
      rcases h.sound p hparent with rfl | hin
      · exact .inr (.single ⟨e, he, hp⟩)
      · exact .inr (hin.head ⟨e, he, hp⟩)
    · rw [Array.getElem?_setIfInBounds_ne hij] at hj
      exact h.sound j hj

/-- A pass keeps to the elements inside; if it marks nothing, nothing it met was left to mark. -/
theorem Marking.sweepOnce (h : Marking d top marks) (hlive : ∀ x ∈ elements, d.get? x.1 = some x.2)
    (hok : Diagram.sweepOnce marks grew elements = .ok (marks', grew')) :
    Marking d top marks' ∧
      (grew' = false → grew = false ∧ marks' = marks ∧ ∀ x ∈ elements, ∀ p, x.2.parent = some p →
        marks[p]? = some true → marks[x.1]? = some true) := by
  induction elements generalizing marks grew with
  | nil =>
    cases hok
    exact ⟨h, fun hgrew => ⟨hgrew, rfl, List.forall_mem_nil _⟩⟩
  | cons x rest ih =>
    obtain ⟨i, e⟩ := x
    obtain ⟨he, hrest⟩ := List.forall_mem_cons.mp hlive
    rw [Diagram.sweepOnce] at hok
    cases hdue : isDue marks i e with
    | error fault =>
      rw [hdue] at hok
      cases hok
    | ok due =>
      rw [hdue] at hok
      cases due with
      | true =>
        obtain ⟨hmarking, hquiet⟩ := ih (h.set he hdue) hrest hok
        exact ⟨hmarking, fun hgrew => absurd (hquiet hgrew).1.symm Bool.false_ne_true⟩
      | false =>
        obtain ⟨hmarking, hquiet⟩ := ih h hrest hok
        refine ⟨hmarking, fun hgrew => ?_⟩
        obtain ⟨hfirst, hsame, hothers⟩ := hquiet hgrew
        have hthis : ∀ p, e.parent = some p → marks[p]? = some true → marks[i]? = some true :=
          fun p => marked_of_isDue hdue
        exact ⟨hfirst, hsame, List.forall_mem_cons.mpr ⟨hthis, hothers⟩⟩

/-- All passes together leave a mark on everything whose parent is marked. -/
theorem Marking.sweep (h : Marking d top marks) (hok : d.sweep marks = .ok marks') :
    Marking d top marks' ∧
      ∀ j p, d.HasParent j p → marks'[p]? = some true → marks'[j]? = some true := by
  fun_induction d.sweep marks with
  | case1 marks fault hpass => cases hok
  | case2 marks marks'' hpass =>
    cases hok
    obtain ⟨hmarking, hquiet⟩ := h.sweepOnce (fun x hx => mem_elements.mp hx) hpass
    obtain ⟨-, rfl, hclosed⟩ := hquiet rfl
    exact ⟨hmarking, fun j p ⟨e, he, hp⟩ => hclosed (j, e) (mem_elements.mpr he) p hp⟩
  | case3 marks marks'' hpass ih =>
    exact ih (h.sweepOnce (fun x hx => mem_elements.mp hx) hpass).1 hok

/-- The marks before the first pass. -/
theorem marking_first (he : d.get? i = some e) :
    Marking d i ((Array.replicate d.bound false).setIfInBounds i true) := by
  have hbound := lt_bound_of_get? he
  refine ⟨by simp, by simp [hbound], fun j hj => ?_⟩
  by_cases hij : i = j
  · exact .inl hij.symm
  · rw [Array.getElem?_setIfInBounds_ne hij, Array.getElem?_replicate] at hj
    split at hj <;> cases hj

/-- What the marks find is the subtree of the element. -/
theorem eq_subtree_of_doomed (he : d.get? i = some e) (hok : d.doomed i = .ok slots) :
    slots = d.subtree i := by
  unfold doomed at hok
  obtain ⟨marks, hsweep, hslots⟩ := bind_eq_ok.mp hok
  cases hslots
  obtain ⟨hmarking, hclosed⟩ := (marking_first he).sweep hsweep
  have hmem : ∀ j, marks[j]? = some true ↔ j = i ∨ d.Inside j i := by
    refine fun j => ⟨hmarking.sound j, ?_⟩
    rintro (rfl | hin)
    · exact hmarking.marked
    · induction hin using Relation.TransGen.head_induction_on with
      | single hp => exact hclosed _ _ hp hmarking.marked
      | head hp _ ih => exact hclosed _ _ hp ih
  -- Both lists take some of the slots in order, so they are told by their members.
  refine List.Pairwise.eq_of_mem_iff (List.pairwise_lt_range.filter _)
    (List.pairwise_lt_range.filter _) fun j => ?_
  rw [mem_subtree he, List.mem_filter, beq_iff_eq, hmem, List.mem_range, hmarking.size]
  refine ⟨And.right, fun hin => ⟨?_, hin⟩⟩
  rcases hin with rfl | hin
  · exact lt_bound_of_get? he
  · obtain ⟨x, hx⟩ := hin.live
    exact lt_bound_of_get? hx

/-! ## Every mark is there -/

theorem exists_markAt (h : i < marks.size) : ∃ mark, markAt marks i = .ok mark := by
  rw [markAt, Array.getElem?_eq_getElem h]
  exact ⟨_, rfl⟩

/-- Whether an element is to be marked can be told if its parent was issued. -/
theorem exists_isDue (hsize : marks.size = d.bound) (hissued : d.Issued) (he : d.get? i = some e) :
    ∃ due, isDue marks i e = .ok due := by
  have hlt : i < marks.size := by
    rw [hsize]
    exact lt_bound_of_get? he
  obtain ⟨mark, hmark⟩ := exists_markAt hlt
  unfold isDue
  rw [hmark]
  cases mark with
  | true => exact ⟨_, rfl⟩
  | false =>
    cases hp : e.parent with
    | none => exact ⟨_, rfl⟩
    | some p => exact exists_markAt (by rw [hsize]; exact hissued i p ⟨e, he, hp⟩)

theorem exists_sweepOnce (hsize : marks.size = d.bound) (hissued : d.Issued)
    (hlive : ∀ x ∈ elements, d.get? x.1 = some x.2) :
    ∃ marks' grew', sweepOnce marks grew elements = .ok (marks', grew') ∧
      marks'.size = d.bound := by
  induction elements generalizing marks grew with
  | nil => exact ⟨marks, grew, rfl, hsize⟩
  | cons x rest ih =>
    obtain ⟨he, hrest⟩ := List.forall_mem_cons.mp hlive
    obtain ⟨due, hdue⟩ := exists_isDue hsize hissued he
    rw [sweepOnce, hdue]
    cases due with
    | true => exact ih (by rw [Array.size_setIfInBounds, hsize]) hrest
    | false => exact ih hsize hrest

theorem exists_sweep (hsize : marks.size = d.bound) (hissued : d.Issued) :
    ∃ marks', d.sweep marks = .ok marks' := by
  fun_induction d.sweep marks with
  | case1 marks fault hpass =>
    obtain ⟨_, _, hok, -⟩ := exists_sweepOnce hsize hissued fun x hx => mem_elements.mp hx
    rw [hpass] at hok
    cases hok
  | case2 marks marks' hpass => exact ⟨marks', rfl⟩
  | case3 marks marks' hpass ih =>
    obtain ⟨_, _, hok, hsize'⟩ := exists_sweepOnce hsize hissued fun x hx => mem_elements.mp hx
    rw [hpass] at hok
    cases hok
    exact ih hsize'

/-- **If every parent was issued, the marks find the subtree of an element.** -/
theorem doomed_eq_ok (hissued : d.Issued) (he : d.get? i = some e) :
    d.doomed i = .ok (d.subtree i) := by
  obtain ⟨marks, hsweep⟩ := exists_sweep (marking_first he).size hissued
  have hok : d.doomed i = .ok ((List.range marks.size).filter fun j => marks[j]? == some true) := by
    unfold doomed
    rw [hsweep]
    rfl
  rw [hok, eq_subtree_of_doomed he hok]

end Netlist.Diagram
