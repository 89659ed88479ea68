import Netlist.Proofs.Diagram.Children
import Netlist.Proofs.Diagram.Issued
import Netlist.Proofs.Diagram.Loops
import Netlist.Proofs.Diagram.Sweep
import Netlist.Proofs.Edit.Guards
import Netlist.Strict.Assembly

/-!
# Strict lookups that find what they look for

A strict search does what the usual one does, and a lookup finds its element: what is
inside an element, above it or at an end of it was read off the diagram itself.

- `Finds x`: a check that is not cut short by a lookup.
- `nearestAncestor_eq`: **the strict search upwards comes out as the usual one**, on every
  diagram. It goes through each slot once at most, so the fuel of the usual one lasts.
- `finds_nearestAncestor`, `finds_validate`: the element a loop is reported at is there.
- `removeSubtree_eq`, `clear_eq`: **marks lead to the same removals** as long as all parents
  were issued.
-/

namespace Netlist.Strict

open Diagram (root markAt)

variable {d : Diagram} {i : Slot} {slots : List Slot} {p : Slot → Element → Bool}

/-! ## Failures of lookups -/

/-- Whether a fault is that of a lookup. -/
def isLost : Fault → Bool
  | .absent _ => true
  | .violation _ => false

/-- Whether a failure is that of a lookup. -/
def isLostIn : Failure → Bool
  | .fault cause _ => isLost cause
  | _ => false

/-- A check that is not cut short by a lookup. -/
abbrev Finds {α : Type} (x : Except Fault α) : Prop := Never isLost x

theorem finds_violation {α : Type} {v : Violation} :
    Finds (.error (.violation v) : Except Fault α) := never_error rfl

theorem finds_fetch {e : Element} (he : d.get? i = some e) : Finds (d.fetch i) := by
  rw [Diagram.fetch_eq_ok.mpr he]
  exact never_ok

theorem look_eq_ok : look d slots = .ok () ↔ ∀ i ∈ slots, ∃ e, d.get? i = some e := by
  induction slots with
  | nil => simp [look]
  | cons i slots ih =>
    rw [look, bind_eq_ok, List.forall_mem_cons]
    simp only [Diagram.fetch_eq_ok, ih, exists_and_right]

/-- What is inside an element can be looked up. -/
@[simp] theorem look_descendants (d : Diagram) (c : Slot) : look d (d.descendants c) = .ok () :=
  look_eq_ok.mpr fun _ hi => (Diagram.mem_descendants.mp hi).2.2.live

theorem exists_of_mem_children {c : Slot} (h : i ∈ d.children c) : ∃ e, d.get? i = some e := by
  obtain ⟨e, he, -⟩ := (Diagram.mem_children.mp h).1
  exact ⟨e, he⟩

/-! ## Searching upwards -/

/-- What a search upwards makes of the elements it goes through. -/
def conclude (d : Diagram) (p : Slot → Element → Bool) (line : Diagram.Lineage) :
    Except Fault (Option Slot) :=
  match line.ancestors.find? fun a => (d.get? a).any (p a) with
  | some a => .ok (some a)
  | none =>
    match line.loop with
    | some a => d.cycleAt a
    | none => .ok none

/-- An element that does not pass the test is gone through. -/
theorem conclude_cons {e : Element} {above : List Slot} {loop : Option Slot}
    (he : d.get? i = some e) :
    conclude d p ⟨i :: above, loop⟩ = if p i e then .ok (some i) else conclude d p ⟨above, loop⟩ := by
  rw [conclude]
  cases hpass : p i e with
  | true =>
    rw [List.find?_cons_of_pos (by rw [he]; exact hpass)]
    rfl
  | false =>
    rw [List.find?_cons_of_neg (by rw [he, Option.any_some, hpass]; exact Bool.false_ne_true)]
    rfl

/-- The elements that a search upwards has met: they are marked, and none of them passed
the test or was the root. -/
structure Met (d : Diagram) (p : Slot → Element → Bool) (seen : List Slot) (marks : Array Bool) :
    Prop where
  size : marks.size = d.bound
  marked : ∀ j, marks[j]? = some true ↔ j ∈ seen
  nodup : seen.Nodup
  passed : ∀ j ∈ seen, j ≠ root ∧ ∃ e, d.get? j = some e ∧ p j e = false

theorem met_nil (d : Diagram) (p : Slot → Element → Bool) :
    Met d p [] (Array.replicate d.bound false) := by
  refine ⟨Array.size_replicate, fun j => ?_, List.nodup_nil, fun _ hj => nomatch hj⟩
  simp [Array.getElem?_replicate]

theorem Met.cons {seen : List Slot} {marks : Array Bool} {e : Element} (h : Met d p seen marks)
    (he : d.get? i = some e) (hfails : p i e = false) (hroot : i ≠ root) (hnew : i ∉ seen) :
    Met d p (i :: seen) (marks.setIfInBounds i true) where
  size := by rw [Array.size_setIfInBounds, h.size]
  marked := by
    intro j
    have hi : i < marks.size := by
      rw [h.size]
      exact Diagram.lt_bound_of_get? he
    rw [List.mem_cons, Array.getElem?_setIfInBounds]
    by_cases hj : i = j
    · subst hj
      simp [hi]
    · rw [if_neg hj, h.marked]
      exact ⟨.inr, fun hmem => hmem.resolve_left (Ne.symm hj)⟩
  nodup := List.nodup_cons.mpr ⟨hnew, h.nodup⟩
  passed := List.forall_mem_cons.mpr ⟨⟨hroot, e, he, hfails⟩, h.passed⟩

/-- The mark of an element tells whether the search has met it. -/
theorem Met.markAt {seen : List Slot} {marks : Array Bool} {e : Element} (h : Met d p seen marks)
    (he : d.get? i = some e) : Diagram.markAt marks i = .ok (decide (i ∈ seen)) := by
  have hi : i < marks.size := by
    rw [h.size]
    exact Diagram.lt_bound_of_get? he
  rw [markAt_eq_ok]
  by_cases hmem : i ∈ seen
  · rw [decide_eq_true hmem, h.marked]
    exact hmem
  · rw [decide_eq_false hmem]
    have hnot : ¬ marks[i]? = some true := fun hmark => hmem ((h.marked i).mp hmark)
    rw [Array.getElem?_eq_getElem hi] at hnot ⊢
    simpa using hnot

/-- A search that comes back to an element fails there. -/
theorem Met.walk_seen {seen : List Slot} {marks : Array Bool} {e : Element} (h : Met d p seen marks)
    (he : d.get? i = some e) (hmem : i ∈ seen) :
    walk d p marks (some i) = .error (.violation (.cyclicContainment e.locator)) := by
  obtain ⟨hroot, e', he', hfails⟩ := h.passed i hmem
  cases he.symm.trans he'
  have hmark := h.markAt he
  rw [decide_eq_true hmem] at hmark
  rw [walk, he]
  dsimp only
  rw [hfails, if_neg Bool.false_ne_true, if_neg hroot]
  split
  · rename_i hmark'
    cases hmark.symm.trans hmark'
  · rfl
  · rename_i hmark'
    cases hmark.symm.trans hmark'

/-- A search that meets an element for the first time marks it, if it goes on. -/
theorem Met.walk_new {seen : List Slot} {marks : Array Bool} {e : Element} (h : Met d p seen marks)
    (he : d.get? i = some e) (hnew : i ∉ seen) :
    walk d p marks (some i) =
      if p i e then .ok (some i)
      else if i = root then .ok none
      else walk d p (marks.setIfInBounds i true) e.parent := by
  have hmark := h.markAt he
  rw [decide_eq_false hnew] at hmark
  rw [walk, he]
  dsimp only
  refine if_congr Iff.rfl rfl (if_congr Iff.rfl rfl ?_)
  split
  · rename_i hmark'
    cases hmark.symm.trans hmark'
  · rename_i hmark'
    cases hmark.symm.trans hmark'
  · rfl

theorem walk_eq_conclude {fuel : Nat} {seen : List Slot} {marks : Array Bool} {o : Option Slot}
    (h : Met d p seen marks) (hfuel : d.bound < fuel + seen.length) :
    walk d p marks o = conclude d p (d.climb fuel seen o) := by
  induction fuel generalizing seen marks o with
  | zero =>
    -- The slots seen are distinct, so there cannot be more of them than were issued.
    have := Diagram.length_le_bound h.nodup fun j hj => by
      obtain ⟨-, e, he, -⟩ := h.passed j hj
      exact Diagram.lt_bound_of_get? he
    omega
  | succ fuel ih =>
    cases o with
    | none =>
      rw [walk, Diagram.climb]
      · rfl
      · intro h
        cases h
    | some i =>
      cases he : d.get? i with
      | none =>
        rw [walk, Diagram.climb, he]
        rfl
      | some e =>
        rw [Diagram.climb, he]
        dsimp only
        by_cases hmem : i ∈ seen
        · rw [h.walk_seen he hmem, if_pos (List.contains_iff_mem.mpr hmem), conclude, List.find?_nil]
          dsimp only
          rw [Diagram.cycleAt, Diagram.fetch_eq_ok.mpr he]
          rfl
        · rw [h.walk_new he hmem, if_neg (mt List.contains_iff_mem.mp hmem)]
          by_cases hroot : i = root
          · rw [if_pos hroot, if_pos hroot, conclude_cons he]
            rfl
          · rw [if_neg hroot, if_neg hroot, conclude_cons he]
            cases hpass : p i e with
            | true => rfl
            | false =>
              rw [if_neg Bool.false_ne_true, if_neg Bool.false_ne_true]
              refine ih (h.cons he hpass hroot hmem) ?_
              rw [List.length_cons]
              omega

/-- **The strict search upwards comes out as the usual one.** -/
theorem nearestAncestor_eq (d : Diagram) (i : Slot) (p : Slot → Element → Bool) :
    nearestAncestor d i p = d.nearestAncestor i p := by
  rw [nearestAncestor, walk_eq_conclude (met_nil d p) (Nat.lt_succ_self d.bound)]
  rfl

/-! ## Loops -/

/-- Parents start over at an element that is there. -/
theorem exists_of_loop {fuel : Nat} {seen : List Slot} {o : Option Slot}
    (h : (d.climb fuel seen o).loop = some i) : ∃ e, d.get? i = some e := by
  induction fuel generalizing seen o with
  | zero => cases h
  | succ fuel ih =>
    cases o with
    | none =>
      rw [Diagram.climb] at h
      · cases h
      · intro h
        cases h
    | some j =>
      rw [Diagram.climb] at h
      cases he : d.get? j with
      | none =>
        rw [he] at h
        cases h
      | some e =>
        rw [he] at h
        dsimp only at h
        split_ifs at h
        · cases h
          exact ⟨e, he⟩
        · exact ih h

theorem finds_cycleAt {α : Type} {e : Element} (he : d.get? i = some e) :
    Finds (d.cycleAt i : Except Fault α) := by
  rw [Diagram.cycleAt, Diagram.fetch_eq_ok.mpr he]
  exact finds_violation

/-- A search upwards does not lose its way. -/
theorem finds_nearestAncestor (d : Diagram) (i : Slot) (p : Slot → Element → Bool) :
    Finds (d.nearestAncestor i p) := by
  rw [Diagram.nearestAncestor]
  split
  · exact never_ok
  · split
    · rename_i hloop
      obtain ⟨e, he⟩ := exists_of_loop hloop
      exact finds_cycleAt he
    · exact never_ok

/-- The element that is reported for a loop is there. -/
theorem exists_of_loopWitness? (h : d.loopWitness? = some i) : ∃ e, d.get? i = some e := by
  rw [Diagram.loopWitness?] at h
  dsimp only at h
  split at h
  · rename_i j hfound
    cases h
    obtain ⟨e, he, -⟩ := Diagram.mem_select.mp (List.mem_of_find?_eq_some hfound)
    exact ⟨e, he⟩
  · -- It is the parent of an element of a loop, and so an element of the loop.
    obtain ⟨j, hlast, hparent⟩ := Option.bind_eq_some_iff.mp h
    obtain ⟨-, hloop⟩ := List.mem_filter.mp (List.mem_of_getLast? hlast)
    obtain ⟨loop, hloop, -⟩ := (Option.any_eq_true _ _).mp hloop
    have hself := Diagram.inside_of_loopThrough? hloop
    have hp : d.HasParent j i := Diagram.bind_parent_eq_some.mp hparent
    rcases hself.step hp with heq | hin
    · rw [heq]
      exact hself.live
    · exact hin.live

theorem finds_validate (d : Diagram) : Finds d.validate := by
  rw [Diagram.validate]
  split
  · rename_i i hfound
    obtain ⟨e, he⟩ := exists_of_loopWitness? hfound
    exact finds_cycleAt he
  · exact never_ok

/-! ## Removals -/

/-- **The marks of a subtree lead to its removal.** -/
theorem removeSubtree_eq (hissued : d.Issued) (i : Slot) :
    removeSubtree d i = .ok (d.removeSubtree i) := by
  rw [removeSubtree, Diagram.removeSubtree]
  cases hi : d.removable? i with
  | none => rfl
  | some e =>
    have he : d.get? i = some e := by
      rw [Diagram.removable?] at hi
      split at hi
      · cases hi
      · exact hi
    dsimp only
    rw [Diagram.doomed_eq_ok hissued he]
    rfl

/-- **Clearing an element by marks clears it.** -/
theorem clear_eq (hissued : d.Issued) (i : Slot) : clear i d = .ok (Assembly.clear i d) := by
  rw [clear, Assembly.clear]
  generalize d.children i = children
  induction children generalizing d with
  | nil => rfl
  | cons c children ih =>
    rw [List.foldlM_cons, List.foldl_cons, removeSubtree_eq hissued]
    refine ih (hissued.of_hasParent ?_ fun _ _ => Diagram.hasParent_removeSubtree)
    rw [Diagram.bound_removeSubtree]

theorem exists_of_remove {e : Element} {j : Slot} (he : d.get? j = some e) (hne : j ≠ i) :
    ∃ e', (d.remove i).get? j = some e' := by
  cases hi : d.removable? i with
  | none =>
    rw [Diagram.remove, hi]
    exact ⟨e, he⟩
  | some x =>
    rw [Diagram.get?_remove (by rw [hi]; rfl), if_neg hne, he]
    exact ⟨_, rfl⟩

/-- Listed elements are removed one after the other, if each is there once. -/
theorem removeEach_eq (hnodup : slots.Nodup) (hlive : ∀ i ∈ slots, ∃ e, d.get? i = some e) :
    removeEach slots d = .ok (slots.foldl Diagram.remove d) := by
  induction slots generalizing d with
  | nil => rfl
  | cons i slots ih =>
    obtain ⟨hi, hnodup⟩ := List.nodup_cons.mp hnodup
    obtain ⟨⟨e, he⟩, hlive⟩ := List.forall_mem_cons.mp hlive
    rw [removeEach, Diagram.fetch_eq_ok.mpr he]
    refine ih hnodup fun j hj => ?_
    obtain ⟨e', he'⟩ := hlive j hj
    exact exists_of_remove he' (ne_of_mem_of_not_mem hj hi)

end Netlist.Strict
