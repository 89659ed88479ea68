import Netlist.Violation

/-!
# Marking a subtree

What is inside an element can be found with one mark for each slot. A pass goes over the
elements in order and marks those whose parent is marked, and passes are made until one of
them marks nothing: parents may come after their children, so one pass is not enough.

A mark is looked up by its slot, and looking up the mark of a slot that was never issued
fails.
-/

namespace Netlist.Diagram

/-- The mark of a slot. -/
def markAt (marks : Array Bool) (i : Slot) : Except Fault Bool :=
  match marks[i]? with
  | some mark => .ok mark
  | none => .error (.absent i)

/-- Whether an element is to be marked: it is not, and its parent is. -/
def isDue (marks : Array Bool) (i : Slot) (e : Element) : Except Fault Bool := do
  if ← markAt marks i then
    return false
  match e.parent with
  | none => return false
  | some p => markAt marks p

/-- A pass over some elements. A mark counts as soon as it is made; `grew` says whether
the pass has made one so far. -/
def sweepOnce (marks : Array Bool) (grew : Bool) :
    List (Slot × Element) → Except Fault (Array Bool × Bool)
  | [] => .ok (marks, grew)
  | (i, e) :: rest => do
    if ← isDue marks i e then
      sweepOnce (marks.setIfInBounds i true) true rest
    else
      sweepOnce marks grew rest

/-- How many slots have no mark. -/
def unmarkedCount (marks : Array Bool) : Nat := marks.toList.countP (! ·)

theorem isDue_eq_true {marks : Array Bool} {i : Slot} {e : Element}
    (h : isDue marks i e = .ok true) :
    marks[i]? = some false ∧ ∃ p, e.parent = some p ∧ marks[p]? = some true := by
  unfold isDue markAt at h
  cases hi : marks[i]? with
  | none => rw [hi] at h; cases h
  | some mark =>
    rw [hi] at h
    cases mark with
    | true => cases h
    | false =>
      refine ⟨rfl, ?_⟩
      cases hp : e.parent with
      | none => rw [hp] at h; cases h
      | some p =>
        rw [hp] at h
        refine ⟨p, rfl, ?_⟩
        cases hmark : marks[p]? with
        | none => simp [hmark, bind, Except.bind] at h
        | some mark => simpa [hmark, bind, Except.bind] using h

theorem unmarkedCount_set {marks : Array Bool} {i : Slot} (h : marks[i]? = some false) :
    unmarkedCount (marks.setIfInBounds i true) + 1 = unmarkedCount marks := by
  obtain ⟨hlt, hget⟩ := Array.getElem?_eq_some_iff.mp h
  have hpos : 0 < marks.toList.countP (! ·) :=
    List.countP_pos_iff.mpr ⟨false, by rw [← hget]; exact Array.getElem_mem_toList hlt, rfl⟩
  rw [unmarkedCount, Array.toList_setIfInBounds, List.countP_set (by simpa using hlt),
    Array.getElem_toList, hget]
  show marks.toList.countP (! ·) - 1 + 0 + 1 = marks.toList.countP (! ·)
  omega

/-- A pass that makes a mark leaves fewer slots without one. -/
theorem unmarkedCount_sweepOnce {elements : List (Slot × Element)} {marks marks' : Array Bool}
    {grew : Bool} (h : sweepOnce marks grew elements = .ok (marks', true)) :
    grew = true ∧ unmarkedCount marks' ≤ unmarkedCount marks ∨
      unmarkedCount marks' < unmarkedCount marks := by
  induction elements generalizing marks grew with
  | nil =>
    cases h
    exact .inl ⟨rfl, Nat.le_refl _⟩
  | cons x rest ih =>
    obtain ⟨i, e⟩ := x
    rw [sweepOnce] at h
    cases hdue : isDue marks i e with
    | error fault => rw [hdue] at h; cases h
    | ok due =>
      rw [hdue] at h
      cases due with
      | false => exact ih h
      | true =>
        have hcount := unmarkedCount_set (isDue_eq_true hdue).1
        have hrest := ih h
        omega

/-- Passes over the elements of a diagram until one of them marks nothing. -/
def sweep (d : Diagram) (marks : Array Bool) : Except Fault (Array Bool) :=
  match _h : sweepOnce marks false d.elements with
  | .error fault => .error fault
  | .ok (marks', false) => .ok marks'
  | .ok (marks', true) => sweep d marks'
termination_by unmarkedCount marks
decreasing_by
  have := unmarkedCount_sweepOnce _h
  simp only [Bool.false_eq_true, false_and, false_or] at this
  exact this

/-- The slots that are marked once an element and everything inside it is. -/
def doomed (d : Diagram) (i : Slot) : Except Fault (List Slot) := do
  let marks ← d.sweep ((Array.replicate d.bound false).setIfInBounds i true)
  return (List.range marks.size).filter fun j => marks[j]? == some true

end Netlist.Diagram
