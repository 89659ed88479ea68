import Netlist.Strict.Lookup

/-!
# Searches of the containment graph

Containment is a graph with an edge from every element to each element directly inside it.
Two searches go through it with one mark for each slot and a stack. The first finds what is
inside an element. The second puts all elements into an order in which whatever is inside an
element comes after it; the order is checked afterwards, and it has such a place for every
element unless containment loops.

An element that is its own parent is directly inside itself.
-/

namespace Netlist.Strict

open Diagram (markAt unmarkedCount)

/-- The elements whose parent is in a slot, in order. -/
def below (d : Diagram) (i : Slot) : List Slot := d.select fun e => e.parent == some i

/-- The listed slots without a mark. -/
def unmarked (marks : Array Bool) : List Slot → Except Fault (List Slot)
  | [] => .ok []
  | i :: rest => do
    let isMarked ← markAt marks i
    let later ← unmarked marks rest
    return if isMarked then later else i :: later

/-! ## What is inside an element -/

/-- The slots that are met from a stack of slots on, each once. -/
def search (d : Diagram) (marks : Array Bool) : List Slot → Except Fault (List Slot)
  | [] => .ok []
  | i :: pending =>
    match _h : markAt marks i with
    | .error fault => .error fault
    | .ok true => search d marks pending
    | .ok false => do
      let new ← unmarked (marks.setIfInBounds i true) (below d i)
      let later ← search d (marks.setIfInBounds i true) (new ++ pending)
      return i :: later
termination_by pending => (unmarkedCount marks, pending.length)
decreasing_by
  · exact .right _ (Nat.lt_succ_self _)
  · refine .left _ _ ?_
    rw [← Diagram.unmarkedCount_set (markAt_eq_ok.mp _h)]
    exact Nat.lt_succ_self _

/-- Everything inside `container`, directly or not, in increasing order. -/
def descendants (d : Diagram) (container : Slot) : Except Fault (List Slot) :=
  if d.isLive container then do
    let found ← search d (Array.replicate d.bound false) [container]
    return (found.filter (· != container)).mergeSort
  else .ok []

/-- Whether `container` lies above `i`. -/
def isDescendant (d : Diagram) (i container : Slot) : Except Fault Bool :=
  (nearestAncestor d i fun a _ => a == container).map Option.isSome

/-! ## An order for all elements -/

/-- What was sorted so far. An element is finished once everything inside it is; the order
begins with the element that was finished last. -/
structure Sorting where
  met : Array Bool
  finished : Array Bool
  order : List Slot

/-- Meets and finishes everything that can be met from a stack of slots. An element stays on
the stack until what is inside it is finished. Fails at an element that is inside itself
directly. -/
def finish (d : Diagram) (s : Sorting) : List Slot → Except Fault Sorting
  | [] => .ok s
  | i :: pending =>
    match _h : markAt s.met i with
    | .error fault => .error fault
    | .ok false =>
      if (below d i).contains i then d.cycleAt i
      else do
        let new ← unmarked (s.met.setIfInBounds i true) (below d i)
        finish d { s with met := s.met.setIfInBounds i true } (new ++ i :: pending)
    | .ok true => do
      if ← markAt s.finished i then finish d s pending
      else
        finish d { s with finished := s.finished.setIfInBounds i true, order := i :: s.order } pending
termination_by pending => (unmarkedCount s.met, pending.length)
decreasing_by
  · refine .left _ _ ?_
    rw [← Diagram.unmarkedCount_set (markAt_eq_ok.mp _h)]
    exact Nat.lt_succ_self _
  · exact .right _ (Nat.lt_succ_self _)
  · exact .right _ (Nat.lt_succ_self _)

/-- Starts from every listed element that was not met before. -/
def finishAll (d : Diagram) (s : Sorting) : List Slot → Except Fault Sorting
  | [] => .ok s
  | i :: rest => do
    if ← markAt s.met i then finishAll d s rest
    else finishAll d (← finish d s [i]) rest

/-- Checks that every element of an order comes after its parent; reports the parent that
comes too late. -/
def checkOrder (d : Diagram) (marks : Array Bool) : List Slot → Except Fault Unit
  | [] => .ok ()
  | i :: rest => do
    if ← markAt marks i then checkOrder d marks rest
    else
      let marks := marks.setIfInBounds i true
      match ((d.get? i).bind Element.parent).filter d.isLive with
      | none => checkOrder d marks rest
      | some p =>
        if ← markAt marks p then checkOrder d marks rest
        else d.cycleAt p

/-- Checks that no element is inside itself. -/
def validate (d : Diagram) : Except Fault Unit := do
  let none := Array.replicate d.bound false
  let sorted ← finishAll d ⟨none, none, []⟩ (d.select fun _ => true)
  checkOrder d none sorted.order

end Netlist.Strict
