import Netlist.Diagram.Containment
import Netlist.Diagram.Sweep

/-!
# Strict lookups

The queries of a diagram pass over a slot that holds no element. Here lookups are strict:
an empty slot, and one that was never issued, fails with `Fault.absent`, which says that
the work has gone wrong and not the document. Searches that keep one mark for each slot
look up the marks strictly too, and they have no fuel: such a search makes another mark
as long as it goes on.
-/

namespace Netlist.Strict

open Diagram (root markAt unmarkedCount)

/-- Looks up all listed elements. -/
def look (d : Diagram) : List Slot → Except Fault Unit
  | [] => .ok ()
  | i :: rest => do
    let _ ← d.fetch i
    look d rest

theorem markAt_eq_ok {marks : Array Bool} {i : Slot} {mark : Bool} :
    markAt marks i = .ok mark ↔ marks[i]? = some mark := by
  rw [markAt]
  cases marks[i]? <;> simp

/-- Goes up from parent to parent to the first element that passes a test. The search ends
at the root and at a missing parent, and it fails at an element that is marked already. -/
def walk (d : Diagram) (p : Slot → Element → Bool) (marks : Array Bool) :
    Option Slot → Except Fault (Option Slot)
  | none => .ok none
  | some i =>
    match d.get? i with
    | none => .ok none
    | some e =>
      if p i e then .ok (some i)
      else if i = root then .ok none
      else
        match _h : markAt marks i with
        | .error fault => .error fault
        | .ok true => .error (.violation (.cyclicContainment e.locator))
        | .ok false => walk d p (marks.setIfInBounds i true) e.parent
termination_by unmarkedCount marks
decreasing_by
  rw [← Diagram.unmarkedCount_set (markAt_eq_ok.mp _h)]
  exact Nat.lt_succ_self _

/-- The nearest element above `i` that passes a test. -/
def nearestAncestor (d : Diagram) (i : Slot) (p : Slot → Element → Bool) :
    Except Fault (Option Slot) :=
  walk d p (Array.replicate d.bound false) ((d.get? i).bind Element.parent)

/-- Removes an element and everything that is marked with it; gives how many went. -/
def removeSubtree (d : Diagram) (i : Slot) : Except Fault (Nat × Diagram) :=
  match d.removable? i with
  | none => .ok (0, d)
  | some _ => do
    let doomed ← d.doomed i
    return (doomed.countP fun j => (d.removable? j).isSome, doomed.foldl Diagram.remove d)

/-- Removes listed elements one after the other, each of which must be there. -/
def removeEach : List Slot → Diagram → Except Fault Diagram
  | [], d => .ok d
  | i :: rest, d => do
    let _ ← d.fetch i
    removeEach rest (d.remove i)

end Netlist.Strict
