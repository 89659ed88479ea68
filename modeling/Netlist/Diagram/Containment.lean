import Netlist.Violation

/-!
# Containment

Parents form a tree under the root, unless a broken document makes a chain of
parents loop. The queries here terminate on every diagram: `lineage` follows
the parents of an element until they end or repeat, and everything else is
read off lineages, but for `descendants`, which searches downwards.
-/

namespace Netlist.Diagram

/-- The parents above an element, nearest first, and the one at which they
start over if they loop. -/
structure Lineage where
  ancestors : List Slot
  loop : Option Slot
deriving DecidableEq, Repr

/-- Follows parents from `next`. The chain ends at the root, at a missing
parent, or at a slot already in `seen`; `fuel` bounds its length. -/
def climb (d : Diagram) : Nat → List Slot → Option Slot → Lineage
  | 0, _, _ => ⟨[], none⟩
  | _, _, none => ⟨[], none⟩
  | fuel + 1, seen, some i =>
    match d.get? i with
    | none => ⟨[], none⟩
    | some e =>
      if seen.contains i then ⟨[], some i⟩
      else if i = root then ⟨[i], none⟩
      else
        let above := climb d fuel (i :: seen) e.parent
        ⟨i :: above.ancestors, above.loop⟩

/-- The lineage of an element. -/
def lineage (d : Diagram) (i : Slot) : Lineage :=
  d.climb (d.bound + 1) [] ((d.get? i).bind Element.parent)

/-- The violation of a loop that passes through a slot. -/
def cycleAt (d : Diagram) (i : Slot) : Except Fault α :=
  (d.fetch i).bind fun e => .error (.violation (.cyclicContainment e.locator))

/-- The nearest element above `i` that passes a test. Fails on a loop without one. -/
def nearestAncestor (d : Diagram) (i : Slot) (p : Slot → Element → Bool) :
    Except Fault (Option Slot) :=
  let line := d.lineage i
  match line.ancestors.find? fun a => (d.get? a).any (p a) with
  | some a => .ok (some a)
  | none =>
    match line.loop with
    | some a => d.cycleAt a
    | none => .ok none

/-- Whether `container` lies above `i`. -/
def isDescendant (d : Diagram) (i container : Slot) : Except Fault Bool :=
  (d.nearestAncestor i fun a _ => a == container).map Option.isSome

/-- Searches downwards from the slots in `pending`; every slot that is met is
added to `seen` once. -/
def reach (d : Diagram) : Nat → List Slot → List Slot → List Slot
  | 0, _, seen => seen
  | _, [], seen => seen
  | fuel + 1, i :: pending, seen =>
    let new := (d.select fun e => e.parent == some i).filter (!seen.contains ·)
    reach d fuel (new ++ pending) (new ++ seen)

/-- Everything inside `container`, directly or not, in increasing order. -/
def descendants (d : Diagram) (container : Slot) : List Slot :=
  if d.isLive container then
    let found := d.reach (d.bound + 1) [container] [container]
    (List.range d.bound).filter fun i => i != container && found.contains i
  else []

/-! ## Loops -/

/-- The first `count` parents above `i`, repetitions included. -/
def ascend (d : Diagram) : Nat → Slot → List Slot
  | 0, _ => []
  | count + 1, i =>
    match (d.get? i).bind Element.parent with
    | some p => if d.isLive p then p :: ascend d count p else []
    | none => []

/-- The elements of the loop through `i`, with `i` last; none if the parents of
`i` do not lead back to it. -/
def loopThrough? (d : Diagram) (i : Slot) : Option (List Slot) :=
  let chain := d.ascend d.bound i
  if chain.contains i then some (chain.takeWhile (· != i) ++ [i]) else none

/-- The element that a check of the whole document reports: the first element
that is its own parent, else the parent of the lowest element of a loop, in
the loop whose lowest element comes last. -/
def loopWitness? (d : Diagram) : Option Slot :=
  let live := d.select fun _ => true
  match live.find? fun i => (d.get? i).any (·.parent == some i) with
  | some i => some i
  | none =>
    let lowest := live.filter fun i => (d.loopThrough? i).any fun loop => loop.all (i ≤ ·)
    lowest.getLast?.bind fun i => (d.get? i).bind Element.parent

/-- Checks that no element is inside itself. -/
def validate (d : Diagram) : Except Fault Unit :=
  match d.loopWitness? with
  | some i => d.cycleAt i
  | none => .ok ()

end Netlist.Diagram
