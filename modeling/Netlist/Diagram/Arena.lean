import Mathlib.Data.List.AList
import Netlist.Diagram.Sweep

/-!
# Diagrams with an index

Searching a diagram for an identity goes through all of its slots. An arena keeps an index
beside the slots, with the slot of each identity, so that nothing has to be searched: every
change of the one is a change of the other too.

`Call` is what can be asked of an arena, `Answer` what comes back. A call can be answered with
the help of the index, by `Arena.perform`, or without one, by `Diagram.perform`.
-/

namespace Netlist

open Netlist.Text (Span)

/-! ## Calls and answers -/

/-- A change to one element that leaves its identity alone. -/
inductive Change where
  | role (role : Role)
  | label (text : String)
  | parent (parent : Option Slot)
  | ends (source target : Option Slot)
  | fields (fields : Fields)
  | span (span : Option Span)
deriving DecidableEq

/-- The element after a change. -/
def Change.apply (e : Element) : Change → Element
  | .role r => { e with role := r }
  | .label text => { e with label := text }
  | .parent p => { e with parent := p }
  | .ends s t => { e with source := s, target := t }
  | .fields f => { e with fields := f }
  | .span s => { e with span := s }

@[simp] theorem Change.id_apply (c : Change) (e : Element) : (c.apply e).id = e.id := by
  cases c <;> rfl

/-- What can be asked of an arena. -/
inductive Call where
  | insert (e : Element)
  | rename (i : Slot) (id : String)
  | remove (i : Slot)
  | removeSubtree (i : Slot)
  | edit (i : Slot) (change : Change)
deriving DecidableEq

/-- The parent that a call gives to an element. -/
def Call.parent? : Call → Option Slot
  | .insert e => e.parent
  | .edit _ (.parent p) => p
  | _ => none

/-- What comes back from a call. `lost` is a look at a slot that was never issued. -/
inductive Answer where
  | issued (i : Slot)
  | duplicate (e : DuplicateIdentity)
  | removed (e : Option Element)
  | count (n : Nat)
  | done
  | lost (fault : Fault)
deriving DecidableEq

/-- The slot that was given out. -/
def Answer.issued? : Answer → Option Slot
  | .issued i => some i
  | _ => none

/-! ## With an index -/

/-- A diagram and the slots of its identities. -/
structure Arena where
  diagram : Diagram
  index : AList fun _ : String => Slot

namespace Arena

/-- The arena with nothing but the root. -/
def new : Arena := ⟨.empty, .singleton Diagram.rootId Diagram.root⟩

/-- The slot of the element with an identity, by the index. -/
def find? (a : Arena) (id : String) : Option Slot := a.index.lookup id

/-- The number of identities in the index. -/
def size (a : Arena) : Nat := a.index.keys.length

/-- Puts an element into a new slot; one without a parent goes under the root. -/
def insert (a : Arena) (e : Element) : Except DuplicateIdentity (Slot × Arena) :=
  if e.id ∈ a.index then .error ⟨e.id⟩
  else
    let i := a.diagram.bound
    let placed := { e with parent := some (e.parent.getD Diagram.root) }
    .ok (i, ⟨⟨a.diagram.slots.push (some placed)⟩, a.index.insert e.id i⟩)

/-- Gives the element in a slot a new identity; an empty slot stays empty. -/
def rename (a : Arena) (i : Slot) (id : String) : Except DuplicateIdentity Arena :=
  if (a.find? id).any (· != i) then .error ⟨id⟩
  else
    match a.diagram.get? i with
    | none => .ok a
    | some e =>
      .ok ⟨a.diagram.modify i fun e => { e with id }, (a.index.erase e.id).insert id i⟩

/-- Empties a slot, takes its identity out of the index and clears the edge ends that were
at the slot; gives what was in it. The root stays. -/
def remove (a : Arena) (i : Slot) : Option Element × Arena :=
  match a.diagram.removable? i with
  | none => (none, a)
  | some e => (some e, ⟨a.diagram.remove i, a.index.erase e.id⟩)

/-- Empties some slots one after the other, and counts those that held something. -/
def removeAll (a : Arena) : List Slot → Nat × Arena
  | [] => (0, a)
  | i :: slots =>
    let rest := (a.remove i).2.removeAll slots
    (rest.1 + (a.remove i).1.toList.length, rest.2)

/-- Removes an element and everything that is marked with it. -/
def removeSubtree (a : Arena) (i : Slot) : Except Fault (Nat × Arena) :=
  match a.diagram.removable? i with
  | none => .ok (0, a)
  | some _ => (a.diagram.doomed i).map a.removeAll

/-- Changes the element in a slot; an empty slot stays empty. -/
def edit (a : Arena) (i : Slot) (change : Change) : Arena :=
  { a with diagram := a.diagram.modify i change.apply }

/-- Answers a call. -/
def perform (a : Arena) : Call → Answer × Arena
  | .insert e =>
    match a.insert e with
    | .ok (i, a') => (.issued i, a')
    | .error e => (.duplicate e, a)
  | .rename i id =>
    match a.rename i id with
    | .ok a' => (.done, a')
    | .error e => (.duplicate e, a)
  | .remove i => (.removed (a.remove i).1, (a.remove i).2)
  | .removeSubtree i =>
    match a.removeSubtree i with
    | .ok (n, a') => (.count n, a')
    | .error fault => (.lost fault, a)
  | .edit i change => (.done, a.edit i change)

/-- Answers some calls in order. -/
def run (a : Arena) : List Call → List Answer × Arena
  | [] => ([], a)
  | c :: calls =>
    let rest := (a.perform c).2.run calls
    ((a.perform c).1 :: rest.1, rest.2)

end Arena

/-! ## Without an index -/

namespace Diagram

/-- Answers a call without an index. -/
def perform (d : Diagram) : Call → Answer × Diagram
  | .insert e =>
    match d.insert e with
    | .ok (i, d') => (.issued i, d')
    | .error e => (.duplicate e, d)
  | .rename i id =>
    match d.rename i id with
    | .ok d' => (.done, d')
    | .error e => (.duplicate e, d)
  | .remove i => (.removed (d.removable? i), d.remove i)
  | .removeSubtree i => (.count (d.removeSubtree i).1, (d.removeSubtree i).2)
  | .edit i change => (.done, d.modify i change.apply)

/-- Answers some calls in order, without an index. -/
def run (d : Diagram) : List Call → List Answer × Diagram
  | [] => ([], d)
  | c :: calls =>
    let rest := (d.perform c).2.run calls
    ((d.perform c).1 :: rest.1, rest.2)

/-- Every parent that the calls give to an element was issued before. -/
def NamesIssued (d : Diagram) : List Call → Prop
  | [] => True
  | c :: calls => (∀ p ∈ c.parent?, p < d.bound) ∧ (d.perform c).2.NamesIssued calls

instance decidableNamesIssued : (d : Diagram) → (calls : List Call) → Decidable (d.NamesIssued calls)
  | _, [] => .isTrue trivial
  | d, c :: calls =>
    have := decidableNamesIssued (d.perform c).2 calls
    inferInstanceAs (Decidable ((∀ p ∈ c.parent?, p < d.bound) ∧ _))

end Diagram

end Netlist
