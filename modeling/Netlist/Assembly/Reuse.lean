import Netlist.Assembly.Import

/-!
# Reusing embedded content

An instance that is not refreshed keeps the content it has. Its fields say
where its block of numbers started and how many nodes it has; the content moves
by the difference to its new place; where there is none, the labels stay as they
are written. The difference is taken in words, so a place that no word with a sign
can hold counts as the negative number in its word. Without a recorded count the
numbered nodes are counted.
-/

namespace Netlist.Assembly

/-- The field with the first number of an instance. -/
def offsetField : String := "nodeOffset"

/-- The field with the name of the drawing of an instance. -/
def drawingField : String := "drawing"

/-- The integer in a field, if there is the field. -/
def integerField (e : Element) (key : String) : Except Fault (Option Int) :=
  match e.fields.get? key with
  | none => .ok none
  | some text =>
    match Text.readSigned (Text.trim text) with
    | .ok n => .ok (some n)
    | .error _ => .error (.topology (some e.locator) (.fieldNotNumber key e.locator text))

/-- The node count that an instance records. -/
def recordedCount (e : Element) : Except Fault (Option Nat) := do
  match ← integerField e Connections.nodeCountField with
  | none => return none
  | some (.ofNat n) => return some n
  | some n => .error (.topology (some e.locator)
      (.negativeField Connections.nodeCountField e.locator n))

/-- How far the content of an instance is moved from its recorded place to `offset`. -/
def displacement (offset : Nat) (recordedOffset : Int) : Int :=
  Word.signed (Word.signed offset - recordedOffset)

/-- Keeps the content of an instance and moves it to `offset`; gives its number
of nodes. -/
def reuse (subnet : Slot) (offset : Nat) : Edit Fault Nat := do
  let e ← Edit.check fun d => d.fetch subnet
  let inside ← Edit.read fun d => d.descendants subnet
  let recordedOffset ← Edit.check fun _ => integerField e offsetField
  let recorded ← Edit.check fun _ => recordedCount e
  let numbered ← Edit.read fun d =>
    inside.countP fun i => (d.get? i).any Element.isNumberedNode
  if inside.isEmpty then Edit.warn (.emptySubnet e.locator)
  let delta := displacement offset (recordedOffset.getD 0)
  if delta ≠ 0 then Edit.update (shiftAll delta inside)
  return recorded.getD numbered

end Netlist.Assembly
