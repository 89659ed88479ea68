import Netlist.Element.Role
import Netlist.Fields
import Netlist.Text.Blank
import Netlist.Text.Numeral
import Netlist.Text.Span

/-!
# Elements of a drawing

An element is one object of a drawing: a node, a link, an edge, a container.
It knows its identity and label, its role, the slots of its parent and of its
two ends, its data fields, and the byte range it was read from.
-/

namespace Netlist

open Netlist.Text (Span)

/-- What a message needs to point at an element. -/
structure Locator where
  id : String
  label : String
  span : Option Span
deriving DecidableEq, Repr

/-- Names an element by label and identity, or by identity alone. -/
def Locator.render (l : Locator) : String :=
  if l.label.isEmpty then "element `" ++ l.id ++ "`"
  else "`" ++ l.label ++ "` (" ++ l.id ++ ")"

/-- One object of a drawing. -/
structure Element where
  id : String
  role : Role
  label : String := ""
  parent : Option Slot := none
  source : Option Slot := none
  target : Option Slot := none
  fields : Fields := Fields.empty
  span : Option Span := none
deriving DecidableEq

namespace Element

/-- The field that holds the matching key of an interface node. -/
def keyField : String := "Key"

/-- The matching key of an interface node. -/
def key? (e : Element) : Option String := e.fields.get? keyField

/-- The subtype of a node. -/
def nodeKind? (e : Element) : Option NodeKind := e.role.nodeKind?

/-- Whether the element is a node that gets a number of its own. -/
def isNumberedNode (e : Element) : Bool := e.nodeKind?.any NodeKind.isNumbered

/-- Whether the element is a ground. -/
def isGround (e : Element) : Bool := e.role == .node .ground

/-- Whether the element is drawn as an edge. -/
def isEdge (e : Element) : Bool := e.role.isEdge || e.source.isSome || e.target.isSome

/-- The label read as an integer, blanks around it aside. -/
def labelNumber? (e : Element) : Option Int :=
  (Text.readSigned (Text.trim e.label)).toOption

/-- The label read as an unsigned number of at most `limit`. -/
def labelNatural? (limit : Nat) (e : Element) : Option Nat :=
  match e.labelNumber? with
  | some (.ofNat n) => if n ≤ limit then some n else none
  | _ => none

/-- Whether one of the two ends is at `slot`. -/
def touches (e : Element) (slot : Slot) : Bool :=
  e.source == some slot || e.target == some slot

/-- The end across from `slot`, if one end is at `slot`. -/
def otherEnd? (e : Element) (slot : Slot) : Option Slot :=
  if e.source = some slot then e.target
  else if e.target = some slot then e.source
  else none

/-- A pointer to the element for messages. -/
def locator (e : Element) : Locator := ⟨e.id, e.label, e.span⟩

/-- The label, or the identity of an element without one. -/
def displayName (e : Element) : String := if e.label.isEmpty then e.id else e.label

/-- The role of the element and its locator. -/
def render (e : Element) : String := e.role.name ++ " " ++ e.locator.render

/-- The element with no end at `slot`. -/
def detach (slot : Slot) (e : Element) : Element :=
  { e with
    source := e.source.filter (· != slot)
    target := e.target.filter (· != slot) }

/-- The element with one more field. -/
def withField (e : Element) (key value : String) : Element :=
  { e with fields := e.fields.insert key value }

theorem detach_of_not_touches {e : Element} {slot : Slot} (h : e.touches slot = false) :
    e.detach slot = e := by
  simp only [touches, Bool.or_eq_false_iff, beq_eq_false_iff_ne, ne_eq] at h
  obtain ⟨id, role, label, parent, source, target, fields, span⟩ := e
  simp only at h
  simp only [detach, mk.injEq, true_and, and_true]
  constructor
  · cases source with
    | none => rfl
    | some s => simpa [Option.filter] using fun hs => h.1 (congrArg some hs)
  · cases target with
    | none => rfl
    | some s => simpa [Option.filter] using fun hs => h.2 (congrArg some hs)

end Element

end Netlist
