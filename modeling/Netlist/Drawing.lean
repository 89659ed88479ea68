import Netlist.Failure

/-!
# Drawings by name

Instances of a super-network name the drawings they are copies of. A shelf
looks a drawing up by its name; there may be none, and reading it may fail.
-/

namespace Netlist

/-- A drawing with the text it was read from. -/
structure Drawing where
  diagram : Diagram
  text : String

/-- Reads a drawing. -/
def Drawing.read (text : String) : Except Failure Drawing :=
  match Document.read text with
  | .ok d => .ok ⟨d, text⟩
  | .error defect => .error (.document defect text)

/-- Where drawings are looked up by name. -/
abbrev Shelf := String → Except Failure (Option Drawing)

/-- The shelf of some named texts. -/
def Shelf.ofTexts (texts : List (String × String)) : Shelf := fun name =>
  match texts.lookup name with
  | none => .ok none
  | some text => (Drawing.read text).map some

end Netlist
