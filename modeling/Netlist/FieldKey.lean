import Netlist.Text.Numeral

/-!
# Positional field keys

Fields that feed the simulation are keyed by class, slot and name: `c07.Gain`
is configuration value 7 named `Gain`, `i02.Flow` is input 2 named `Flow`. The
name is also called the tail of the key. Any other key is free-form.
-/

namespace Netlist

/-- Whether a positional field is a configuration value or an input. -/
inductive FieldClass where
  | config
  | input
deriving DecidableEq, Repr

namespace FieldClass

/-- The letter that opens a key of this class. -/
def letter : FieldClass → Char
  | .config => 'c'
  | .input => 'i'

/-- The class that a letter opens. -/
def ofLetter? : Char → Option FieldClass
  | 'c' => some .config
  | 'i' => some .input
  | _ => none

theorem ofLetter?_letter (c : FieldClass) : ofLetter? c.letter = some c := by
  cases c <;> rfl

end FieldClass

/-- A positional field key. -/
structure FieldKey where
  fieldClass : FieldClass
  index : Nat
  name : String
deriving DecidableEq, Repr

namespace FieldKey

/-- The largest slot of a positional key. -/
def indexLimit : Nat := UInt32.size - 1

/-- The class and slot that open a positional key, up to and with the dot, and
the characters after them. -/
def readHead? : List Char → Option (FieldClass × Nat × List Char)
  | [] => none
  | c :: cs =>
    match FieldClass.ofLetter? c with
    | none => none
    | some fieldClass =>
      let isDigit := fun (c : Char) => (Text.digitValue? c).isSome
      match Text.readMagnitude indexLimit .tooLarge (cs.takeWhile isDigit), cs.dropWhile isDigit with
      | .ok index, '.' :: rest => some (fieldClass, index, rest)
      | _, _ => none

/-- Reads a positional key. Free-form keys give nothing. -/
def ofString? (key : String) : Option FieldKey :=
  match readHead? key.toList with
  | some (fieldClass, index, c :: cs) => some ⟨fieldClass, index, String.ofList (c :: cs)⟩
  | _ => none

/-- Writes a positional key; the slot has at least two digits. -/
def render (k : FieldKey) : String :=
  let digits := Nat.toDigits 10 k.index
  let padded := if digits.length < 2 then '0' :: digits else digits
  String.ofList (k.fieldClass.letter :: padded ++ '.' :: k.name.toList)

/-- The tail of a positional key: what follows its first dot. -/
def tail? (key : String) : Option String :=
  match readHead? key.toList with
  | some (_, _, rest) => if rest.isEmpty then none else some (String.ofList rest)
  | none => none

/-- Whether a key is positional. -/
def isPositional (key : String) : Bool := (tail? key).isSome

end FieldKey

end Netlist
