/-!
# Decimal numerals with a range

Numbers in labels, fields and records are ASCII decimal numerals that must fit
a machine range. Reading one either gives its value or says what is wrong with
it. Digits are read from the left, and the first digit that is no digit or
that carries the value out of range is the one reported.
-/

namespace Netlist.Text

/-- Why a text is not a numeral of the wanted range. -/
inductive NumeralFault where
  | empty
  | invalidDigit
  | tooLarge
  | tooSmall
deriving DecidableEq, Repr

/-- The wording of a numeral fault. -/
def NumeralFault.message : NumeralFault → String
  | .empty => "cannot parse integer from empty string"
  | .invalidDigit => "invalid digit found in string"
  | .tooLarge => "number too large to fit in target type"
  | .tooSmall => "number too small to fit in target type"

/-- The value of an ASCII decimal digit. -/
def digitValue? (c : Char) : Option Nat :=
  if '0' ≤ c ∧ c ≤ '9' then some (c.toNat - '0'.toNat) else none

/-- Extends `acc` by the digits of a list, as long as the value stays within
`limit`; going past it is the fault `overflow`. -/
def readDigits (limit : Nat) (overflow : NumeralFault) : Nat → List Char → Except NumeralFault Nat
  | acc, [] => .ok acc
  | acc, c :: cs =>
    match digitValue? c with
    | none => .error .invalidDigit
    | some d =>
      if acc * 10 + d ≤ limit then readDigits limit overflow (acc * 10 + d) cs
      else .error overflow

/-- Reads a nonempty run of digits. -/
def readMagnitude (limit : Nat) (overflow : NumeralFault) : List Char → Except NumeralFault Nat
  | [] => .error .invalidDigit
  | cs => readDigits limit overflow 0 cs

/-- Reads an unsigned numeral of at most `limit`; a leading `+` is allowed. -/
def readNatural (limit : Nat) (s : String) : Except NumeralFault Nat :=
  match s.toList with
  | [] => .error .empty
  | '+' :: cs => readMagnitude limit .tooLarge cs
  | cs => readMagnitude limit .tooLarge cs

/-- Reads a signed numeral between `-(limit + 1)` and `limit`; a leading `+` or
`-` is allowed. -/
def readInteger (limit : Nat) (s : String) : Except NumeralFault Int :=
  match s.toList with
  | [] => .error .empty
  | '+' :: cs => (readMagnitude limit .tooLarge cs).map Int.ofNat
  | '-' :: cs => (readMagnitude (limit + 1) .tooSmall cs).map fun n => -(Int.ofNat n)
  | cs => (readMagnitude limit .tooLarge cs).map Int.ofNat

/-! ## The ranges in use -/

/-- The largest node number. -/
def nodeLimit : Nat := UInt32.size - 1

/-- The largest port number or count. -/
def countLimit : Nat := UInt64.size - 1

/-- The largest signed integer of a label or record. -/
def integerLimit : Nat := UInt64.size / 2 - 1

/-- Reads a port number or a count. -/
def readCount (s : String) : Except NumeralFault Nat := readNatural countLimit s

/-- Reads a node number. -/
def readNode (s : String) : Except NumeralFault Nat := readNatural nodeLimit s

/-- Reads a signed integer. -/
def readSigned (s : String) : Except NumeralFault Int := readInteger integerLimit s

end Netlist.Text
