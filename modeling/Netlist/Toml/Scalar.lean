import Netlist.Data.Value
import Netlist.Toml.Quote

/-!
# Numbers, truth values and moments of TOML

A scalar without quotes is a run of letters, digits and a few marks. It is a
truth value, an integer in one of four bases, a real number or a moment: a
date, a time of day, or both with or without an offset.
-/

namespace Netlist.Toml

open Netlist.Data (BinaryReal Clock Date Moment Offset Value)

/-- Whether a character may stand in a scalar without quotes. -/
def isScalarChar (c : Char) : Bool :=
  c.isAlphanum || c == '_' || c == '+' || c == '-' || c == '.' || c == ':'

/-! ## Integers -/

/-- Digits without the underscores between them; none if an underscore stands
anywhere else, if there are no digits, or if one is no digit of the base. -/
def digits? (isDigit : Char → Bool) : List Char → Option (List Char)
  | [] => none
  | [c] => if isDigit c then some [c] else none
  | c :: '_' :: cs => if isDigit c then (digits? isDigit cs).map (c :: ·) else none
  | c :: cs => if isDigit c then (digits? isDigit cs).map (c :: ·) else none

/-- The number that digits of a base stand for. -/
def numberOf (base : Nat) (digits : List Char) : Nat :=
  digits.foldl (fun n c => n * base + (hexValue? c).getD 0) 0

/-- Whether a character is a digit of a base up to sixteen. -/
def isDigitOf (base : Nat) (c : Char) : Bool := (hexValue? c).any (· < base)

/-- A sign at the front of a number, and what follows it. -/
def sign : List Char → Int × List Char
  | '-' :: cs => (-1, cs)
  | '+' :: cs => (1, cs)
  | cs => (1, cs)

/-- Decimal digits that do not start with a zero, unless they are just a zero. -/
def wholeDigits? (cs : List Char) : Option (List Char) :=
  match digits? (isDigitOf 10) cs with
  | some ('0' :: _ :: _) => none
  | found => found

/-- Reads an integer. -/
def integer? (cs : List Char) : Option Int :=
  match cs with
  | '0' :: 'x' :: rest => (digits? (isDigitOf 16) rest).map fun ds => numberOf 16 ds
  | '0' :: 'o' :: rest => (digits? (isDigitOf 8) rest).map fun ds => numberOf 8 ds
  | '0' :: 'b' :: rest => (digits? (isDigitOf 2) rest).map fun ds => numberOf 2 ds
  | _ =>
    let (s, rest) := sign cs
    (wholeDigits? rest).map fun ds => s * numberOf 10 ds

/-- An integer as a value. The widest types of integers have 128 bits, with or
without a sign. -/
def ofInteger (n : Int) : Value :=
  if -Int.pow 2 127 ≤ n && n < Int.pow 2 128 then .integer n else .excess

/-! ## Real numbers -/

/-- The digits after a point; none are needed if there is no point. -/
def fraction? : List Char → Option (List Char)
  | [] => some []
  | '.' :: cs => digits? (isDigitOf 10) cs
  | _ => none

/-- The power of ten after an `e`. -/
def exponent? : List Char → Option Int
  | [] => some 0
  | _ :: cs =>
    let (s, rest) := sign cs
    (digits? (isDigitOf 10) rest).map fun ds => s * numberOf 10 ds

/-- Reads a real number. -/
def real? (cs : List Char) : Option BinaryReal :=
  let (s, rest) := sign cs
  let isNegative := s < 0
  if rest = ['n', 'a', 'n'] then some .undefined
  else do
    let isMark := fun (c : Char) => c == 'e' || c == 'E'
    let mantissa := rest.takeWhile fun c => !isMark c
    let whole ← wholeDigits? (mantissa.takeWhile fun c => c != '.')
    let fraction ← fraction? (mantissa.dropWhile fun c => c != '.')
    let power ← exponent? (rest.dropWhile fun c => !isMark c)
    return .ofDecimal isNegative (numberOf 10 (whole ++ fraction)) (power - fraction.length)

/-- A real number as a value. Only a number that is written as infinite is so. -/
def ofReal : BinaryReal → Value
  | .infinite _ => .excess
  | r => .real r

/-- Reads a number. -/
def number? (cs : List Char) : Option Value :=
  let (s, rest) := sign cs
  if rest = ['i', 'n', 'f'] then some (.real (.infinite (s < 0)))
  else ((integer? cs).map ofInteger).or ((real? cs).map ofReal)

/-! ## Moments -/

/-- A number of exactly `width` digits between two bounds, and what follows it. -/
def field? (width low high : Nat) (cs : List Char) : Option (Nat × List Char) :=
  let ds := cs.take width
  if ds.length = width && ds.all (isDigitOf 10) then
    let n := numberOf 10 ds
    if low ≤ n && n ≤ high then some (n, cs.drop width) else none
  else none

/-- A text without the character it must start with. -/
def expect? (c : Char) : List Char → Option (List Char)
  | d :: cs => if d = c then some cs else none
  | [] => none

/-- The number of days of a month. -/
def daysIn (year month : Nat) : Nat :=
  if month = 2 then
    if year % 4 = 0 && (year % 100 != 0 || year % 400 = 0) then 29 else 28
  else if month = 4 || month = 6 || month = 9 || month = 11 then 30
  else 31

/-- A date at the front of a text, and what follows it. -/
def date? (cs : List Char) : Option (Date × List Char) := do
  let (year, cs) ← field? 4 0 9999 cs
  let (month, cs) ← field? 2 1 12 (← expect? '-' cs)
  let (day, cs) ← field? 2 1 (daysIn year month) (← expect? '-' cs)
  return (⟨year, month, day⟩, cs)

/-- A fraction of a second at the front of a text, which may be left out, and what
follows it. Digits after the ninth do not count. -/
def nanosecond? : List Char → Option (Option Nat × List Char)
  | '.' :: cs =>
    let ds := cs.takeWhile (isDigitOf 10)
    let kept := ds.take 9
    if ds.isEmpty then none
    else some (some (numberOf 10 kept * Nat.pow 10 (9 - kept.length)), cs.dropWhile (isDigitOf 10))
  | cs => some (none, cs)

/-- A time of day at the front of a text, and what follows it. -/
def clock? (cs : List Char) : Option (Clock × List Char) := do
  let (hour, cs) ← field? 2 0 23 cs
  let (minute, cs) ← field? 2 0 59 (← expect? ':' cs)
  match cs with
  | ':' :: cs => do
    let (second, cs) ← field? 2 0 60 cs
    let (nanosecond, cs) ← nanosecond? cs
    return (⟨hour, minute, some second, nanosecond⟩, cs)
  | _ => return (⟨hour, minute, none, none⟩, cs)

/-- Reads an offset from universal time, or nothing from nothing. -/
def offset? : List Char → Option (Option Offset)
  | [] => some none
  | ['Z'] => some (some .universal)
  | ['z'] => some (some .universal)
  | c :: cs => do
    let direction : Int ← if c = '+' then some 1 else if c = '-' then some (-1) else none
    let (hours, cs) ← field? 2 0 23 cs
    let (minutes, cs) ← field? 2 0 59 (← expect? ':' cs)
    if cs.isEmpty then some (some (.minutes (direction * (hours * 60 + minutes : Nat)))) else none

/-- Reads a moment. -/
def moment? (cs : List Char) : Option Moment :=
  match date? cs with
  | some (d, []) => some (.date d)
  | some (d, mark :: rest) => do
    if mark != 'T' && mark != 't' && mark != ' ' then none
    let (c, rest) ← clock? rest
    return .both d c (← offset? rest)
  | none =>
    match clock? cs with
    | some (c, []) => some (.clock c)
    | _ => none

/-! ## Scalars -/

/-- The value of a run of scalar characters. -/
def scalarOf (run : List Char) : Option Value :=
  match String.ofList run with
  | "true" => some (.boolean true)
  | "false" => some (.boolean false)
  | _ => ((moment? run).map .moment).or (number? run)

/-- Reads a scalar without quotes. A blank may stand between a date and a time. -/
def scalar? (cs : List Char) : Option (Value × List Char) :=
  let run := cs.takeWhile isScalarChar
  let rest := cs.dropWhile isScalarChar
  match date? run, rest with
  | some (_, []), ' ' :: d :: more =>
    if d.isDigit then
      let later := (d :: more).takeWhile isScalarChar
      (scalarOf (run ++ ' ' :: later)).map fun v => (v, (d :: more).dropWhile isScalarChar)
    else (scalarOf run).map fun v => (v, rest)
  | _, _ => (scalarOf run).map fun v => (v, rest)

end Netlist.Toml
