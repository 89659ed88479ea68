/-!
# Moments

A moment of a data file is a date, a time of day, or a date with a time of day,
which may have an offset from universal time. Each moment has one written form.
-/

namespace Netlist.Data

/-- A day of the calendar. -/
structure Date where
  year : Nat
  month : Nat
  day : Nat
deriving DecidableEq, Repr

/-- A time of day. Seconds may be left out, and fractions of them as well. -/
structure Clock where
  hour : Nat
  minute : Nat
  second : Option Nat := none
  nanosecond : Option Nat := none
deriving DecidableEq, Repr

/-- How far a local time is from universal time. -/
inductive Offset where
  | universal
  /-- By minutes, which count eastwards. -/
  | minutes (count : Int)
deriving DecidableEq, Repr

/-- A date, a time of day, or both. -/
inductive Moment where
  | date (date : Date)
  | clock (clock : Clock)
  | both (date : Date) (clock : Clock) (offset : Option Offset)
deriving DecidableEq, Repr

/-- A number with at least `width` digits. -/
def padded (width n : Nat) : String :=
  let digits := Nat.toDigits 10 n
  String.ofList (List.replicate (width - digits.length) '0' ++ digits)

/-- The written form of a date. -/
def Date.render (d : Date) : String :=
  padded 4 d.year ++ "-" ++ padded 2 d.month ++ "-" ++ padded 2 d.day

/-- A fraction of a second: nine digits without the zeros at their end, but at
least one. -/
def renderNanosecond (n : Nat) : String :=
  let digits := ((padded 9 n).toList.reverse.dropWhile (· == '0')).reverse
  "." ++ (if digits.isEmpty then "0" else String.ofList digits)

/-- The written form of a time of day. -/
def Clock.render (c : Clock) : String :=
  padded 2 c.hour ++ ":" ++ padded 2 c.minute ++
    (c.second.map fun s => ":" ++ padded 2 s).getD "" ++
    (c.nanosecond.map renderNanosecond).getD ""

/-- The written form of an offset. -/
def Offset.render : Offset → String
  | .universal => "Z"
  | .minutes count =>
    (if count < 0 then "-" else "+") ++
      padded 2 (count.natAbs / 60) ++ ":" ++ padded 2 (count.natAbs % 60)

/-- The written form of a moment. -/
def Moment.render : Moment → String
  | .date d => d.render
  | .clock c => c.render
  | .both d c offset => d.render ++ "T" ++ c.render ++ (offset.map Offset.render).getD ""

end Netlist.Data
