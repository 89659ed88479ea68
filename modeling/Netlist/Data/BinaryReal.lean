/-!
# Binary real numbers

Data files write real numbers in decimal, but what they stand for is a number
whose mantissa has 53 binary digits: the nearest one to what is written, the one
with the even mantissa where two are equally near. Such a number is shown with
the fewest decimal digits that read back as the same number; a `Style` decides
between equally good digits, and where the point goes.
-/

namespace Netlist.Data

/-- A fraction of natural numbers. -/
structure Ratio where
  top : Nat
  bottom : Nat := 1
deriving DecidableEq, Repr

namespace Ratio

/-- A fraction times a power of a base. -/
def scale (r : Ratio) (base : Nat) : Int → Ratio
  | .ofNat n => { r with top := r.top * Nat.pow base n }
  | .negSucc n => { r with bottom := r.bottom * Nat.pow base (n + 1) }

/-- The whole number at or below a fraction. -/
def floor (r : Ratio) : Nat := r.top / r.bottom

/-- Whether a fraction is less than another one. -/
def isBelow (r s : Ratio) : Bool := r.top * s.bottom < s.top * r.bottom

/-- The whole number next to a fraction, the even one if two are equally near. -/
def round (r : Ratio) : Nat :=
  let half : Ratio := ⟨2 * r.floor + 1, 2⟩
  if r.isBelow half || (!half.isBelow r && r.floor % 2 = 0) then r.floor else r.floor + 1

end Ratio

/-- A real number of binary precision. -/
inductive BinaryReal where
  /-- The number `mantissa * 2 ^ exponent`, or its negative. -/
  | finite (isNegative : Bool) (mantissa : Nat) (exponent : Int)
  | infinite (isNegative : Bool)
  | undefined
deriving DecidableEq, Repr, Inhabited

namespace BinaryReal

/-- The number of binary digits of a full mantissa. -/
def precision : Nat := 53

/-- The least exponent. A mantissa need not be full there. -/
def leastExponent : Int := -1074

/-- The greatest exponent. -/
def greatestExponent : Int := 971

/-! ## Reading -/

/-- The exponent that makes the mantissa of a fraction full, or the least one. The
lengths of its two parts leave a choice of two. -/
def exponentOf (r : Ratio) : Int :=
  let low := (r.top.log2 : Int) - r.bottom.log2 - precision
  max leastExponent (if (r.scale 2 (-low)).floor < Nat.pow 2 precision then low else low + 1)

/-- The number next to a fraction or to its negative. Rounding up may fill the
mantissa to a power of two, which is half of it at the next exponent. -/
def ofRatio (isNegative : Bool) (r : Ratio) : BinaryReal :=
  let exponent := exponentOf r
  let mantissa := (r.scale 2 (-exponent)).round
  let isOver := mantissa = Nat.pow 2 precision
  let mantissa := if isOver then Nat.pow 2 (precision - 1) else mantissa
  let exponent := if isOver then exponent + 1 else exponent
  if exponent > greatestExponent then .infinite isNegative
  else .finite isNegative mantissa exponent

/-- The number next to `mantissa * 10 ^ power` or to its negative. A power that
leaves no doubt about the result is not computed. -/
def ofDecimal (isNegative : Bool) (mantissa : Nat) (power : Int) : BinaryReal :=
  if mantissa = 0 || mantissa.log2 + 1 + 3 * power < leastExponent - 1 then
    .finite isNegative 0 leastExponent
  else if power > greatestExponent then .infinite isNegative
  else ofRatio isNegative (Ratio.scale ⟨mantissa, 1⟩ 10 power)

/-! ## Showing -/

/-- Whether a fraction reads back as `mantissa * 2 ^ exponent`: it lies between the
halves of the way to both neighbours, and these themselves read back as the even
mantissa. Below a power of two the neighbour is twice as near. -/
def readsBack (mantissa : Nat) (exponent : Int) (r : Ratio) : Bool :=
  let quarters := fun (n : Nat) => Ratio.scale ⟨n, 1⟩ 2 (exponent - 2)
  let isNear := mantissa = Nat.pow 2 (precision - 1) && leastExponent < exponent
  let low := quarters (4 * mantissa - if isNear then 1 else 2)
  let high := quarters (4 * mantissa + 2)
  if mantissa % 2 = 0 then !r.isBelow low && !high.isBelow r
  else low.isBelow r && r.isBelow high

/-- How numbers are shown. -/
structure Style where
  /-- Which of two equally near decimals is taken: the upper one, or the even one. -/
  isTieUp : Bool
  /-- Whether the point of a number is put between its digits, and not a power of
  ten behind them; the exponent is that of the first digit. -/
  isPlain : Int → Bool

/-- The multiple of a power of ten that reads back as a number: the nearer one of
the two next to it. -/
def multiple? (isTieUp : Bool) (mantissa : Nat) (exponent power : Int) : Option Nat :=
  let scaled := (Ratio.scale ⟨mantissa, 1⟩ 2 exponent).scale 10 (-power)
  let below := scaled.floor
  let half : Ratio := ⟨2 * below + 1, 2⟩
  let fits := fun (n : Nat) => readsBack mantissa exponent (Ratio.scale ⟨n, 1⟩ 10 power)
  let isLower :=
    scaled.isBelow half || (!half.isBelow scaled && !isTieUp && below % 2 = 0)
  if fits below && (isLower || !fits (below + 1)) then some below
  else if fits (below + 1) then some (below + 1)
  else none

/-- The fewest digits that read back as a number, with the power of ten that they
count: powers are tried downwards. -/
def digits (isTieUp : Bool) (mantissa : Nat) (exponent : Int) : Nat → Int → Nat × Int
  | 0, power => (((Ratio.scale ⟨mantissa, 1⟩ 2 exponent).scale 10 (-power)).round, power)
  | attempts + 1, power =>
    match multiple? isTieUp mantissa exponent power with
    | some n => (n, power)
    | none => digits isTieUp mantissa exponent attempts (power - 1)

/-- A power of ten above a number: the decimal logarithm of two is a little less
than 0.30103. -/
def powerAbove (mantissa : Nat) (exponent : Int) : Int :=
  (mantissa.log2 + 1 + exponent) * 30103 / 100000 + 1

/-- Digits times a power of ten, written out: at least one digit stands on either
side of the point. -/
def positional (digits : Nat) (power : Int) : String :=
  let written := Nat.toDigits 10 (digits * Nat.pow 10 power.toNat)
  let places := (-power).toNat
  let padded := List.replicate (places + 1 - written.length) '0' ++ written
  let fraction := padded.drop (padded.length - places)
  String.ofList (padded.take (padded.length - places)) ++ "." ++
    (if fraction.isEmpty then "0" else String.ofList fraction)

/-- Digits times a power of ten, with the point after the first digit and the power
of ten behind, which has a sign. -/
def scientific (digits : Nat) (exponent : Int) : String :=
  let power := (if exponent < 0 then "e-" else "e+") ++ toString exponent.natAbs
  match Nat.toDigits 10 digits with
  | [] => power
  | [d] => d.toString ++ power
  | d :: ds => d.toString ++ "." ++ String.ofList ds ++ power

/-- The written form of a number without its sign. Seventeen digits always read
back, and the first power of ten is at most three places too high. -/
def magnitude (style : Style) (mantissa : Nat) (exponent : Int) : String :=
  let (ds, power) :=
    if mantissa = 0 then (0, 0)
    else digits style.isTieUp mantissa exponent 20 (powerAbove mantissa exponent)
  let first := power + (Nat.toDigits 10 ds).length - 1
  if style.isPlain first then positional ds power else scientific ds first

/-- The written form of a number. -/
def render (style : Style) : BinaryReal → String
  | .undefined => "NaN"
  | .infinite isNegative => if isNegative then "-inf" else "inf"
  | .finite isNegative mantissa exponent =>
    (if isNegative then "-" else "") ++ magnitude style mantissa exponent

end BinaryReal

end Netlist.Data
