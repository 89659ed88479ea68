import Netlist.Toml.Reader

/-!
# Documents with numbers of one word

A document may hold numbers of any size, as long as nobody asks for them. A
document that is to be kept as a whole must do with integers that fit into a
word of 64 bits with a sign, and with reals that are finite unless written
otherwise. There is no telling a moment from a record that spells one out, so
such a record is the moment.
-/

namespace Netlist.Toml

open Netlist.Data (Moment Value momentField)

/-- Whether an integer fits into a word. -/
def fitsWord (n : Int) : Bool := -Int.pow 2 63 ≤ n && n < Int.pow 2 63

/-- Whether a record spells out a moment: its first member has the name for it. -/
def spellsMoment (members : List (String × Value)) : Bool :=
  members.head?.any fun m => m.1 == momentField

/-- The moment that a record spells out, which must be a text. -/
def spelled? : List (String × Value) → Option Moment
  | (_, .text written) :: _ => moment? written.toList
  | _ => none

mutual

/-- A value to be kept as a whole, if it can be. -/
def kept? : Value → Option Value
  | .excess => none
  | .integer n => if fitsWord n then some (.integer n) else none
  | .list items => (keptItems? items).map .list
  | .record members =>
    if spellsMoment members then (spelled? members).map .moment
    else (keptMembers? members).map .record
  | v => some v

/-- The items of a list to be kept. -/
def keptItems? : List Value → Option (List Value)
  | [] => some []
  | v :: vs => do return (← kept? v) :: (← keptItems? vs)

/-- The members of a record to be kept. -/
def keptMembers? : List (String × Value) → Option (List (String × Value))
  | [] => some []
  | (name, v) :: rest => do return (name, ← kept? v) :: (← keptMembers? rest)

end

/-- Reads a document to be kept as a whole. Its own record is no moment. -/
def readWhole (text : String) : Option Value :=
  match read text with
  | some (.record members) => (keptMembers? members).map .record
  | _ => none

end Netlist.Toml
