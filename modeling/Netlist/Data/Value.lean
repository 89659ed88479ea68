import Netlist.Data.BinaryReal
import Netlist.Data.Moment
import Netlist.Text.Quoted

/-!
# Values of data files

Settings, shape libraries and networks are kept in data files. A `Value` is
what such a file holds, whatever its format: scalars, lists and records.
-/

namespace Netlist.Data

/-- The formats of data files. -/
inductive Format where
  | json
  | toml
deriving DecidableEq, Repr

/-- How a format shows real numbers: JSON writes small and large ones with a power of
ten, TOML writes all of them out. -/
def Format.realStyle : Format → BinaryReal.Style
  | .json => { isTieUp := false, isPlain := fun exponent => -5 ≤ exponent && exponent ≤ 15 }
  | .toml => { isTieUp := true, isPlain := fun _ => true }

/-- A value of a data file. -/
inductive Value where
  | null
  | boolean (value : Bool)
  | integer (value : Int)
  | real (value : BinaryReal)
  /-- A number that no type of numbers can hold. -/
  | excess
  | text (value : String)
  | moment (moment : Moment)
  | list (items : List Value)
  | record (members : List (String × Value))
deriving Repr, Inhabited

/-- The member of a moment: where a record is wanted, a moment is one that holds
its written form. -/
def momentField : String := "$__toml_private_datetime"

/-- A value as messages about a format describe it. -/
def Value.describe (format : Format) : Value → String
  | .null => "null"
  | .boolean value => s!"boolean `{value}`"
  | .integer value => s!"integer `{value}`"
  | .real value => "floating point `" ++ value.render format.realStyle ++ "`"
  | .excess => "number out of range"
  | .text value => "string " ++ Text.quoted value
  | .moment _ => "map"
  | .list _ => "sequence"
  | .record _ => "map"

/-- The kind of a value in the words of TOML. -/
def Value.kindName : Value → String
  | .null => "null"
  | .boolean _ => "boolean"
  | .integer _ => "integer"
  | .real _ => "float"
  | .excess => "number"
  | .text _ => "string"
  | .moment _ => "datetime"
  | .list _ => "array"
  | .record _ => "table"

mutual

/-- Whether a value holds a number that no type of numbers can hold. -/
def Value.hasExcess : Value → Bool
  | .excess => true
  | .list items => anyExcess items
  | .record members => anyMemberExcess members
  | _ => false

/-- Whether one of some items holds such a number. -/
def anyExcess : List Value → Bool
  | [] => false
  | v :: vs => v.hasExcess || anyExcess vs

/-- Whether one of some members holds such a number. -/
def anyMemberExcess : List (String × Value) → Bool
  | [] => false
  | (_, v) :: rest => v.hasExcess || anyMemberExcess rest

end

end Netlist.Data
