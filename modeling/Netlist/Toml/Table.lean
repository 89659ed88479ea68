import Netlist.Data.Value

/-!
# Tables under construction

A TOML document builds its tables step by step. Headers open tables, dotted
keys open tables on their way, and each table may be opened in one way only, so
every table remembers how it came to be. Values of keys, inline tables among
them, are closed once they are read.
-/

namespace Netlist.Toml

open Netlist.Data (Value)

/-- How a table came to be. -/
inductive Origin where
  /-- By a header of its own. -/
  | header
  /-- On the way to the table of a header. -/
  | implied
  /-- On the way of a dotted key. -/
  | dotted
deriving DecidableEq, Repr

/-- What a key of a table stands for. -/
inductive Item where
  | closed (value : Value)
  | table (origin : Origin) (entries : List (String × Item))
  /-- An array of tables, the last one first. -/
  | tables (items : List (List (String × Item)))

/-- The keys of a table in the order they were first written. -/
abbrev Entries := List (String × Item)

namespace Entries

/-- Puts an item in the place of the one that a key has. -/
def replace (key : String) (item : Item) (es : Entries) : Entries :=
  es.map fun e => if e.1 == key then (key, item) else e

/-- Adds a key at the end. -/
def add (key : String) (item : Item) (es : Entries) : Entries := es ++ [(key, item)]

/-- Gives the value to a dotted key. The tables on the way may not have headers of
their own, and from then on they count as opened by the key. -/
def put (v : Value) : List String → Entries → Option Entries
  | [], _ => none
  | [key], es => if (List.lookup key es).isSome then none else some (es.add key (.closed v))
  | key :: path, es =>
    match List.lookup key es with
    | none => (put v path []).map fun sub => es.add key (.table .dotted sub)
    | some (.table origin sub) =>
      if origin = .header then none
      else (put v path sub).map fun sub => es.replace key (.table .dotted sub)
    | some (.tables (last :: before)) =>
      if path.length = 1 then none
      else (put v path last).map fun last => es.replace key (.tables (last :: before))
    | _ => none

/-- Opens the table of a header, or the next table of an array of tables. -/
def declare (isArray : Bool) : List String → Entries → Option Entries
  | [], _ => none
  | [key], es =>
    match List.lookup key es, isArray with
    | none, false => some (es.add key (.table .header []))
    | none, true => some (es.add key (.tables [[]]))
    | some (.table .implied sub), false => some (es.replace key (.table .header sub))
    | some (.tables items), true => some (es.replace key (.tables ([] :: items)))
    | _, _ => none
  | key :: path, es =>
    match List.lookup key es with
    | none => (declare isArray path []).map fun sub => es.add key (.table .implied sub)
    | some (.table origin sub) =>
      (declare isArray path sub).map fun sub => es.replace key (.table origin sub)
    | some (.tables (last :: before)) =>
      (declare isArray path last).map fun last => es.replace key (.tables (last :: before))
    | _ => none

/-- Changes the table of a header that is already open. -/
def within (f : Entries → Option Entries) : List String → Entries → Option Entries
  | [], es => f es
  | key :: path, es =>
    match List.lookup key es with
    | some (.table origin sub) =>
      (within f path sub).map fun sub => es.replace key (.table origin sub)
    | some (.tables (last :: before)) =>
      (within f path last).map fun last => es.replace key (.tables (last :: before))
    | _ => none

end Entries

/-- The record of some members, in the order of their keys. -/
def sorted (members : List (String × Value)) : Value :=
  .record (members.mergeSort fun a b => a.1 ≤ b.1)

mutual

/-- The value of an item. -/
def Item.toValue : Item → Value
  | .closed v => v
  | .table _ es => sorted (membersOf es)
  | .tables items => .list (recordsOf items).reverse

/-- The members of a table. -/
def membersOf : List (String × Item) → List (String × Value)
  | [] => []
  | (key, item) :: rest => (key, item.toValue) :: membersOf rest

/-- The records of an array of tables. -/
def recordsOf : List (List (String × Item)) → List Value
  | [] => []
  | es :: rest => sorted (membersOf es) :: recordsOf rest

end

/-- The record of a table. -/
def Entries.toValue (es : Entries) : Value := sorted (membersOf es)

end Netlist.Toml
