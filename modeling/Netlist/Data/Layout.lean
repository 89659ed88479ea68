import Netlist.Data.Value

/-!
# Reading values

Readers turn values into domain types and say what is wrong with a value that
does not fit. A record type has a `Layout`: the names of its members, in order,
and what each of them does to a draft of the result. Members are read in the
order of the value; unknown ones are passed over. A list is read as a record by
position. Formats differ in what they take for a variant, and in whether a list
may be longer than the record that it stands for.
-/

namespace Netlist.Data

/-- Why a value does not fit. -/
inductive Mismatch where
  | kind (found : Value) (wanted : String)
  | range (found : Int) (wanted : String)
  | variant (found : String) (known : List String)
  | missing (field : String)
  | length (found : Nat) (wanted : String)
  /-- A record that is to name a variant, with more or fewer members than one. -/
  | notSingle (found : Nat)
  /-- A value that is no variant. -/
  | notVariant (found : Value)
  /-- What a variant holds, though it should hold nothing. -/
  | notEmpty (found : Value)
  /-- A number that no type of numbers can hold. -/
  | excess
deriving Repr

/-- The wording of a mismatch of kinds. -/
def kindMessage (format : Format) (found : Value) (wanted : String) : String :=
  "invalid type: " ++ found.describe format ++ ", expected " ++ wanted

/-- What TOML says of a value that stands where nothing should. -/
def contentMessage : Value → String
  | .list _ => "expected empty array"
  | .record _ => "expected empty table"
  | found => "expected table, found " ++ found.kindName

/-- The wording of a mismatch in a file of some format. -/
def Mismatch.message (format : Format) : Mismatch → String
  | .kind found wanted => kindMessage format found wanted
  | .range found wanted => s!"invalid value: integer `{found}`, expected " ++ wanted
  | .variant found known =>
    "unknown variant `" ++ found ++ "`, expected " ++
      String.intercalate " or " (known.map fun k => "`" ++ k ++ "`")
  | .missing field => "missing field `" ++ field ++ "`"
  | .length found wanted => s!"invalid length {found}, expected " ++ wanted
  | .notSingle found =>
    match format with
    | .json => "invalid value: map, expected map with a single key"
    | .toml =>
      "wanted exactly 1 element, " ++
        if found = 0 then "found 0 elements" else "more than 1 element"
  | .notVariant found =>
    match format with
    | .json => kindMessage format found "string or map"
    | .toml => "wanted string or table"
  | .notEmpty found =>
    match format with
    | .json => kindMessage format found "unit"
    | .toml => contentMessage found
  | .excess => "number out of range"

/-- Turns a value of a format into something else, or says why it does not fit. -/
abbrev Reader (α : Type) := Format → Value → Except Mismatch α

namespace Reader

/-- Reads a text; `wanted` is what a message calls it. -/
def textAs (wanted : String) : Reader String
  | _, .text value => .ok value
  | _, v => .error (.kind v wanted)

/-- Reads a text. -/
def text : Reader String := textAs "a string"

/-- Reads a truth value. -/
def boolean : Reader Bool
  | _, .boolean value => .ok value
  | _, v => .error (.kind v "a boolean")

/-- Reads an integer between `0` and `limit`. -/
def natural (limit : Nat) (wanted : String) : Reader Nat
  | _, .integer value =>
    match value with
    | .ofNat n => if n ≤ limit then .ok n else .error (.range value wanted)
    | .negSucc _ => .error (.range value wanted)
  | _, v => .error (.kind v wanted)

/-- Reads a number of ports. -/
def count : Reader Nat := natural (UInt64.size - 1) "usize"

/-- Reads a value that may be null. -/
def optional (r : Reader α) : Reader (Option α)
  | _, .null => .ok none
  | format, v => (r format v).map some

/-- Reads a value that holds nothing, which is null in JSON and an empty list or
record in TOML. -/
def nothing : Reader Unit
  | .json, .null => .ok ()
  | .toml, .list [] => .ok ()
  | .toml, .record [] => .ok ()
  | _, v => .error (.notEmpty v)

/-- Finds a variant by its name. -/
def named (known : List (String × α)) (name : String) : Except Mismatch α :=
  match known.find? fun k => k.1 == name with
  | some (_, a) => .ok a
  | none => .error (.variant name (known.map Prod.fst))

/-- Reads one of some variants: its name, or a record with a member of that name
that holds nothing. -/
def variant (known : List (String × α)) : Reader α
  | _, .text name => named known name
  | format, .record [(name, content)] => do
    let a ← named known name
    nothing format content
    return a
  | _, .record members => .error (.notSingle members.length)
  | _, v => .error (.notVariant v)

/-- Reads a list, item by item. -/
def list (r : Reader α) : Reader (List α)
  | format, .list items => items.mapM (r format)
  | _, v => .error (.kind v "a sequence")

/-- Reads a record with texts for members. -/
def texts : Reader (List (String × String))
  | format, .record members =>
    members.mapM fun m => (text format m.2).map fun value => (m.1, value)
  | _, .moment moment => .ok [(momentField, moment.render)]
  | _, v => .error (.kind v "a map")

end Reader

/-- A member of a record type. -/
structure Member (σ : Type) where
  name : String
  isRequired : Bool
  /-- Puts the value of the member into a draft. -/
  put : σ → Reader σ

namespace Member

/-- A member that must be there. -/
def required (name : String) (r : Reader α) (set : σ → α → σ) : Member σ :=
  ⟨name, true, fun draft format v => (r format v).map (set draft)⟩

/-- A member that may be left out. -/
def optional (name : String) (r : Reader α) (set : σ → α → σ) : Member σ :=
  ⟨name, false, fun draft format v => (r format v).map (set draft)⟩

end Member

/-- The members of a record type, in order. -/
structure Layout (σ : Type) where
  /-- What messages call the type. -/
  name : String
  members : List (Member σ)

namespace Layout

/-- Reads named members into a draft. What is passed over must hold numbers that
some type can hold. -/
def readNamed (l : Layout σ) (format : Format) :
    σ → List (String × Value) → Except Mismatch σ
  | draft, [] => .ok draft
  | draft, (name, v) :: rest =>
    match l.members.find? fun m => m.name == name with
    | none => if v.hasExcess then .error .excess else readNamed l format draft rest
    | some m => do readNamed l format (← m.put draft format v) rest

/-- Reads items by position into a draft; `place` counts the members before. JSON
refuses the items after the last member, TOML leaves them alone. -/
def readPlaced (l : Layout σ) (format : Format) (length : Nat) :
    Nat → List (Member σ) → σ → List Value → Except Mismatch σ
  | _, [], draft, [] => .ok draft
  | _, [], draft, _ :: _ =>
    match format with
    | .json => .error (.length length "fewer elements in array")
    | .toml => .ok draft
  | place, m :: ms, draft, [] =>
    if m.isRequired then
      .error (.length place s!"{l.name} with {l.members.length} elements")
    else readPlaced l format length (place + 1) ms draft []
  | place, m :: ms, draft, v :: vs => do
    readPlaced l format length (place + 1) ms (← m.put draft format v) vs

/-- Reads the members of a record, from a draft that holds the defaults. -/
def readRecord (l : Layout σ) (draft : σ) (format : Format)
    (members : List (String × Value)) : Except Mismatch σ := do
  let result ← l.readNamed format draft members
  match l.members.find? fun m => m.isRequired && !members.any (fun e => e.1 == m.name) with
  | some m => .error (.missing m.name)
  | none => .ok result

/-- Reads a record, from a draft that holds the defaults. -/
def read (l : Layout σ) (draft : σ) : Reader σ
  | format, .record members => l.readRecord draft format members
  | format, .moment moment => l.readRecord draft format [(momentField, .text moment.render)]
  | format, .list items => l.readPlaced format items.length 0 l.members draft items
  | _, v => .error (.kind v l.name)

end Layout

end Netlist.Data
