import Netlist.FieldKey
import Netlist.Library.Master

/-!
# Reconciling fields with the master

Links and spotters copy the positional fields of their master when they are
drawn. When the master changes later, the copies drift. Reconciliation brings
the keys of an element back in line and keeps the values that were typed: a
missing key takes over the field of an unknown key with the same tail, or else
the default of the master, and the positional fields that are still unknown
are dropped. Free-form fields are never touched.
-/

namespace Netlist

/-- One change to the fields of an element. -/
inductive FieldChange where
  | renamed (source target : String)
  | added (key value : String)
  | removed (key value : String)
deriving DecidableEq, Repr

namespace FieldChange

/-- The wording of a change. -/
def render : FieldChange → String
  | .renamed source target => "renamed `" ++ source ++ "` to `" ++ target ++ "`"
  | .added key value => "added `" ++ key ++ "` = `" ++ value ++ "`"
  | .removed key value => "removed `" ++ key ++ "` (was `" ++ value ++ "`)"

/-- What a change does to fields. -/
def apply (f : Fields) : FieldChange → Fields
  | .renamed source target => f.rename source target
  | .added key value => f.insert key value
  | .removed key _ => f.erase key

end FieldChange

namespace Fields

/-- Whether a key is positional and no key of the master. -/
def isStray (master : Fields) (key : String) : Bool :=
  FieldKey.isPositional key && !master.contains key

/-- The first stray key that has the tail of `key`. -/
def strayFor? (f master : Fields) (key : String) : Option String :=
  match FieldKey.tail? key with
  | none => none
  | some tail => f.keys.find? fun k => isStray master k && FieldKey.tail? k == some tail

/-- The change that gives a missing master key its field. -/
def repair (f master : Fields) (key default : String) : FieldChange :=
  match f.strayFor? master key with
  | some stray => .renamed stray key
  | none => .added key default

/-- Gives fields to the listed master keys that are missing, in order. -/
def complete (master : Fields) : List (String × String) → Fields → List FieldChange × Fields
  | [], f => ([], f)
  | (key, default) :: rest, f =>
    if f.contains key then complete master rest f
    else
      let change := f.repair master key default
      let (changes, g) := complete master rest (change.apply f)
      (change :: changes, g)

/-- The changes that drop the stray fields. -/
def strayRemovals (f master : Fields) : List FieldChange :=
  (f.entries.filter fun e => isStray master e.1).map fun e => .removed e.1 e.2

/-- Reconciles fields with those of a master; gives the changes made. -/
def reconcile (f master : Fields) : List FieldChange × Fields :=
  let (changes, g) := complete master master.entries f
  let removals := g.strayRemovals master
  (changes ++ removals, removals.foldl FieldChange.apply g)

end Fields

/-- The changes made to one element. -/
structure ReconcileReport where
  element : Locator
  changes : List FieldChange
deriving DecidableEq, Repr

/-- What reconciling a list of elements did. -/
structure Reconciliation where
  /-- One report for every element that changed. -/
  reports : List ReconcileReport
  /-- The elements that have no master. -/
  missingMasters : List Locator
deriving DecidableEq, Repr

namespace Reconciliation

/-- A reconciliation of nothing. -/
def empty : Reconciliation := ⟨[], []⟩

instance : Inhabited Reconciliation := ⟨empty⟩

/-- The number of changes made. -/
def changeCount (r : Reconciliation) : Nat :=
  (r.reports.map fun report => report.changes.length).foldr (· + ·) 0

end Reconciliation

end Netlist
