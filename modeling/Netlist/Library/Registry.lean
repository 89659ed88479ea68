import Mathlib.Data.List.AList
import Netlist.Library.Catalog

/-!
# Catalogs with indices

Searching a catalog goes through its masters in order. A registry keeps two indices beside
them, so that nothing has to be searched: the place of the master with a family and subtype,
and the place of the master that answers for a class and variant. A family and subtype that is
taken refuses the newcomer; a class that is taken stays with its owner.
-/

namespace Netlist

/-- A look at a place where a list has no item. -/
structure OutOfBounds where
  length : Nat
  index : Nat
deriving DecidableEq, Repr

/-- Masters and where they are. -/
structure Registry where
  masters : List Master
  bySubtype : AList fun _ : MasterKind × String => Nat
  byClass : AList fun _ : String × Option String => Nat

namespace Registry

/-- The registry without masters. -/
def empty : Registry := ⟨[], ∅, ∅⟩

/-- The classes with their places, once a master at a place has declared its class. Who
declared a class before keeps it. -/
def declare (classes : AList fun _ : String × Option String => Nat) (m : Master) (place : Nat) :
    AList fun _ : String × Option String => Nat :=
  match m.className with
  | none => classes
  | some name =>
    if (name, m.variant) ∈ classes then classes else classes.insert (name, m.variant) place

/-- Adds a master at the end, unless its family and subtype are taken. What happened comes with
the registry that it left. -/
def insert (r : Registry) (m : Master) : Except DuplicateMaster Unit × Registry :=
  if (m.kind, m.subtype) ∈ r.bySubtype then (.error ⟨m.kind, m.subtype⟩, r)
  else
    let place := r.masters.length
    (.ok (),
      { masters := r.masters ++ [m]
        bySubtype := r.bySubtype.insert (m.kind, m.subtype) place
        byClass := declare r.byClass m place })

/-- Adds a master or fails. -/
def add (r : Registry) (m : Master) : Except DuplicateMaster Registry :=
  (r.insert m).1.map fun _ => (r.insert m).2

/-- The registry of a list of masters; the first duplicate fails. -/
def ofRecords (records : List Master) : Except DuplicateMaster Registry :=
  records.foldlM add empty

/-- Adds masters one after the other, and goes on after one that is refused. -/
def run (r : Registry) : List Master → List (Except DuplicateMaster Unit) × Registry
  | [] => ([], r)
  | m :: records =>
    let rest := (r.insert m).2.run records
    ((r.insert m).1 :: rest.1, rest.2)

/-- The master at a place of an index. -/
def masterAt (r : Registry) (place : Nat) : Except OutOfBounds Master :=
  match r.masters[place]? with
  | some m => .ok m
  | none => .error ⟨r.masters.length, place⟩

/-- The master of a family with a subtype, by the index. -/
def masterFor (r : Registry) (kind : MasterKind) (subtype : String) :
    Except OutOfBounds (Option Master) :=
  (r.bySubtype.lookup (kind, subtype)).mapM r.masterAt

/-- The master that answers for a class with exactly this variant, or lack of one, by the
index. -/
def masterForClass (r : Registry) (className : String) (variant : Option String) :
    Except OutOfBounds (Option Master) :=
  (r.byClass.lookup (className, variant)).mapM r.masterAt

end Registry

end Netlist
