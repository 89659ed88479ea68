import Netlist.Library.Master

/-!
# The catalog of masters

A catalog holds masters in the order they were added. No two share a family
and a subtype. A class may be declared by several masters; the first of them
answers for it.
-/

namespace Netlist

/-- A master whose family and subtype are already taken. -/
structure DuplicateMaster where
  kind : MasterKind
  subtype : String
deriving DecidableEq, Repr

/-- The wording of a duplicate master. -/
def DuplicateMaster.message (e : DuplicateMaster) : String :=
  "master `" ++ e.kind.name ++ " " ++ e.subtype ++ "` is defined more than once"

/-- The masters of a shape library, in order. -/
structure Catalog where
  masters : List Master
deriving DecidableEq

namespace Catalog

/-- The catalog without masters. -/
def empty : Catalog := ⟨[]⟩

instance : Inhabited Catalog := ⟨empty⟩

/-- The number of masters. -/
def size (c : Catalog) : Nat := c.masters.length

/-- The master of a family with a subtype. -/
def bySubtype? (c : Catalog) (kind : MasterKind) (subtype : String) : Option Master :=
  c.masters.find? fun m => m.kind == kind && m.subtype == subtype

/-- The first master that declares a class with exactly this variant, or lack of one. -/
def byClass? (c : Catalog) (className : String) (variant : Option String) : Option Master :=
  c.masters.find? fun m => m.className == some className && m.variant == variant

/-- Adds a master at the end, unless its family and subtype are taken. -/
def insert (c : Catalog) (m : Master) : Except DuplicateMaster Catalog :=
  match c.bySubtype? m.kind m.subtype with
  | some _ => .error ⟨m.kind, m.subtype⟩
  | none => .ok ⟨c.masters ++ [m]⟩

/-- The catalog of a list of masters; the first duplicate fails. -/
def ofList (masters : List Master) : Except DuplicateMaster Catalog :=
  masters.foldlM insert empty

/-- The master of a shape: by class if the shape names one that has a master,
else by subtype. -/
def byShape? (c : Catalog) (kind : MasterKind) (shape : Shape) : Option Master :=
  (shape.className?.bind fun name => c.byClass? name shape.variant?).or
    (c.bySubtype? kind shape.subtype)

/-- The master of a link or spotter. Other roles have none. -/
def masterOf? (c : Catalog) : Role → Option Master
  | .link shape => c.byShape? .link shape
  | .spotter shape => c.byShape? .spotter shape
  | _ => none

end Catalog

end Netlist
