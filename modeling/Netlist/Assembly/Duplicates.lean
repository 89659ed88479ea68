import Netlist.Diagram

/-!
# Duplicate interfaces

Two interfaces are duplicates if they have the same label, equally many
children, and the same nodes in any order, a node being its key, subtype and
label. A duplicate is marked with the first interface of its kind, which stands
for it from then on.
-/

namespace Netlist.Assembly

/-- A node of an interface as far as duplicates are concerned. -/
structure MemberSign where
  key : String
  kind : String
  label : String
deriving DecidableEq, Repr

/-- The order of member signs: by key, then subtype, then label. -/
def MemberSign.le (a b : MemberSign) : Bool :=
  if a.key = b.key then
    if a.kind = b.kind then a.label ≤ b.label else a.kind ≤ b.kind
  else a.key ≤ b.key

/-- What duplicates have in common. -/
structure Signature where
  label : String
  children : Nat
  /-- The signs of the nodes, in order. -/
  members : List MemberSign
deriving DecidableEq, Repr

/-- The sign of an element; only nodes have one. -/
def memberSign? (e : Element) : Option MemberSign :=
  e.nodeKind?.map fun kind => ⟨e.key?.getD "", kind.name, e.label⟩

/-- The signature of an interface. -/
def signature (d : Diagram) (interface : Slot) : Signature :=
  let children := d.children interface
  { label := ((d.get? interface).map Element.label).getD ""
    children := children.length
    members := (children.filterMap fun i => (d.get? i).bind memberSign?).mergeSort MemberSign.le }

/-- Pairs every interface that duplicates an earlier one with the first of its
signature; `firsts` holds the first ones so far. -/
def pairDuplicates (d : Diagram) : List Slot → List Slot → List (Slot × Slot)
  | _, [] => []
  | firsts, i :: rest =>
    match firsts.find? fun first => signature d first == signature d i with
    | some first => (i, first) :: pairDuplicates d firsts rest
    | none => pairDuplicates d (firsts ++ [i]) rest

/-- The duplicates in a list of interfaces, each with the first of its signature. -/
def duplicates (d : Diagram) (interfaces : List Slot) : List (Slot × Slot) :=
  pairDuplicates d [] interfaces

/-- The interfaces of a list that duplicate no earlier one. -/
def distinct (d : Diagram) (interfaces : List Slot) : List Slot :=
  interfaces.filter fun i => !((duplicates d interfaces).map Prod.fst).contains i

/-- Marks the given duplicates. -/
def markDuplicates (pairs : List (Slot × Slot)) (d : Diagram) : Diagram :=
  pairs.foldl (fun d p => d.modify p.1 fun e => { e with role := e.role.setDuplicateOf p.2 }) d

/-- The interface that stands for an interface. -/
def canonical (d : Diagram) (interface : Slot) : Slot :=
  match (d.get? interface).map Element.role with
  | some (.interface payload) => (payload.duplicateOf.filter d.isLive).getD interface
  | _ => interface

end Netlist.Assembly
