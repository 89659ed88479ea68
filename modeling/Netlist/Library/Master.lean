import Netlist.Element

/-!
# Masters of the shape library

Every link and spotter is an instance of a master. The master declares how
many ports the shape has, which of them must be drawn, and the positional data
fields its instances should carry, with their defaults.
-/

namespace Netlist

/-- The family of shapes a master belongs to. -/
inductive MasterKind where
  | link
  | spotter
deriving DecidableEq, Repr

/-- The written name of a family. -/
def MasterKind.name : MasterKind → String
  | .link => "Link"
  | .spotter => "Spotter"

/-- The definition of a link or spotter shape. -/
structure Master where
  kind : MasterKind
  subtype : String
  /-- The implementation class, if any. -/
  className : Option String := none
  /-- The variant of the class, if any. -/
  variant : Option String := none
  domain : Option Domain := none
  /-- The least number of ports in a port map. -/
  ports : Nat := 0
  /-- The ports that must be drawn. -/
  required : List Nat := []
  /-- Whether instances may have more ports than declared. -/
  isVariable : Bool := false
  /-- The ports that plug into a socket list, in the order their lists are made. -/
  plugs : List Nat := []
  /-- The keys an instance should have, with their defaults. -/
  fields : Fields := Fields.empty
deriving DecidableEq

end Netlist
