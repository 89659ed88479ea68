/-!
# What an element stands for

Every object of a drawing plays one role in the network. The role is resolved
once, when the document is read, and carries the payload that only this role
has: the subtype of a node, the shape of a link, the record of an interface.
-/

namespace Netlist

/-- The position of an element in a diagram. Slot `0` holds the root. -/
abbrev Slot := Nat

/-- How a slot is written. -/
def Slot.render (slot : Slot) : String := "#" ++ toString slot

/-- The physical domain of nodes and links. A network never mixes the two. -/
inductive Domain where
  | basic
  | fluid
deriving DecidableEq, Repr

/-- The written name of a domain. -/
def Domain.name : Domain → String
  | .basic => "basic"
  | .fluid => "fluid"

/-- The subtype of a node. A ground is the unnumbered boundary, a reference an
alias of a numbered node. -/
inductive NodeKind where
  | basic
  | fluid
  | ground
  | reference
deriving DecidableEq, Repr

namespace NodeKind

/-- The written name of a node subtype. -/
def name : NodeKind → String
  | .basic => "Basic"
  | .fluid => "Fluid"
  | .ground => "Ground"
  | .reference => "Reference"

/-- The node subtype with a written name. -/
def ofName? : String → Option NodeKind
  | "Basic" => some .basic
  | "Fluid" => some .fluid
  | "Ground" => some .ground
  | "Reference" => some .reference
  | _ => none

/-- The wording for a name that is no node subtype. -/
def unknownMessage (name : String) : String := "unknown node subtype `" ++ name ++ "`"

/-- The domain of a numbered node; grounds and references have none. -/
def domain? : NodeKind → Option Domain
  | .basic => some .basic
  | .fluid => some .fluid
  | .ground => none
  | .reference => none

/-- Whether nodes of this subtype get a number of their own. -/
def isNumbered (k : NodeKind) : Bool := k.domain?.isSome

theorem ofName?_name (k : NodeKind) : ofName? k.name = some k := by
  cases k <;> rfl

end NodeKind

/-- The implementation class of a shape, with the variant it may name. -/
structure ShapeClass where
  name : String
  variant : Option String
deriving DecidableEq, Repr

/-- The shape of a link or spotter in the shape library. -/
structure Shape where
  subtype : String
  shapeClass : Option ShapeClass
deriving DecidableEq, Repr

namespace Shape

/-- The name of the implementation class. -/
def className? (s : Shape) : Option String := s.shapeClass.map ShapeClass.name

/-- The variant of the implementation class. -/
def variant? (s : Shape) : Option String := s.shapeClass.bind ShapeClass.variant

end Shape

/-- What a network container holds: a network, or instances of networks. -/
inductive NetworkKind where
  | sub
  | super
deriving DecidableEq, Repr

/-- A link port bound to a keyed interface node, with the port map of the link. -/
structure Connection where
  link : String
  port : Nat
  key : String
  portMap : List Int
deriving DecidableEq, Repr

/-- What an interface remembers of its network: the number of numbered nodes
and the connections to its keyed nodes. -/
structure InterfaceRecord where
  nodeCount : Nat
  connections : List Connection
deriving DecidableEq, Repr

/-- The payload of an interface: its record, and the interface it duplicates. -/
structure Interface where
  record : Option InterfaceRecord
  duplicateOf : Option Slot
deriving DecidableEq, Repr

/-- A link port of one subnet bound to a node of the super-network. -/
structure SuperPort where
  subnet : String
  link : String
  port : Nat
  node : Nat
deriving DecidableEq, Repr

namespace SuperPort

/-- The field with the name of the subnet that owns the link. -/
def subnetField : String := "instance"

/-- The field with the label of the link. -/
def linkField : String := "link"

/-- The field with the port number. -/
def portField : String := "port"

/-- The field with the node number. -/
def nodeField : String := "node"

end SuperPort

/-- The role of an element. -/
inductive Role where
  | root
  | node (kind : NodeKind)
  | link (shape : Shape)
  | port
  | spotter (shape : Shape)
  | network (kind : NetworkKind)
  | interface (payload : Interface)
  | connector
  | superPort (binding : SuperPort)
  | plain
deriving DecidableEq, Repr

namespace Role

/-- The name of a role in messages. -/
def name : Role → String
  | .root => "root"
  | .node _ => "node"
  | .link _ => "link"
  | .port => "port"
  | .spotter _ => "spotter"
  | .network .sub => "sub-network"
  | .network .super => "super-network"
  | .interface _ => "interface"
  | .connector => "connector"
  | .superPort _ => "super-port"
  | .plain => "plain"

/-- Whether the role is always drawn as an edge. -/
def isEdge : Role → Bool
  | .port => true
  | .connector => true
  | _ => false

/-- Whether the role is a container of one network. -/
def isSubNetwork : Role → Bool
  | .network .sub => true
  | _ => false

/-- Whether the role is a container of network instances. -/
def isSuperNetwork : Role → Bool
  | .network .super => true
  | _ => false

/-- Whether the role is a network container of either kind. -/
def isNetwork : Role → Bool
  | .network _ => true
  | _ => false

/-- Whether the role is an interface container. -/
def isInterface : Role → Bool
  | .interface _ => true
  | _ => false

/-- Whether the role is a link. -/
def isLink : Role → Bool
  | .link _ => true
  | _ => false

/-- Whether the role is a spotter. -/
def isSpotter : Role → Bool
  | .spotter _ => true
  | _ => false

/-- Whether the role is a super-port. -/
def isSuperPort : Role → Bool
  | .superPort _ => true
  | _ => false

/-- The subtype of a node. -/
def nodeKind? : Role → Option NodeKind
  | .node kind => some kind
  | _ => none

/-- The record of an interface that has one. -/
def record? : Role → Option InterfaceRecord
  | .interface payload => payload.record
  | _ => none

/-- An interface with a new record; other roles stay as they are. -/
def setRecord (record : InterfaceRecord) : Role → Role
  | .interface payload => .interface { payload with record := some record }
  | role => role

/-- An interface marked as a duplicate; other roles stay as they are. -/
def setDuplicateOf (canonical : Slot) : Role → Role
  | .interface payload => .interface { payload with duplicateOf := some canonical }
  | role => role

end Role

end Netlist
