import Netlist.Element

/-!
# Resolved networks

What compiling a drawing gives: networks and super-networks as plain data,
with names and numbers in place of elements.
-/

namespace Netlist

/-- What a port slot of a link is bound to. -/
inductive PortTarget where
  | node (number : Nat)
  | ground
  | socketList (name : String)
deriving DecidableEq, Repr

namespace PortTarget

/-- The number that stands for ground. -/
def groundNumber : Int := -1

/-- The node number of a slot. Socket lists have none. -/
def number? : PortTarget → Option Int
  | .node number => some number
  | .ground => some groundNumber
  | .socketList _ => none

/-- Whether a slot is bound to ground. -/
def isGround (t : PortTarget) : Bool := t == .ground

/-- The node number or the name of the socket list. -/
def render : PortTarget → String
  | .node number => toString number
  | .ground => toString groundNumber
  | .socketList name => name

end PortTarget

/-- A numbered node. -/
structure NodeRecord where
  number : Nat
  fields : Fields
deriving DecidableEq

/-- A link with what each of its port slots is bound to. -/
structure LinkRecord where
  name : String
  shape : Shape
  portMap : List PortTarget
  fields : Fields
deriving DecidableEq

/-- A spotter. -/
structure SpotterRecord where
  name : String
  shape : Shape
  fields : Fields
deriving DecidableEq

/-- The socket list that a plug port of a jumper link is pointed at. -/
structure SocketList where
  name : String
  link : String
  port : Nat
  /-- What the port was bound to when it was drawn. -/
  node : PortTarget
deriving DecidableEq, Repr

/-- The record of one interface of a network. -/
structure InterfaceEntry where
  name : String
  record : InterfaceRecord
deriving DecidableEq, Repr

/-- A compiled network. -/
structure Network where
  name : String
  domain : Domain
  nodes : List NodeRecord
  /-- The links in the order they are set up; jumper links come last. -/
  links : List LinkRecord
  spotters : List SpotterRecord
  socketLists : List SocketList
  interfaces : List InterfaceEntry
deriving DecidableEq

/-- A network placed in a super-network, with its block of node numbers. -/
structure Subnet where
  name : String
  drawing : Option String
  offset : Nat
  nodeCount : Nat
deriving DecidableEq, Repr

/-- An assembled super-network. -/
structure SuperNetwork where
  name : String
  nodeCount : Nat
  subnets : List Subnet
  superPorts : List SuperPort
deriving DecidableEq, Repr

end Netlist
