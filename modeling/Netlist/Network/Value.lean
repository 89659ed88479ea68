import Netlist.Data.Value
import Netlist.Network

/-!
# Networks as values

How networks and super-networks are laid out in data files. Members that an
element does not have are left out; ground is written as its number and a
socket list as its name.
-/

namespace Netlist

open Netlist.Data (Value)

/-- A natural number as a value. -/
def Data.Value.natural (n : Nat) : Value := .integer n

/-- A member that is left out when there is no text for it. -/
def Data.Value.textMember (name : String) (text : Option String) : List (String × Value) :=
  text.toList.map fun t => (name, .text t)

/-- Fields as a record. -/
def Fields.toValue (f : Fields) : Value := .record (f.entries.map fun e => (e.1, .text e.2))

/-- What a port slot is bound to, as a value. -/
def PortTarget.toValue : PortTarget → Value
  | .node number => .natural number
  | .ground => .integer groundNumber
  | .socketList name => .text name

/-- A node as a record. -/
def NodeRecord.toValue (r : NodeRecord) : Value :=
  .record [("number", .natural r.number), ("fields", r.fields.toValue)]

/-- A link as a record. -/
def LinkRecord.toValue (r : LinkRecord) : Value :=
  .record <| [("name", .text r.name), ("subtype", .text r.shape.subtype)] ++
    Value.textMember "class" r.shape.className? ++ Value.textMember "variant" r.shape.variant? ++
    [("port_map", .list (r.portMap.map PortTarget.toValue)), ("fields", r.fields.toValue)]

/-- A spotter as a record. -/
def SpotterRecord.toValue (r : SpotterRecord) : Value :=
  .record <| [("name", .text r.name), ("subtype", .text r.shape.subtype)] ++
    Value.textMember "class" r.shape.className? ++ [("fields", r.fields.toValue)]

/-- A socket list as a record. -/
def SocketList.toValue (l : SocketList) : Value :=
  .record [("name", .text l.name), ("link", .text l.link), ("port", .natural l.port),
    ("node", l.node.toValue)]

/-- A connection as a record. -/
def Connection.toValue (c : Connection) : Value :=
  .record [("link", .text c.link), ("port", .natural c.port), ("key", .text c.key),
    ("port_map", .list (c.portMap.map Value.integer))]

/-- The record of an interface, with its name. -/
def InterfaceEntry.toValue (e : InterfaceEntry) : Value :=
  .record [("name", .text e.name), ("node_count", .natural e.record.nodeCount),
    ("connections", .list (e.record.connections.map Connection.toValue))]

/-- A network as a record. -/
def Network.toValue (n : Network) : Value :=
  .record [("name", .text n.name), ("domain", .text n.domain.name),
    ("nodes", .list (n.nodes.map NodeRecord.toValue)),
    ("links", .list (n.links.map LinkRecord.toValue)),
    ("spotters", .list (n.spotters.map SpotterRecord.toValue)),
    ("socket_lists", .list (n.socketLists.map SocketList.toValue)),
    ("interfaces", .list (n.interfaces.map InterfaceEntry.toValue))]

/-- A placed network as a record. -/
def Subnet.toValue (s : Subnet) : Value :=
  .record <| [("name", .text s.name)] ++ Value.textMember "drawing" s.drawing ++
    [("offset", .natural s.offset), ("node_count", .natural s.nodeCount)]

/-- A super-port as a record. -/
def SuperPort.toValue (p : SuperPort) : Value :=
  .record [("instance", .text p.subnet), ("link", .text p.link), ("port", .natural p.port),
    ("node", .natural p.node)]

/-- A super-network as a record. -/
def SuperNetwork.toValue (n : SuperNetwork) : Value :=
  .record [("name", .text n.name), ("node_count", .natural n.nodeCount),
    ("subnets", .list (n.subnets.map Subnet.toValue)),
    ("super_ports", .list (n.superPorts.map SuperPort.toValue))]

end Netlist
