import Netlist.Connections
import Netlist.Edit
import Netlist.PortMap
import Netlist.Violation

/-!
# Recording interfaces

Every interface of a compiled network remembers how many nodes the network has
and which link ports are wired to its keyed nodes. The record is kept with the
role of the interface and, in written form, in its fields, so that it is still
there when the drawing is saved and read again.
-/

namespace Netlist.Recording

/-- The connection of a binding; none if the node has lost its key. -/
def connection? (maps : PortMaps) (d : Diagram) (b : InterfaceBinding) :
    Except Fault (Option Connection) := do
  let node ← d.fetch b.node
  match node.key? with
  | none => return none
  | some key =>
    let link ← d.fetch b.link
    return some ⟨link.label, b.port, key, maps.numbers b.link⟩

/-- The connections of bindings, in order. -/
def connections (maps : PortMaps) (d : Diagram) : List InterfaceBinding → Except Fault (List Connection)
  | [] => .ok []
  | b :: rest => do
    let connection ← connection? maps d b
    return connection.toList ++ (← connections maps d rest)

/-- An interface with a record. -/
def store (record : InterfaceRecord) (e : Element) : Element :=
  let fields := (e.fields.insert Connections.nodeCountField (toString record.nodeCount)).insert
    Connections.connectionsField (Connections.render record.connections)
  { e with fields := fields, role := e.role.setRecord record }

/-- Records one interface; an interface that is gone gives no entry. -/
def recordOne (t : Topology) (maps : PortMaps) (interface : Slot) :
    Edit Fault (Option InterfaceEntry) := do
  let found ← Edit.check fun d =>
    connections maps d (maps.bindings.filter fun b => b.interface == interface)
  let record : InterfaceRecord := ⟨t.nodeCount, found⟩
  match ← Edit.read fun d => d.get? interface with
  | none => return none
  | some e =>
    Edit.update fun d => d.modify interface (store record)
    return some ⟨e.label, record⟩

/-- Records all interfaces of a network, in order. -/
def record (t : Topology) (maps : PortMaps) : Edit Fault (List InterfaceEntry) := do
  let entries ← Edit.forEach (recordOne t maps) t.interfaces
  return entries.filterMap id

end Netlist.Recording
