import Netlist.Library.Catalog
import Netlist.Network
import Netlist.Topology

/-!
# Port maps

The port map of a link says, for every port slot, what the slot is wired to. A
slot for which no port is drawn is wired to ground. A port drawn in the main
network wins over ports with the same number that are drawn to interface
copies; among those the first wins. Two ports with one number in the same part
of the network are an error.

Jumper links have plug ports. The slot of a plug is pointed at a socket list
made for it, which keeps what the slot was wired to, and jumpers come after all
other links.
-/

namespace Netlist

/-- A link with its port map. -/
structure ResolvedLink where
  link : Slot
  portMap : List PortTarget
deriving DecidableEq, Repr

/-- A port drawn to a keyed node of an interface. -/
structure InterfaceBinding where
  link : Slot
  port : Nat
  node : Slot
  interface : Slot
deriving DecidableEq, Repr

/-- The port maps of all links of a network. -/
structure PortMaps where
  /-- The links in the order they are set up. -/
  links : List ResolvedLink
  socketLists : List SocketList
  bindings : List InterfaceBinding
deriving DecidableEq, Repr

namespace PortMaps

/-- The resolved link in a slot. -/
def get? (maps : PortMaps) (link : Slot) : Option ResolvedLink :=
  maps.links.find? fun resolved => resolved.link == link

/-- The node number of a port slot; a plug counts with the node it was drawn to. -/
def number (maps : PortMaps) : PortTarget → Int
  | .socketList name =>
    let held := (maps.socketLists.find? fun list => list.name == name).bind (·.node.number?)
    held.getD PortTarget.groundNumber
  | target => target.number?.getD PortTarget.groundNumber

/-- The port map of a link in node numbers. -/
def numbers (maps : PortMaps) (link : Slot) : List Int :=
  match maps.get? link with
  | some resolved => resolved.portMap.map maps.number
  | none => []

end PortMaps

/-- A port as it is drawn: its number, its edge and the node at its far end. -/
structure DrawnPort where
  number : Nat
  edge : Slot
  node : Slot
deriving DecidableEq, Repr

namespace PortMap

/-! ## The drawn ports of a link -/

/-- Reads a port edge of a link. -/
def readPort (d : Diagram) (t : Topology) (link : Slot) (owner : Locator) (edge : Slot) :
    Except Fault DrawnPort := do
  let port ← d.fetch edge
  match port.labelNatural? Text.countLimit with
  | none => .error (.topology (some port.locator) (.portLabelNotNumber port.label))
  | some number =>
    match (port.otherEnd? link).filter fun node => node != link && t.isNode node with
    | none => .error (.violation (.danglingPort owner port.locator))
    | some node => .ok ⟨number, edge, node⟩

/-- The drawn ports of a link, in document order. -/
def drawnPorts (d : Diagram) (t : Topology) (link : Slot) (owner : Locator) :
    List Slot → Except Fault (List DrawnPort)
  | [] => .ok []
  | edge :: rest => do
    let port ← d.fetch edge
    if port.touches link then
      let drawn ← readPort d t link owner edge
      return drawn :: (← drawnPorts d t link owner rest)
    else drawnPorts d t link owner rest

/-- The number of slots of a port map: as many as the master declares, or as
there are distinct numbers drawn. -/
def slotCount (master : Master) (drawn : List DrawnPort) : Nat :=
  max master.ports (drawn.map DrawnPort.number).eraseDups.length

/-! ## Filling the slots -/

/-- What a port that ends at a node binds its slot to. -/
def target (d : Diagram) (node : Slot) : Except Fault PortTarget := do
  let e ← d.fetch node
  if e.isGround then return .ground
  else
    match e.labelNatural? Text.nodeLimit with
    | some number => return .node number
    | none => .error (.topology (some e.locator) (.nodeLabelNotNumber e.label))

/-- What a slot is bound to, and the interface the port was drawn in, if any. -/
structure Claim where
  scope : Option Slot
  target : PortTarget
deriving DecidableEq, Repr

/-- The claim a slot holds after another one is made on it; none if both come
from the same part of the network. -/
def Claim.against? (new : Claim) : Option Claim → Option Claim
  | none => some new
  | some held =>
    if held.scope = new.scope then none
    else if new.scope.isNone then some new
    else some held

/-- The binding of a port that ends at a keyed node of an interface. -/
def binding? (d : Diagram) (t : Topology) (link : Slot) (port : DrawnPort) :
    Option InterfaceBinding :=
  (t.interfaceOf? port.node).bind fun interface =>
    if (d.get? port.node).any fun e => e.key?.isSome then
      some ⟨link, port.number, port.node, interface⟩
    else none

/-- Lets drawn ports claim their slots, in order. -/
def fill (d : Diagram) (t : Topology) (owner : Locator) :
    List (Option Claim) → List DrawnPort → Except Fault (List (Option Claim))
  | slots, [] => .ok slots
  | slots, port :: rest => do
    let edge ← d.fetch port.edge
    match slots[port.number]? with
    | none =>
      .error (.topology (some edge.locator) (.portOutside port.number slots.length owner))
    | some held =>
      let target ← target d port.node
      match (Claim.mk (t.interfaceOf? port.node) target).against? held with
      | none => .error (.violation (.duplicatePort owner edge.locator port.number))
      | some claim => fill d t owner (slots.set port.number (some claim)) rest

/-- Resolves the port map of a link with a master, and the bindings to keyed
nodes of interfaces. -/
def resolve (d : Diagram) (t : Topology) (link : Slot) (owner : Locator) (master : Master) :
    Except Fault (ResolvedLink × List InterfaceBinding) := do
  let drawn ← drawnPorts d t link owner t.ports
  match master.required.find? fun port => !(drawn.map DrawnPort.number).contains port with
  | some missing => .error (.violation (.missingRequiredPort owner missing))
  | none =>
    let slots ← fill d t owner (List.replicate (slotCount master drawn) none) drawn
    let portMap := slots.map fun claim => (claim.map Claim.target).getD .ground
    return (⟨link, portMap⟩, drawn.filterMap (binding? d t link))

/-! ## Jumpers -/

/-- The name of the socket list of a plug. -/
def socketName (label : String) (port : Nat) : String := s!"{label}_plug{port}"

/-- Points the listed slots at socket lists, in order. Ports without a slot are
passed over. -/
def plug (label : String) : List Nat → List PortTarget → List SocketList × List PortTarget
  | [], portMap => ([], portMap)
  | port :: rest, portMap =>
    match portMap[port]? with
    | none => plug label rest portMap
    | some node =>
      let name := socketName label port
      let (lists, plugged) := plug label rest (portMap.set port (.socketList name))
      (⟨name, label, port, node⟩ :: lists, plugged)

/-! ## All links -/

/-- The port maps of some links, jumpers apart. -/
structure Progress where
  links : List ResolvedLink
  jumpers : List ResolvedLink
  socketLists : List SocketList
  bindings : List InterfaceBinding

/-- Resolves links in order. -/
def resolveAll (c : Catalog) (d : Diagram) (t : Topology) : List Slot → Except Fault Progress
  | [] => .ok ⟨[], [], [], []⟩
  | i :: rest => do
    let link ← d.fetch i
    match c.masterOf? link.role with
    | none => .error (.topology (some link.locator) (.missingMaster link.locator))
    | some master =>
      let (resolved, bindings) ← resolve d t i link.locator master
      let later ← resolveAll c d t rest
      if master.plugs.isEmpty then
        return { later with
          links := resolved :: later.links
          bindings := bindings ++ later.bindings }
      else
        let (lists, portMap) := plug link.label master.plugs resolved.portMap
        return { later with
          jumpers := { resolved with portMap := portMap } :: later.jumpers
          socketLists := lists ++ later.socketLists
          bindings := bindings ++ later.bindings }

end PortMap

/-- The port maps of the links of a topology. -/
def PortMaps.build (c : Catalog) (t : Topology) (d : Diagram) : Except Fault PortMaps := do
  let progress ← PortMap.resolveAll c d t t.links
  return ⟨progress.links ++ progress.jumpers, progress.socketLists, progress.bindings⟩

end Netlist
