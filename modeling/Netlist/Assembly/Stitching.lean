import Netlist.Connections
import Netlist.Diagram.Containment
import Netlist.Edit
import Netlist.Identity
import Netlist.Assembly.Duplicates

/-!
# Stitching instances together

A connector joins two interfaces of different instances. Every link port that
is recorded at one of them is bound to the node with the same key at the other
one, and this binding is a super-port. For a key, at most one of the two
interfaces may have a node that is no ground; the other one has a ground in its
place and records the connections.

Super-ports of an earlier stitching are thrown away first.
-/

namespace Netlist.Assembly

/-- The block of numbers of an instance. -/
structure Placement where
  name : String
  offset : Nat
  nodeCount : Nat
deriving DecidableEq, Repr

/-- The placements of instances by slot. -/
abbrev Placements := List (Slot × Placement)

/-- What stitching did. -/
structure Stitching where
  superPorts : List SuperPort
  /-- The earlier super-ports whose connector no longer joins two interfaces. -/
  orphaned : Nat
  /-- The earlier super-ports, orphans included. -/
  discarded : Nat
deriving DecidableEq, Repr

/-! ## Connectors and their sides -/

/-- Whether a slot holds an interface. -/
def isInterface (d : Diagram) (i : Slot) : Bool := (d.get? i).any fun e => e.role.isInterface

/-- The interfaces that a connector joins, source first. -/
def joined? (d : Diagram) (connector : Slot) : Option (Slot × Slot) :=
  match d.get? connector with
  | none => none
  | some e =>
    match e.source, e.target with
    | some a, some b =>
      if e.role == .connector && isInterface d a && isInterface d b then some (a, b) else none
    | _, _ => none

/-- One side of a connector: an interface, the instance around it and its nodes. -/
structure Side where
  interface : Slot
  subnet : Slot
  nodes : List (Slot × Element)

/-- The nodes directly inside an interface, in order. -/
def nodesOf (d : Diagram) (interface : Slot) : List (Slot × Element) :=
  (d.children interface).filterMap fun i =>
    ((d.get? i).filter fun e => e.nodeKind?.isSome).map fun e => (i, e)

/-- The side of a connector that ends at an interface, or at the one that stands
for it. -/
def side (d : Diagram) (interface : Slot) : Except Fault Side := do
  let interface := canonical d interface
  match ← d.nearestAncestor interface fun _ e => e.role.isSubNetwork with
  | some subnet => return ⟨interface, subnet, nodesOf d interface⟩
  | none =>
    let e ← d.fetch interface
    .error (.topology (some e.locator) (.strayInterface e.locator))

namespace Side

/-- The keys of the nodes of a side, in order and without repetitions. -/
def keys (s : Side) : List String :=
  ((s.nodes.filterMap fun n => n.2.key?).mergeSort fun a b => a ≤ b).eraseDups

/-- The nodes that are no grounds and have a key, by key. -/
def bound (s : Side) : List (String × Element) :=
  (s.nodes.filter fun n => !n.2.isGround).filterMap fun n => n.2.key?.map fun key => (key, n.2)

/-- The record of the interface of a side. -/
def record? (d : Diagram) (s : Side) : Option InterfaceRecord :=
  (d.get? s.interface).bind fun e => e.role.record?

/-- A pointer to the interface of a side. -/
def locator (d : Diagram) (s : Side) : Except Fault Locator :=
  (d.fetch s.interface).map Element.locator

end Side

/-! ## Compatible sides -/

/-- The first key that was seen before. -/
def repeatedKey? : List String → List String → Option String
  | _, [] => none
  | seen, key :: rest => if seen.contains key then some key else repeatedKey? (key :: seen) rest

/-- Checks that no key is bound twice, within the first side or across both. -/
def checkBindings (d : Diagram) (a b : Side) : Except Fault Unit := do
  let keysA := a.bound.map Prod.fst
  match repeatedKey? [] keysA with
  | some key => .error (.violation (.ambiguousBinding (← a.locator d) key))
  | none =>
    match repeatedKey? keysA (b.bound.map Prod.fst) with
    | some key => .error (.violation (.ambiguousBinding (← b.locator d) key))
    | none => .ok ()

/-- Checks the recorded node count of a side against its placed instance. -/
def checkCount (d : Diagram) (placements : Placements) (s : Side) : Except Fault Unit :=
  match s.record? d, placements.lookup s.subnet with
  | some record, some placed =>
    if record.nodeCount = placed.nodeCount then .ok ()
    else do
      .error (.violation (.nodeCountMismatch (← s.locator d)
        (.recorded record.nodeCount placed.nodeCount placed.name)))
  | _, _ => .ok ()

/-- Checks that two sides of a connector fit together. -/
def checkCompatible (d : Diagram) (placements : Placements) (connector : Slot) (a b : Side) :
    Except Fault Unit := do
  let nameA ← a.locator d
  let nameB ← b.locator d
  if a.nodes.length ≠ b.nodes.length then
    .error (.violation (.nodeCountMismatch nameB (.nodes b.nodes.length nameA a.nodes.length)))
  else if a.keys ≠ b.keys then
    let e ← d.fetch connector
    .error (.violation (.keyMismatch e.locator ⟨nameA, a.keys⟩ ⟨nameB, b.keys⟩))
  else do
    checkBindings d a b
    checkCount d placements a
    checkCount d placements b

/-! ## Super-ports -/

/-- The super-port of a connection recorded at a side of the instance `subnet`;
none if the other side has no numbered node for its key. -/
def superPort? (subnet : String) (other : Side) (c : Connection) : Option SuperPort :=
  (other.bound.reverse.lookup c.key).bind fun node =>
    (node.labelNatural? Text.nodeLimit).map fun number => ⟨subnet, c.link, c.port, number⟩

/-- The super-ports of the connections recorded at one side, in order. -/
def superPortsOf (d : Diagram) (placements : Placements) (own other : Side) : List SuperPort :=
  let subnet := ((placements.lookup own.subnet).map Placement.name).getD ""
  ((own.record? d).map InterfaceRecord.connections).getD [] |>.filterMap (superPort? subnet other)

/-- The element of a super-port. -/
def superPortElement (id : String) (connector : Slot) (p : SuperPort) : Element :=
  { id := id
    role := .superPort p
    label := p.subnet ++ "." ++ p.link ++ ":" ++ toString p.port
    parent := some connector
    fields := Fields.ofList [(SuperPort.subnetField, p.subnet), (SuperPort.linkField, p.link),
      (SuperPort.portField, toString p.port), (SuperPort.nodeField, toString p.node)] }

/-- Draws a super-port at a connector. -/
def drawSuperPort (naming : Naming) (connector : Slot) (p : SuperPort) : Edit Fault Unit := do
  let e ← Edit.check fun d => d.fetch connector
  let id ← Edit.read naming.fresh
  let _ ← Edit.change fun d =>
    (d.insert (superPortElement id connector p)).mapError fun error =>
      .topology (some e.locator) (.repeatedIdentity error)

/-- Draws the super-ports that are not in the list yet, and adds them to it. -/
def drawNew (naming : Naming) (connector : Slot) :
    List SuperPort → List SuperPort → Edit Fault (List SuperPort)
  | ports, [] => pure ports
  | ports, p :: rest =>
    if ports.contains p then drawNew naming connector ports rest
    else do
      drawSuperPort naming connector p
      drawNew naming connector (ports ++ [p]) rest

/-- The super-ports of a connector between two interfaces. -/
def bindSides (d : Diagram) (placements : Placements) (connector a b : Slot) :
    Except Fault (List SuperPort) := do
  let a ← side d a
  let b ← side d b
  checkCompatible d placements connector a b
  return superPortsOf d placements a b ++ superPortsOf d placements b a

/-- Stitches along connectors, in order; `ports` are the super-ports so far. -/
def stitchAll (naming : Naming) (placements : Placements) :
    List SuperPort → List Slot → Edit Fault (List SuperPort)
  | ports, [] => pure ports
  | ports, connector :: rest => do
    match ← Edit.read fun d => joined? d connector with
    | none =>
      let e ← Edit.check fun d => d.fetch connector
      Edit.warn (.looseConnector e.locator)
      stitchAll naming placements ports rest
    | some (a, b) =>
      let found ← Edit.check fun d => bindSides d placements connector a b
      let ports ← drawNew naming connector ports found
      stitchAll naming placements ports rest

/-- Whether the connector of a super-port no longer joins two interfaces. -/
def isOrphan (d : Diagram) (port : Slot) : Bool :=
  !((d.get? port).bind Element.parent).any fun connector => (joined? d connector).isSome

/-- Removes listed super-ports in order; gives the number of orphans. -/
def discard : List Slot → Diagram → Nat × Diagram
  | [], d => (0, d)
  | port :: rest, d =>
    let (orphans, later) := discard rest (d.remove port)
    (orphans + (if isOrphan d port then 1 else 0), later)

/-- Replaces the super-ports of a super-network. -/
def stitch (naming : Naming) (placements : Placements) (superNetwork : Slot) :
    Edit Fault Stitching := do
  let connectors ← Edit.read fun d =>
    (d.descendants superNetwork).filter fun i => (d.get? i).any fun e => e.role == .connector
  let old ← Edit.read fun d => d.select fun e => e.role.isSuperPort
  let orphaned ← Edit.change fun d => .ok (discard old d)
  if orphaned > 0 then Edit.warn (.superPortsOrphaned orphaned)
  let ports ← stitchAll naming placements [] connectors
  return ⟨ports, orphaned, old.length⟩

end Netlist.Assembly
