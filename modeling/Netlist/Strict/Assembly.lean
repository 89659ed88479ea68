import Netlist.Assembly
import Netlist.Strict.Compilation

/-!
# Assembling with strict lookups

The stages of an assembly with strict lookups. The diagram changes all the time here:
instances are cleared and filled, super-ports are thrown away and drawn. So every lookup
stands at the place where a stage makes it, and sees the diagram of that moment.
-/

namespace Netlist.Strict

open Assembly (Context Refreshed Placed LooseEnd Placements Side Stitching)

/-- Looks up elements of the diagram and goes on. -/
def inspect (slots : Diagram → List Slot) : Edit Failure Unit :=
  Edit.mapError .ofFault (Edit.check fun d => look d (slots d))

/-- Looks up elements of another diagram and goes on. -/
def inspectIn (d : Diagram) (slots : List Slot) : Edit Failure Unit :=
  Edit.mapError .ofFault (Edit.check fun _ => look d slots)

/-! ## Instances -/

/-- The network containers among some elements whose nearest network container is the
super-network. -/
def directInstances (d : Diagram) (superNetwork : Slot) : List Slot → Except Fault (List Slot)
  | [] => .ok []
  | i :: rest => do
    let e ← d.fetch i
    if e.role.isSubNetwork then
      let around ← nearestAncestor d i fun _ e => e.role.isNetwork
      let later ← directInstances d superNetwork rest
      return if around = some superNetwork then i :: later else later
    else directInstances d superNetwork rest

/-- The instances of a super-network, in document order. -/
def findInstances (d : Diagram) (superNetwork : Slot) : Except Fault (List Slot) :=
  directInstances d superNetwork (d.descendants superNetwork)

/-! ## Refreshing an instance -/

/-- Removes everything inside an element, one child after the other. -/
def clear (i : Slot) (d : Diagram) : Except Fault Diagram :=
  (d.children i).foldlM (fun d child => (removeSubtree d child).map Prod.snd) d

/-- Attaches a loose end to the first interface of the instance with its label. -/
def rebind (interfaces : List Slot) (l : LooseEnd) : Edit Failure Unit := do
  inspect fun _ => interfaces
  Assembly.rebind interfaces l

/-- Attaches loose ends to the interfaces of an instance, in order. -/
def rebindAll (subnet : Slot) (ends : List LooseEnd) : Edit Failure Unit := do
  inspect fun d => d.descendants subnet
  let interfaces ← Edit.read fun d => Assembly.interfacesIn d subnet
  let _ ← Edit.forEach (rebind interfaces) ends

/-- Copies a compiled drawing into an instance. Its elements are looked up once more to
link the copies. -/
def importVisiting (visit : List (Slot × Slot) → List (Slot × Slot)) (naming : Naming)
    (subnet : Slot) (owner : Locator) (drawing : Diagram) (t : Topology) (interfaces : List Slot)
    (offset : Nat) : Edit Failure Unit := do
  inspect fun _ => [subnet]
  let copies ← Assembly.copyAll naming subnet owner drawing .empty
    (Assembly.members drawing t interfaces)
  inspectIn drawing ((visit copies).map Prod.fst)
  Edit.update (Assembly.relinkAll drawing subnet copies (visit copies))
  Edit.update (Assembly.shiftAll (Word.signed offset) ((visit copies).map Prod.snd))

/-- Replaces the content of an instance by a copy of its drawing. -/
def refresh (x : Context) (subnet : Slot) (name : String) (offset : Nat) :
    Edit Failure Refreshed := do
  let owner ← Edit.check fun d => ((d.fetch subnet).map Element.locator).mapError Failure.ofFault
  let drawing ← Edit.check fun _ => Assembly.loadDrawing x.shelf name owner
  let (compiled, diagram) ← Edit.mapError (fun f => .fault f drawing.text)
    (Edit.elsewhere (compile x.catalog x.switches Diagram.root) drawing.diagram)
  inspect fun d => d.descendants subnet
  inspect fun d => (Assembly.interfacesIn d subnet).flatMap d.edgesTouching
  let ends ← Edit.read fun d => Assembly.looseEndsAt d subnet
  Edit.mapError .ofFault (Edit.change fun d => (clear subnet d).map fun d => ((), d))
  let t := compiled.topology
  inspectIn diagram (t.interfaces.flatMap diagram.children)
  let interfaces := Assembly.distinct diagram t.interfaces
  importVisiting x.visiting.order x.naming subnet owner diagram t interfaces offset
  rebindAll subnet ends
  return {
    nodeCount := t.nodeCount
    duplicates := t.interfaces.length - interfaces.length
    reconciled := compiled.reconciliation.changeCount }

/-! ## Turns -/

/-- Keeps the content of an instance and moves it to `offset`. -/
def reuse (subnet : Slot) (offset : Nat) : Edit Fault Nat := do
  Edit.check fun d => look d (d.descendants subnet)
  Assembly.reuse subnet offset

/-- Brings the content of an instance to a block of numbers that starts at `offset`. -/
def settle (x : Context) (subnet : Slot) (drawing : Option String) (offset : Nat) :
    Edit Failure (Bool × Refreshed) := do
  let embedded ← Edit.read fun d => !(d.children subnet).isEmpty
  match drawing.filter fun _ => x.assembly.refresh || !embedded with
  | some name => return (true, ← refresh x subnet name offset)
  | none =>
    let nodeCount ← Edit.mapError .ofFault (reuse subnet offset)
    return (false, ⟨nodeCount, 0, 0⟩)

/-- Marks the duplicates among the interfaces of an instance. -/
def markInstance (subnet : Slot) : Edit Failure Nat := do
  inspect fun d => d.descendants subnet
  inspect fun d => (Assembly.interfacesIn d subnet).flatMap d.children
  Assembly.markInstance subnet

/-- Places one instance. -/
def place (x : Context) (subnet : Slot) (offset : Nat) : Edit Failure Placed := do
  let e ← Edit.check fun d => (d.fetch subnet).mapError Failure.ofFault
  let drawing := e.fields.get? Assembly.drawingField
  let (wasRefreshed, done) ← settle x subnet drawing offset
  Edit.update fun d => d.modify subnet (Assembly.withPlace offset done.nodeCount)
  let marked ← markInstance subnet
  return {
    slot := subnet
    subnet := ⟨e.displayName, drawing, offset, done.nodeCount⟩
    wasRefreshed := wasRefreshed
    duplicates := done.duplicates + marked
    reconciled := done.reconciled }

/-- Places instances one after the other, from a number on. -/
def placeAll (x : Context) : Nat → List Slot → Edit Failure (List Placed)
  | _, [] => pure []
  | offset, i :: rest => do
    let placed ← place x i offset
    let later ← placeAll x (Word.count (offset + placed.subnet.nodeCount)) rest
    return placed :: later

/-! ## Stitching -/

/-- The side of a connector at an interface. -/
def side (d : Diagram) (interface : Slot) : Except Fault Side := do
  let interface := Assembly.canonical d interface
  match ← nearestAncestor d interface fun _ e => e.role.isSubNetwork with
  | some subnet =>
    look d (d.children interface)
    return ⟨interface, subnet, Assembly.nodesOf d interface⟩
  | none =>
    let e ← d.fetch interface
    .error (.topology (some e.locator) (.strayInterface e.locator))

/-- The super-ports of a connector between two interfaces. The nodes of both sides are
looked up by the checks, and both interfaces for their records. -/
def bindSides (d : Diagram) (placements : Placements) (connector a b : Slot) :
    Except Fault (List SuperPort) := do
  let _ ← d.fetch connector
  let a ← side d a
  let b ← side d b
  look d ((a.nodes ++ b.nodes).map Prod.fst)
  Assembly.checkCompatible d placements connector a b
  look d [a.interface, b.interface]
  return Assembly.superPortsOf d placements a b ++ Assembly.superPortsOf d placements b a

/-- Stitches along connectors, in order. -/
def stitchAll (naming : Naming) (placements : Placements) :
    List SuperPort → List Slot → Edit Fault (List SuperPort)
  | ports, [] => pure ports
  | ports, connector :: rest => do
    match ← Edit.read fun d => Assembly.joined? d connector with
    | none =>
      let e ← Edit.check fun d => d.fetch connector
      Edit.warn (.looseConnector e.locator)
      stitchAll naming placements ports rest
    | some (a, b) =>
      let found ← Edit.check fun d => bindSides d placements connector a b
      let ports ← Assembly.drawNew naming connector ports found
      stitchAll naming placements ports rest

/-- Removes listed super-ports in order, each of which must be there; gives the number of
orphans. -/
def discard : List Slot → Diagram → Except Fault (Nat × Diagram)
  | [], d => .ok (0, d)
  | port :: rest, d => do
    let _ ← d.fetch port
    let (orphans, later) ← discard rest (d.remove port)
    return (orphans + (if Assembly.isOrphan d port then 1 else 0), later)

/-- Replaces the super-ports of a super-network. -/
def stitch (naming : Naming) (placements : Placements) (superNetwork : Slot) :
    Edit Fault Stitching := do
  Edit.check fun d => look d (d.descendants superNetwork)
  let connectors ← Edit.read fun d =>
    (d.descendants superNetwork).filter fun i => (d.get? i).any fun e => e.role == .connector
  let old ← Edit.read fun d => d.select fun e => e.role.isSuperPort
  let orphaned ← Edit.change (discard old)
  if orphaned > 0 then Edit.warn (.superPortsOrphaned orphaned)
  let ports ← stitchAll naming placements [] connectors
  return ⟨ports, orphaned, old.length⟩

/-! ## The whole assembly -/

/-- Assembles the super-network of a diagram. -/
def assemble (x : Context) : Edit Failure Assembly := do
  Edit.mapError .ofFault (Edit.check Diagram.validate)
  let superNetwork ← Edit.mapError .ofFault (Edit.check Assembly.findSuperNetwork)
  let e ← Edit.mapError .ofFault (Edit.check fun d => d.fetch superNetwork)
  let instances ← Edit.mapError .ofFault (Edit.check fun d => findInstances d superNetwork)
  let placed ← placeAll x 0 instances
  let stitching ← Edit.mapError .ofFault
    (stitch x.naming (placed.map Placed.placement) superNetwork)
  let names := fun (p : Placed → Bool) => (placed.filter p).map fun placed => placed.subnet.name
  return {
    network := {
      name := e.displayName
      nodeCount := Word.count ((placed.map fun p => p.subnet.nodeCount).foldr (· + ·) 0)
      subnets := placed.map Placed.subnet
      superPorts := stitching.superPorts }
    report := {
      refreshed := names fun p => p.wasRefreshed
      reused := names fun p => !p.wasRefreshed
      duplicateInterfaces := (placed.map fun p => p.duplicates).foldr (· + ·) 0
      orphanedSuperPorts := stitching.orphaned
      reconciledFields := (placed.map fun p => p.reconciled).foldr (· + ·) 0 } }

end Netlist.Strict
