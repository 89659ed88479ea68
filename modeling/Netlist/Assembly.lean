import Netlist.Assembly.Reuse
import Netlist.Assembly.Stitching
import Netlist.Settings

/-!
# Assembling a super-network

A super-network holds instances of networks. Assembly gives every instance, in
document order, the next block of node numbers, brings its content there by
refreshing or reusing it, and finally stitches the instances together. Blocks are
counted in words, and the block after the last number is counted from zero again.
-/

namespace Netlist

/-- What was done while assembling. -/
structure AssemblyReport where
  /-- The instances imported again from their drawings. -/
  refreshed : List String
  /-- The instances whose content was kept. -/
  reused : List String
  duplicateInterfaces : Nat
  orphanedSuperPorts : Nat
  /-- The field changes made while compiling drawings. -/
  reconciledFields : Nat
deriving DecidableEq, Repr

/-- An assembled super-network. -/
structure Assembly where
  network : SuperNetwork
  report : AssemblyReport
deriving DecidableEq, Repr

namespace Assembly

/-- What assembly works with. -/
structure Context where
  catalog : Catalog
  switches : Switches
  assembly : AssemblySwitches
  shelf : Shelf
  naming : Naming
  visiting : Visiting := .asMade

/-- The one super-network of a document. -/
def findSuperNetwork (d : Diagram) : Except Fault Slot :=
  match d.select fun e => e.role.isSuperNetwork with
  | [network] => .ok network
  | [] => .error (.topology none .noSuperNetwork)
  | _ :: second :: rest =>
    (d.fetch second).bind fun e =>
      .error (.topology (some e.locator) (.severalSuperNetworks (rest.length + 2)))

/-- The network containers among some elements whose nearest network container
is the super-network. -/
def directInstances (d : Diagram) (superNetwork : Slot) : List Slot → Except Fault (List Slot)
  | [] => .ok []
  | i :: rest =>
    if (d.get? i).any fun e => e.role.isSubNetwork then do
      let around ← d.nearestAncestor i fun _ e => e.role.isNetwork
      let later ← directInstances d superNetwork rest
      return if around = some superNetwork then i :: later else later
    else directInstances d superNetwork rest

/-- The instances of a super-network, in document order. -/
def findInstances (d : Diagram) (superNetwork : Slot) : Except Fault (List Slot) :=
  directInstances d superNetwork (d.descendants superNetwork)

/-- An instance with its new block of numbers, and what was done to it. -/
structure Placed where
  slot : Slot
  subnet : Subnet
  wasRefreshed : Bool
  duplicates : Nat
  reconciled : Nat
deriving DecidableEq, Repr

namespace Placed

/-- The placement of an instance. -/
def placement (p : Placed) : Slot × Placement :=
  (p.slot, ⟨p.subnet.name, p.subnet.offset, p.subnet.nodeCount⟩)

end Placed

/-- An instance with its place written into its fields. -/
def withPlace (offset nodeCount : Nat) (e : Element) : Element :=
  (e.withField offsetField (toString offset)).withField Connections.nodeCountField
    (toString nodeCount)

/-- Marks the duplicates among the interfaces of an instance; gives their number. -/
def markInstance (subnet : Slot) : Edit Failure Nat := do
  let pairs ← Edit.read fun d => duplicates d (interfacesIn d subnet)
  Edit.update (markDuplicates pairs)
  return pairs.length

/-- Replaces the content of an instance by a copy of its drawing. -/
def refresh (x : Context) (subnet : Slot) (name : String) (offset : Nat) : Edit Failure Refreshed :=
  refreshVisiting x.visiting.order x.catalog x.switches x.shelf x.naming subnet name offset

/-- Brings the content of an instance to a block of numbers that starts at
`offset`. An instance with a drawing is refreshed if it has no content or if
the user wants it. -/
def settle (x : Context) (subnet : Slot) (drawing : Option String) (offset : Nat) :
    Edit Failure (Bool × Refreshed) := do
  let embedded ← Edit.read fun d => !(d.children subnet).isEmpty
  match drawing.filter fun _ => x.assembly.refresh || !embedded with
  | some name => return (true, ← refresh x subnet name offset)
  | none =>
    let nodeCount ← Edit.mapError .ofFault (reuse subnet offset)
    return (false, ⟨nodeCount, 0, 0⟩)

/-- Places one instance. -/
def place (x : Context) (subnet : Slot) (offset : Nat) : Edit Failure Placed := do
  let e ← Edit.check fun d => (d.fetch subnet).mapError Failure.ofFault
  let drawing := e.fields.get? drawingField
  let (wasRefreshed, done) ← settle x subnet drawing offset
  Edit.update fun d => d.modify subnet (withPlace offset done.nodeCount)
  let marked ← markInstance subnet
  return {
    slot := subnet
    subnet := ⟨e.displayName, drawing, offset, done.nodeCount⟩
    wasRefreshed := wasRefreshed
    duplicates := done.duplicates + marked
    reconciled := done.reconciled }

/-- Places instances one after the other, from a number on. -/
def placeAll (x : Context) : Nat → List Slot → Edit Failure (List Placed)
  | _, [] => pure []
  | offset, i :: rest => do
    let placed ← place x i offset
    let later ← placeAll x (Word.count (offset + placed.subnet.nodeCount)) rest
    return placed :: later

end Assembly

/-- Assembles the super-network of a diagram. -/
def assemble (x : Assembly.Context) : Edit Failure Assembly := do
  Edit.mapError .ofFault (Edit.check Diagram.validate)
  let superNetwork ← Edit.mapError .ofFault (Edit.check Assembly.findSuperNetwork)
  let e ← Edit.mapError .ofFault (Edit.check fun d => d.fetch superNetwork)
  let instances ← Edit.mapError .ofFault
    (Edit.check fun d => Assembly.findInstances d superNetwork)
  let placed ← Assembly.placeAll x 0 instances
  let stitching ← Edit.mapError .ofFault
    (Assembly.stitch x.naming (placed.map Assembly.Placed.placement) superNetwork)
  let names := fun (p : Assembly.Placed → Bool) =>
    (placed.filter p).map fun placed => placed.subnet.name
  return {
    network := {
      name := e.displayName
      nodeCount := Word.count ((placed.map fun p => p.subnet.nodeCount).foldr (· + ·) 0)
      subnets := placed.map Assembly.Placed.subnet
      superPorts := stitching.superPorts }
    report := {
      refreshed := names fun p => p.wasRefreshed
      reused := names fun p => !p.wasRefreshed
      duplicateInterfaces := (placed.map fun p => p.duplicates).foldr (· + ·) 0
      orphanedSuperPorts := stitching.orphaned
      reconciledFields := (placed.map fun p => p.reconciled).foldr (· + ·) 0 } }

end Netlist
