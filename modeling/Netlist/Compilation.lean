import Netlist.Reconciliation
import Netlist.Recording
import Netlist.Topology.Extraction

/-!
# Compiling a network

Compiling runs the stages on one scope of a diagram: containment, topology,
port maps, reconciliation, interface records. The diagram is brought up to
date on the way, and the network is then read off it.
-/

namespace Netlist

/-- The choices a user has for compiling. -/
structure Switches where
  /-- Whether to remove grounds that no port reaches. -/
  pruneGrounds : Bool := true
  /-- Whether to reconcile fields with the masters. -/
  reconcile : Bool := true
deriving DecidableEq, Repr

/-- A compiled network, the elements it was read from, and what was repaired. -/
structure Compilation where
  network : Network
  topology : Topology
  reconciliation : Reconciliation
deriving DecidableEq

namespace Compilation

/-! ## Reconciling elements -/

/-- What reconciling one element found out. -/
def reconcileOne (c : Catalog) (i : Slot) : Edit Fault Reconciliation := do
  match ← Edit.read fun d => d.get? i with
  | none => return .empty
  | some e =>
    match c.masterOf? e.role with
    | none =>
      Edit.warn (.missingMaster e.locator)
      return ⟨[], [e.locator]⟩
    | some master =>
      let (changes, fields) := e.fields.reconcile master.fields
      Edit.update fun d => d.modify i fun e => { e with fields := fields }
      return if changes.isEmpty then .empty else ⟨[⟨e.locator, changes⟩], []⟩

/-- Reconciles elements with their masters, in order. Elements without a master
are left alone. -/
def reconcile (c : Catalog) (slots : List Slot) : Edit Fault Reconciliation := do
  let parts ← Edit.forEach (reconcileOne c) slots
  return ⟨parts.flatMap Reconciliation.reports, parts.flatMap Reconciliation.missingMasters⟩

/-! ## Reading off the network -/

/-- The numbered nodes, from a number on. -/
def nodeRecords (d : Diagram) : Nat → List Slot → Except Fault (List NodeRecord)
  | _, [] => .ok []
  | number, i :: rest => do
    let e ← d.fetch i
    return ⟨number, e.fields⟩ :: (← nodeRecords d (number + 1) rest)

/-- The links with their port maps. -/
def linkRecords (d : Diagram) : List ResolvedLink → Except Fault (List LinkRecord)
  | [] => .ok []
  | resolved :: rest => do
    let e ← d.fetch resolved.link
    let later ← linkRecords d rest
    match e.role with
    | .link shape => return ⟨e.label, shape, resolved.portMap, e.fields⟩ :: later
    | _ => return later

/-- The spotters. -/
def spotterRecords (d : Diagram) : List Slot → Except Fault (List SpotterRecord)
  | [] => .ok []
  | i :: rest => do
    let e ← d.fetch i
    let later ← spotterRecords d rest
    match e.role with
    | .spotter shape => return ⟨e.label, shape, e.fields⟩ :: later
    | _ => return later

/-- The network of a topology. -/
def readNetwork (t : Topology) (maps : PortMaps) (interfaces : List InterfaceEntry) (d : Diagram) :
    Except Fault Network := do
  let container ← d.fetch t.network
  return {
    name := container.displayName
    domain := t.domain
    nodes := ← nodeRecords d 0 t.nodes
    links := ← linkRecords d maps.links
    spotters := ← spotterRecords d t.spotters
    socketLists := maps.socketLists
    interfaces := interfaces }

end Compilation

/-- Compiles the one network in a scope. -/
def compile (c : Catalog) (switches : Switches) (scope : Slot) : Edit Fault Compilation := do
  Edit.check Diagram.validate
  let t ← Edit.change (Topology.extract c switches.pruneGrounds scope)
  let maps ← Edit.check (PortMaps.build c t)
  let reconciliation ←
    if switches.reconcile then Compilation.reconcile c (t.links ++ t.spotters)
    else pure .empty
  let interfaces ← Recording.record t maps
  let network ← Edit.check (Compilation.readNetwork t maps interfaces)
  return ⟨network, t, reconciliation⟩

end Netlist
