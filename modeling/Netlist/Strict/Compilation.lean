import Netlist.Compilation
import Netlist.Strict.Lookup

/-!
# Compiling with strict lookups

The stages of a compilation with the lookups made strict that a stage makes without
asking first whether the element is there: whatever it sorts, numbers, reads off or
removes is looked up in the diagram as it is at that moment. The other lookups of a
stage are those of its usual form.
-/

namespace Netlist.Strict

open Netlist.Topology (mainNodes innerNodes portsOf withRole reaches)

/-- The one network container of a scope. -/
def container (d : Diagram) (scope : Slot) : Except Fault Slot := do
  look d (d.descendants scope)
  Topology.container d scope

/-- Pairs every node with the nearest interface around it. -/
def homes (d : Diagram) : List Slot → Except Fault (List (Slot × Option Slot))
  | [] => .ok []
  | i :: rest => do
    let interface ← nearestAncestor d i fun _ e => e.role.isInterface
    return (i, interface) :: (← homes d rest)

/-- Sorts the contents of the one network of a scope. -/
def collect (d : Diagram) (scope : Slot) : Except Fault Topology := do
  let network ← container d scope
  let members := d.descendants network
  look d members
  let homes ← homes d (withRole d members fun r => r.nodeKind?.isSome)
  let links := withRole d members Role.isLink
  return {
    network := network
    domain := .basic
    nodes := mainNodes d homes NodeKind.isNumbered
    references := mainNodes d homes (· == .reference)
    grounds := mainNodes d homes (· == .ground)
    links := links
    ports := portsOf d members links
    spotters := withRole d members Role.isSpotter
    interfaces := withRole d members Role.isInterface
    interfaceNodes := innerNodes homes
    prunedGrounds := 0 }

/-- The domain of a network, read off its nodes and links. -/
def agreedDomain (c : Catalog) (d : Diagram) (t : Topology) : Except Fault Domain := do
  look d (t.nodes ++ t.interfaceNodes.map Prod.fst)
  Topology.agreedDomain c d t

/-- Numbers the nodes of a network; those in interfaces are asked whether they are grounds. -/
def renumber (d : Diagram) (t : Topology) : Except Fault (Topology × Diagram) := do
  look d (t.interfaceNodes.map Prod.fst)
  Topology.renumber d t

/-- Removes the grounds outside interfaces that no port reaches. -/
def pruneGrounds (d : Diagram) (t : Topology) : Except Fault (Topology × Diagram) := do
  look d t.ports
  let (kept, loose) := t.grounds.partition (reaches d t)
  let d ← removeEach loose d
  return ({ t with grounds := kept, prunedGrounds := loose.length }, d)

/-- Extracts the topology of the one network in a scope. -/
def extract (c : Catalog) (prune : Bool) (scope : Slot) (d : Diagram) :
    Except Fault (Topology × Diagram) := do
  let t ← collect d scope
  Topology.checkFilled d t
  let domain ← agreedDomain c d t
  let (t, d) ← renumber d { t with domain := domain }
  if prune then pruneGrounds d t else return (t, d)

/-- The port maps of the links of a topology. A port that ends in an interface is looked
up at its far end. -/
def buildMaps (c : Catalog) (t : Topology) (d : Diagram) : Except Fault PortMaps := do
  look d (t.interfaceNodes.map Prod.fst)
  PortMaps.build c t d

/-- Compiles the one network in a scope. -/
def compile (c : Catalog) (switches : Switches) (scope : Slot) : Edit Fault Compilation := do
  Edit.check Diagram.validate
  let t ← Edit.change (extract c switches.pruneGrounds scope)
  let maps ← Edit.check (buildMaps c t)
  let reconciliation ←
    if switches.reconcile then Compilation.reconcile c (t.links ++ t.spotters)
    else pure .empty
  let interfaces ← Recording.record t maps
  let network ← Edit.check (Compilation.readNetwork t maps interfaces)
  return ⟨network, t, reconciliation⟩

end Netlist.Strict
