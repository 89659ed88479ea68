import Netlist.Violation

/-!
# Topologies

The topology of a network is its elements sorted by the part they play: nodes
and their aliases, links and their ports, spotters and interfaces.
-/

namespace Netlist

/-- The elements of one network by the part they play. -/
structure Topology where
  /-- The container of the network. -/
  network : Slot
  domain : Domain
  /-- The nodes with numbers of their own, by increasing number. -/
  nodes : List Slot
  references : List Slot
  grounds : List Slot
  links : List Slot
  ports : List Slot
  spotters : List Slot
  interfaces : List Slot
  /-- The nodes inside interfaces, each with the nearest interface around it. -/
  interfaceNodes : List (Slot × Slot)
  /-- The number of grounds removed because no port reached them. -/
  prunedGrounds : Nat
deriving DecidableEq, Repr

namespace Topology

/-- The number of numbered nodes. -/
def nodeCount (t : Topology) : Nat := t.nodes.length

/-- The interface that a node is a copy in. -/
def interfaceOf? (t : Topology) (node : Slot) : Option Slot :=
  (t.interfaceNodes.find? fun copy => copy.1 == node).map Prod.snd

/-- Whether a slot is a node of the network, in whatever part. -/
def isNode (t : Topology) (i : Slot) : Bool :=
  t.nodes.contains i || t.references.contains i || t.grounds.contains i ||
    (t.interfaceOf? i).isSome

end Topology

end Netlist
