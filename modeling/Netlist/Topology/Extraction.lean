import Netlist.Topology.Buckets
import Netlist.Topology.Domains
import Netlist.Topology.Numbering

/-!
# Extracting a topology

Extraction finds the network of a scope, checks that it is one, and numbers
its nodes. Grounds that no port reaches are drawing leftovers and are removed
unless the caller wants to keep them. Nothing changes if a check fails.
-/

namespace Netlist.Topology

/-- Checks that a network has nodes, links and ports. -/
def checkFilled (d : Diagram) (t : Topology) : Except Fault Unit := do
  let network ← d.fetch t.network
  let lacking (issue : TopologyIssue) : Except Fault Unit :=
    .error (.topology (some network.locator) issue)
  if t.nodes.isEmpty then lacking .noNumberedNodes
  else if t.links.isEmpty then lacking .noLinks
  else if t.ports.isEmpty then lacking .noPorts
  else .ok ()

/-- Whether a port of the network ends at `i`. -/
def reaches (d : Diagram) (t : Topology) (i : Slot) : Bool :=
  t.ports.any fun port => (d.get? port).any fun e => e.touches i

/-- Removes the grounds outside interfaces that no port reaches. -/
def pruneGrounds (d : Diagram) (t : Topology) : Topology × Diagram :=
  let (kept, loose) := t.grounds.partition (reaches d t)
  ({ t with grounds := kept, prunedGrounds := loose.length }, loose.foldl Diagram.remove d)

/-- Extracts the topology of the one network in a scope. The nodes and their
aliases carry their new numbers as labels afterwards. -/
def extract (c : Catalog) (prune : Bool) (scope : Slot) (d : Diagram) :
    Except Fault (Topology × Diagram) := do
  let t ← collect d scope
  checkFilled d t
  let domain ← agreedDomain c d t
  let (t, d) ← renumber d { t with domain := domain }
  return if prune then pruneGrounds d t else (t, d)

end Netlist.Topology
