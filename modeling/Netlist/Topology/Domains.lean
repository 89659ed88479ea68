import Netlist.Library.Catalog
import Netlist.Topology

/-!
# Agreement on a domain

All numbered nodes of a network, the copies in its interfaces included, belong
to one domain, and so do all its links whose masters have a domain. The two
must be the same.
-/

namespace Netlist.Topology

/-- The domains of some nodes, in order. -/
def nodeDomains (d : Diagram) (nodes : List Slot) : List Domain :=
  nodes.filterMap fun i => ((d.get? i).bind Element.nodeKind?).bind NodeKind.domain?

/-- The domain that all nodes share; `basic` if none has a domain. -/
def commonDomain : List Domain → Option Domain
  | [] => some .basic
  | first :: rest => if rest.all (· == first) then some first else none

/-- The domain that all links share, with the first link that has it. Every
link needs a master, but masters need no domain. -/
def linkDomain (c : Catalog) (d : Diagram) :
    Option (Domain × Locator) → List Slot → Except Fault (Option (Domain × Locator))
  | seen, [] => .ok seen
  | seen, i :: rest => do
    let link ← d.fetch i
    match c.masterOf? link.role with
    | none => .error (.topology (some link.locator) (.missingMaster link.locator))
    | some master =>
      match master.domain, seen with
      | none, _ => linkDomain c d seen rest
      | some domain, none => linkDomain c d (some (domain, link.locator)) rest
      | some domain, some (first, _) =>
        if domain = first then linkDomain c d seen rest
        else .error (.topology (some link.locator) .mixedLinks)

/-- The domain of a network. -/
def agreedDomain (c : Catalog) (d : Diagram) (t : Topology) : Except Fault Domain := do
  let network ← d.fetch t.network
  match commonDomain (nodeDomains d (t.nodes ++ t.interfaceNodes.map Prod.fst)) with
  | none => .error (.topology (some network.locator) .mixedNodes)
  | some nodes =>
    match ← linkDomain c d none t.links with
    | none => return nodes
    | some (links, first) =>
      if links = nodes then return nodes
      else .error (.topology (some first) (.wrongLinkDomain links nodes))

end Netlist.Topology
