import Netlist.Diagram.Containment
import Netlist.Topology

/-!
# Sorting the elements of a network

A scope must hold exactly one network container. Its contents are sorted by
role; nodes are sorted further by the interface around them, if there is one,
and by subtype. A port belongs to the network if it lies in it or has an end
at one of its links, because ports are often drawn outside the container.
-/

namespace Netlist.Topology

/-- The network containers of a scope, the scope itself included. -/
def containers (d : Diagram) (scope : Slot) : List Slot :=
  let isContainer := fun i => (d.get? i).any fun e => e.role.isSubNetwork
  [scope].filter isContainer ++ (d.descendants scope).filter isContainer

/-- The one network container of a scope. -/
def container (d : Diagram) (scope : Slot) : Except Fault Slot :=
  match containers d scope with
  | [network] => .ok network
  | [] => .error (.topology ((d.get? scope).map Element.locator) .noNetwork)
  | _ :: second :: rest =>
    (d.fetch second).bind fun e =>
      .error (.topology (some e.locator) (.severalNetworks (rest.length + 2)))

/-- The members whose role passes a test. -/
def withRole (d : Diagram) (members : List Slot) (p : Role → Bool) : List Slot :=
  members.filter fun i => (d.get? i).any fun e => p e.role

/-- The nearest interface around an element. -/
def interfaceAround (d : Diagram) (i : Slot) : Except Fault (Option Slot) :=
  d.nearestAncestor i fun _ e => e.role.isInterface

/-- Pairs every node with the nearest interface around it. -/
def homes (d : Diagram) : List Slot → Except Fault (List (Slot × Option Slot))
  | [] => .ok []
  | i :: rest => do
    let interface ← interfaceAround d i
    return (i, interface) :: (← homes d rest)

/-- The nodes outside all interfaces whose subtype passes a test. -/
def mainNodes (d : Diagram) (homes : List (Slot × Option Slot)) (p : NodeKind → Bool) : List Slot :=
  homes.filterMap fun (i, interface) =>
    if interface.isNone && (d.get? i).any (fun e => e.nodeKind?.any p) then some i else none

/-- The nodes inside interfaces. -/
def innerNodes (homes : List (Slot × Option Slot)) : List (Slot × Slot) :=
  homes.filterMap fun (i, interface) => interface.map fun interface => (i, interface)

/-- The ports of a network, in order: those among its members and those with an
end at one of its links. -/
def portsOf (d : Diagram) (members links : List Slot) : List Slot :=
  (d.select fun e => e.role == .port).filter fun i =>
    members.contains i || links.any fun link => (d.get? i).any fun e => e.touches link

/-- Sorts the contents of the one network of a scope. Nodes are in document
order, and the domain is not settled yet. -/
def collect (d : Diagram) (scope : Slot) : Except Fault Topology := do
  let network ← container d scope
  let members := d.descendants network
  let homes ← homes d (withRole d members fun r => r.nodeKind?.isSome)
  let links := withRole d members Role.isLink
  return {
    network := network
    domain := .basic
    nodes := mainNodes d homes NodeKind.isNumbered
    references := mainNodes d homes (· == .reference)
    grounds := mainNodes d homes (· == .ground)
    links := links
    ports := portsOf d members links
    spotters := withRole d members Role.isSpotter
    interfaces := withRole d members Role.isInterface
    interfaceNodes := innerNodes homes
    prunedGrounds := 0 }

end Netlist.Topology
