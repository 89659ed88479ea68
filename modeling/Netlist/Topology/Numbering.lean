import Netlist.Topology

/-!
# Numbering the nodes

Nodes are labelled with integers by hand, in any order and with gaps. A
network numbers them anew from `0`, in the order of their labels: the new
number of a node is the rank of its label. References and the copies in
interfaces are aliases; their labels name a node and follow it.
-/

namespace Netlist.Topology

/-- The labels of nodes as integers, each with its node. No two may be equal. -/
def readLabels (d : Diagram) : List (Int × Slot) → List Slot → Except Fault (List (Int × Slot))
  | seen, [] => .ok seen.reverse
  | seen, i :: rest => do
    let node ← d.fetch i
    match node.labelNumber? with
    | none => .error (.topology (some node.locator) (.nodeLabelNotInteger node.label))
    | some number =>
      match seen.find? fun s => s.1 == number with
      | some (_, holder) => do
        let first ← d.fetch holder
        .error (.topology (some node.locator) (.numberUsedTwice number first.locator))
      | none => readLabels d ((number, i) :: seen) rest

/-- Labelled nodes by increasing label. -/
def byLabel (labelled : List (Int × Slot)) : List (Int × Slot) :=
  labelled.mergeSort fun a b => a.1 ≤ b.1

/-- The place of a label in a list of labelled nodes. -/
def rank? (labelled : List (Int × Slot)) (label : Int) : Option Nat :=
  labelled.findIdx? fun n => n.1 == label

/-- The nodes that take the number of another: references, and copies in
interfaces that are no grounds. -/
def aliases (d : Diagram) (t : Topology) : List Slot :=
  t.references ++
    (t.interfaceNodes.map Prod.fst).filter fun i => !(d.get? i).any Element.isGround

/-- The new numbers of aliases. -/
def aliasNumbers (d : Diagram) (labelled : List (Int × Slot)) :
    List Slot → Except Fault (List (Slot × Nat))
  | [] => .ok []
  | i :: rest => do
    let node ← d.fetch i
    match node.labelNumber?.bind (rank? labelled) with
    | none => .error (.topology (some node.locator) (.unknownNumber node.label))
    | some number => return (i, number) :: (← aliasNumbers d labelled rest)

/-- Labels every listed element with its number. -/
def relabel (numbers : List (Slot × Nat)) (d : Diagram) : Diagram :=
  numbers.foldl (fun d n => d.modify n.1 fun e => { e with label := toString n.2 }) d

/-- Numbers the nodes of a network and moves the aliases along. -/
def renumber (d : Diagram) (t : Topology) : Except Fault (Topology × Diagram) := do
  let labelled := byLabel (← readLabels d [] t.nodes)
  let moved ← aliasNumbers d labelled (aliases d t)
  let nodes := labelled.map Prod.snd
  return ({ t with nodes := nodes }, relabel (nodes.zipIdx ++ moved) d)

end Netlist.Topology
