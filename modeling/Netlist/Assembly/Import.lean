import Netlist.Compilation
import Netlist.Drawing
import Netlist.Identity
import Netlist.Word
import Netlist.Assembly.Duplicates

/-!
# Importing a drawing

An instance of a super-network holds a copy of its drawing. Importing compiles
the drawing, throws the old copy away and makes a new one. If the drawing has
interfaces, only they are copied; otherwise everything in the network is, and
the ports of its links. Copies get new identities, and their labels move to the
block of numbers of the instance.

An edge of which one end is not copied is left out. Connectors of the
super-network that were attached to interfaces of the old copy are attached to
the new interfaces with the same labels.
-/

namespace Netlist.Assembly

/-! ## Labels -/

/-- The element with its number moved, as far as a word goes. Grounds, elements that are
no nodes, and labels that are no integers stay as they are. -/
def shift (delta : Int) (e : Element) : Element :=
  if e.nodeKind?.isSome && !e.isGround then
    match e.labelNumber? with
    | some number => { e with label := toString (Word.signed (number + delta)) }
    | none => e
  else e

/-- Moves the numbers of some elements. -/
def shiftAll (delta : Int) (slots : List Slot) (d : Diagram) : Diagram :=
  slots.foldl (fun d i => d.modify i (shift delta)) d

/-! ## Connectors at the old copy -/

/-- The interfaces inside an element, in order. -/
def interfacesIn (d : Diagram) (i : Slot) : List Slot :=
  (d.descendants i).filter fun j => (d.get? j).any fun e => e.role.isInterface

/-- An end of a connector at an interface that is going to be replaced. -/
structure LooseEnd where
  connector : Slot
  isSource : Bool
  /-- The label of the interface. -/
  label : String
deriving DecidableEq, Repr

/-- The ends that a connector has at an interface. -/
def looseEnds (interface : Slot) (label : String) (connector : Slot) (e : Element) :
    List LooseEnd :=
  if e.role == .connector then
    (if e.source = some interface then [⟨connector, true, label⟩] else []) ++
      (if e.target = some interface then [⟨connector, false, label⟩] else [])
  else []

/-- The ends of connectors at the interfaces of an instance. -/
def looseEndsAt (d : Diagram) (subnet : Slot) : List LooseEnd :=
  (interfacesIn d subnet).flatMap fun i =>
    let label := ((d.get? i).map Element.label).getD ""
    (d.edgesTouching i).flatMap fun c =>
      ((d.get? c).map (looseEnds i label c)).getD []

/-- Attaches an end to an interface. -/
def LooseEnd.attach (l : LooseEnd) (interface : Slot) (e : Element) : Element :=
  if l.isSource then { e with source := some interface } else { e with target := some interface }

/-- Attaches a loose end to the first interface of the instance with its label. -/
def rebind (interfaces : List Slot) (l : LooseEnd) : Edit Failure Unit := do
  let labelled ← Edit.read fun d =>
    interfaces.find? fun i => (d.get? i).any fun e => e.label == l.label
  match labelled with
  | some interface => Edit.update fun d => d.modify l.connector (l.attach interface)
  | none => Edit.warn (.interfaceGone l.label)

/-- Attaches loose ends to the interfaces of an instance, in order. -/
def rebindAll (subnet : Slot) (ends : List LooseEnd) : Edit Failure Unit := do
  let interfaces ← Edit.read fun d => interfacesIn d subnet
  let _ ← Edit.forEach (rebind interfaces) ends

/-! ## The copy -/

/-- The elements of a drawing that are copied, in increasing order. -/
def members (d : Diagram) (t : Topology) (interfaces : List Slot) : List Slot :=
  let wanted :=
    if t.interfaces.isEmpty then d.descendants t.network ++ t.ports
    else interfaces.flatMap fun i => i :: d.descendants i
  (List.range d.bound).filter wanted.contains

/-- Copies an element into an instance, without its ends. -/
def copyOne (naming : Naming) (subnet : Slot) (owner : Locator) (table : Substitution)
    (drawn : Element) : Edit Failure (Slot × Substitution) := do
  let proposal ← Edit.read naming.fresh
  let (id, table) := table.substitute drawn.id proposal
  let copy : Element :=
    { drawn with id := id, parent := some subnet, source := none, target := none, span := none }
  let slot ← Edit.change fun d =>
    (d.insert copy).mapError fun e => .ofFault (.topology (some owner) (.repeatedIdentity e))
  return (slot, table)

/-- Copies the listed elements of a drawing; gives the slot of every element
copied with the slot of its copy. -/
def copyAll (naming : Naming) (subnet : Slot) (owner : Locator) (drawing : Diagram) :
    Substitution → List Slot → Edit Failure (List (Slot × Slot))
  | _, [] => pure []
  | table, i :: rest => do
    let drawn ← Edit.check fun _ => (drawing.fetch i).mapError Failure.ofFault
    let (copy, table) ← copyOne naming subnet owner table drawn
    let copies ← copyAll naming subnet owner drawing table rest
    return (i, copy) :: copies

/-- The copy of an end or parent of an element of the drawing. -/
def copyOf? (copies : List (Slot × Slot)) (i : Option Slot) : Option Slot :=
  i.bind fun i => List.lookup i copies

/-- Whether an element of the drawing has an end that is not copied. -/
def isBroken (copies : List (Slot × Slot)) (drawn : Element) : Bool :=
  (drawn.source.isSome && (copyOf? copies drawn.source).isNone) ||
    (drawn.target.isSome && (copyOf? copies drawn.target).isNone)

/-- Puts a copy in the place among the copies that the element it copies has; a copy with
an end that is not copied is removed. -/
def relink (drawing : Diagram) (subnet : Slot) (copies : List (Slot × Slot)) (d : Diagram)
    (pair : Slot × Slot) : Diagram :=
  match drawing.get? pair.1 with
  | none => d
  | some drawn =>
    if isBroken copies drawn then d.remove pair.2
    else d.modify pair.2 fun e => { e with
      parent := some ((copyOf? copies drawn.parent).getD subnet)
      source := copyOf? copies drawn.source
      target := copyOf? copies drawn.target }

/-- Relinks copies in a given order. -/
def relinkAll (drawing : Diagram) (subnet : Slot) (copies order : List (Slot × Slot))
    (d : Diagram) : Diagram :=
  order.foldl (relink drawing subnet copies) d

/-- An order in which the copies of a drawing are visited, each of them once. -/
structure Visiting where
  order : List (Slot × Slot) → List (Slot × Slot)
  perm : ∀ copies, (order copies).Perm copies

/-- The copies are visited in the order in which they were made. -/
def Visiting.asMade : Visiting := ⟨id, List.Perm.refl⟩

/-- Copies a compiled drawing into an instance whose numbers start at `offset`. The copies
are relinked and moved in the order that `visit` gives to the table of copies. -/
def importVisiting (visit : List (Slot × Slot) → List (Slot × Slot)) (naming : Naming)
    (subnet : Slot) (owner : Locator) (drawing : Diagram) (t : Topology) (interfaces : List Slot)
    (offset : Nat) : Edit Failure Unit := do
  let copies ← copyAll naming subnet owner drawing .empty (members drawing t interfaces)
  Edit.update (relinkAll drawing subnet copies (visit copies))
  Edit.update (shiftAll (Word.signed offset) ((visit copies).map Prod.snd))

/-! ## Refreshing an instance -/

/-- What refreshing an instance found out. -/
structure Refreshed where
  nodeCount : Nat
  duplicates : Nat
  reconciled : Nat
deriving DecidableEq, Repr

/-- The drawing that an instance names. -/
def loadDrawing (shelf : Shelf) (name : String) (owner : Locator) : Except Failure Drawing :=
  match shelf name with
  | .error f => .error f
  | .ok none => .error (.ofFault (.violation (.missingDrawing owner name)))
  | .ok (some drawing) =>
    if drawing.diagram.hasRole Role.isSuperNetwork then
      .error (.ofFault (.violation (.nestedSuperNetwork owner name)))
    else .ok drawing

/-- Removes everything inside an element. -/
def clear (i : Slot) (d : Diagram) : Diagram :=
  (d.children i).foldl (fun d child => (d.removeSubtree child).2) d

/-- Replaces the content of an instance by a copy of its drawing. -/
def refreshVisiting (visit : List (Slot × Slot) → List (Slot × Slot)) (c : Catalog)
    (switches : Switches) (shelf : Shelf) (naming : Naming) (subnet : Slot) (name : String)
    (offset : Nat) : Edit Failure Refreshed := do
  let owner ← Edit.check fun d => ((d.fetch subnet).map Element.locator).mapError Failure.ofFault
  let drawing ← Edit.check fun _ => loadDrawing shelf name owner
  let (compiled, diagram) ← Edit.mapError (fun f => .fault f drawing.text)
    (Edit.elsewhere (compile c switches Diagram.root) drawing.diagram)
  let ends ← Edit.read fun d => looseEndsAt d subnet
  Edit.update (clear subnet)
  let t := compiled.topology
  let interfaces := distinct diagram t.interfaces
  importVisiting visit naming subnet owner diagram t interfaces offset
  rebindAll subnet ends
  return {
    nodeCount := t.nodeCount
    duplicates := t.interfaces.length - interfaces.length
    reconciled := compiled.reconciliation.changeCount }

end Netlist.Assembly
