import Netlist.Document.Cell
import Netlist.Xml.Reader

/-!
# Documents

A document is an XML text with a drawing: an `mxGraphModel`, alone or on the
first page of an `mxfile`, whose `root` holds the cells. Every cell first
becomes an element in document order; then the identities its attributes name
are resolved, so cells may refer to each other in any order.
-/

namespace Netlist.Document

/-- The node whose children are the cells. -/
def cellRoot (top : Xml.Node) : Except Defect Xml.Node :=
  let rootOf (model : Xml.Node) : Except Defect Xml.Node :=
    match model.child? "root" with
    | some root => .ok root
    | none => .error .missingModel
  match top.name? with
  | some "mxGraphModel" => rootOf top
  | some "mxfile" =>
    match top.child? "diagram" with
    | none => .error .missingModel
    | some page =>
      match page.child? "mxGraphModel" with
      | some model => rootOf model
      | none =>
        if page.leadingText?.any fun t => !(Text.trim t).isEmpty then
          .error (.compressedContent ((page.attribute? "name").getD "") page.span)
        else .error .missingModel
  | _ => .error .missingModel

/-- Puts the elements of cells into a diagram, in order. -/
def place : List Cell → Diagram → Except Defect (List (Slot × Cell) × Diagram)
  | [], d => .ok ([], d)
  | c :: cs, d =>
    match d.insert c.element with
    | .error e => .error (.duplicateIdentity e.id c.span)
    | .ok (i, d) => do
      let (placed, d) ← place cs d
      return ((i, c) :: placed, d)

/-- The slot of the cell that an attribute names, if there is the attribute. -/
def reference (d : Diagram) (c : Cell) (via : LinkAttribute) :
    Option String → Except Defect (Option Slot)
  | none => .ok none
  | some name =>
    match d.find? name with
    | some i => .ok (some i)
    | none => .error (.unknownReference c.element.id via name c.span)

/-- Resolves the references of placed cells, in order. -/
def link : List (Slot × Cell) → Diagram → Except Defect Diagram
  | [], d => .ok d
  | (i, c) :: rest, d => do
    let parent ← reference d c .parent c.parent
    let source ← reference d c .source c.source
    let target ← reference d c .target c.target
    link rest <| d.modify i fun e =>
      { e with parent := parent.or e.parent, source := source, target := target }

/-- The diagram of the cells under a model root. -/
def ofCells (nodes : List Xml.Node) : Except Defect Diagram := do
  let cells ← Cell.readAll nodes
  let (placed, d) ← place cells Diagram.empty
  link placed d

/-- The diagram of an XML tree. -/
def ofTree (top : Xml.Node) : Except Defect Diagram := do
  let root ← cellRoot top
  ofCells root.children

/-- The diagram of a document text. -/
def read (source : String) : Except Defect Diagram :=
  match Xml.read source with
  | .ok top => ofTree top
  | .error m => .error (.malformed m (m.position.span source.toList))

end Netlist.Document
