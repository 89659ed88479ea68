import Netlist.Document.Defect
import Netlist.Diagram
import Netlist.Xml.Tree

/-!
# Cells of a document

A cell is one child of the model root of a drawing. A bare `mxCell` is a plain
object. An `object` or `UserObject` carries its identity, label and data
fields as attributes, its references on an inner `mxCell`, and its role on an
inner `tag`. References are still identities here; the document resolves them
once all its cells are known.
-/

namespace Netlist

open Netlist.Text (Span)

namespace Cell

/-- Attributes of an object that are no data fields. -/
def reserved : List String := ["id", "label", "placeholders", "tooltip"]

/-- The data fields of an object. -/
def fields (n : Xml.Node) : Fields :=
  Fields.ofList <| (n.attributes.filter fun a => !reserved.contains a.name).map fun a =>
    (a.name, a.value)

/-- The shape that a tag names, unless its subtype is empty. -/
def shape? (tag : Xml.Node) : Option Shape :=
  let subtype := (tag.attribute? "subtype").getD ""
  if subtype.isEmpty then none
  else some ⟨subtype, (tag.attribute? "class").map fun name => ⟨name, tag.attribute? "variant"⟩⟩

/-- Reads the interface that fields describe. -/
def interface (fs : Fields) : Except FieldFault Interface :=
  match Connections.readRecord (fs.get? Connections.nodeCountField)
      (fs.get? Connections.connectionsField) with
  | .ok record => .ok ⟨record, none⟩
  | .error fault => .error (.record fault)

/-- The value of a field that must be present. -/
def required (fs : Fields) (field : String) : Except FieldFault String :=
  match fs.get? field with
  | some value => .ok value
  | none => .error (.missing field)

/-- The number in a field that must be present. -/
def number (fs : Fields) (field : String) (limit : Nat) : Except FieldFault Nat := do
  let value ← required fs field
  match Text.readNatural limit (Text.trim value) with
  | .ok n => .ok n
  | .error fault => .error (.numeral field fault)

/-- Reads the super-port that fields describe. -/
def superPort (fs : Fields) : Except FieldFault SuperPort := do
  let subnet ← required fs SuperPort.subnetField
  let link ← required fs SuperPort.linkField
  let port ← number fs SuperPort.portField Text.countLimit
  let node ← number fs SuperPort.nodeField Text.nodeLimit
  return ⟨subnet, link, port, node⟩

/-- Resolves the tag of an object into its role. -/
def role (id : String) (tag : Xml.Node) (fs : Fields) (span : Span) : Except Defect Role :=
  let kind := (tag.attribute? "type").getD ""
  let subtype := (tag.attribute? "subtype").getD ""
  let unknown : Defect := .unknownSubtype id kind subtype span
  let shaped (role : Shape → Role) : Except Defect Role :=
    match shape? tag with
    | some shape => .ok (role shape)
    | none => .error unknown
  match kind with
  | "Node" =>
    match NodeKind.ofName? subtype with
    | some k => .ok (.node k)
    | none => .error unknown
  | "Link" => shaped .link
  | "Spotter" => shaped .spotter
  | "Port" => .ok .port
  | "Network" =>
    match subtype with
    | "Sub" => .ok (.network .sub)
    | "Super" => .ok (.network .super)
    | "Subnet-Interface" =>
      match interface fs with
      | .ok payload => .ok (.interface payload)
      | .error fault => .error (.invalidRecord id fault span)
    | "Connector" => .ok .connector
    | "Super-Port" =>
      match superPort fs with
      | .ok binding => .ok (.superPort binding)
      | .error fault => .error (.invalidRecord id fault span)
    | _ => .error unknown
  | _ => .error (.unknownKind id kind span)

end Cell

/-- An element with the identities of its parent and ends. -/
structure Cell where
  element : Element
  span : Span
  parent : Option String
  source : Option String
  target : Option String
deriving DecidableEq

namespace Cell

/-- The parts of a cell node that are read the same way for both forms. -/
structure Parts where
  cell : Xml.Node
  label : String
  fields : Fields
  tag : Option Xml.Node

/-- The parts of a cell node; other nodes have none. -/
def parts? (n : Xml.Node) : Option Parts :=
  match n.name? with
  | some "mxCell" => some ⟨n, (n.attribute? "value").getD "", Fields.empty, none⟩
  | some "object" => some (object n)
  | some "UserObject" => some (object n)
  | _ => none
where
  /-- The parts of an object, with or without an inner cell. -/
  object (n : Xml.Node) : Parts :=
    ⟨(n.child? "mxCell").getD n, (n.attribute? "label").getD "", fields n, n.child? "tag"⟩

/-- Reads a cell from its parts. -/
def ofParts (n : Xml.Node) (p : Parts) : Except Defect Cell := do
  let span := n.span
  match n.attribute? "id" with
  | none => .error (.missingIdentity span)
  | some id =>
    let role ←
      match p.tag with
      | some tag => role id tag p.fields span
      | none => .ok .plain
    let source := p.cell.attribute? "source"
    let target := p.cell.attribute? "target"
    let isEdge := p.cell.attribute? "edge" == some "1" || role.isEdge
    if isEdge && source.isNone && target.isNone then .error (.edgeWithoutEndpoints id span)
    else
      .ok ⟨{ id := id, role := role, label := p.label, fields := p.fields, span := some span },
        span, p.cell.attribute? "parent", source, target⟩

/-- The cells among the children of a model root, in order. -/
def readAll : List Xml.Node → Except Defect (List Cell)
  | [] => .ok []
  | n :: rest =>
    match parts? n with
    | none => readAll rest
    | some p => do
      let cell ← ofParts n p
      return cell :: (← readAll rest)

end Cell

end Netlist
