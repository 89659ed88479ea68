import Netlist.Code
import Netlist.Connections
import Netlist.Xml.Malformed

/-!
# Defects of documents

Why a text is no drawing. Every defect but a missing model points at the bytes
of the cell, page or place it was found at.
-/

namespace Netlist

open Netlist.Text (NumeralFault Span)

/-- Which attribute of a cell names another cell. -/
inductive LinkAttribute where
  | parent
  | source
  | target
deriving DecidableEq, Repr

/-- The written name of the attribute. -/
def LinkAttribute.name : LinkAttribute → String
  | .parent => "parent"
  | .source => "source"
  | .target => "target"

/-- Why a field of an interface or super-port cannot be read. -/
inductive FieldFault where
  | record (fault : Connections.RecordFault)
  | missing (field : String)
  | numeral (field : String) (fault : NumeralFault)
deriving DecidableEq, Repr

namespace FieldFault

/-- The field at fault. -/
def field : FieldFault → String
  | .record fault => fault.field
  | .missing field => field
  | .numeral field _ => field

/-- The wording of a field fault. -/
def message : FieldFault → String
  | .record fault => fault.message
  | .missing _ => "missing"
  | .numeral _ fault => fault.message

end FieldFault

/-- Why a text is no drawing. -/
inductive Defect where
  | malformed (problem : Xml.Malformed) (span : Span)
  | compressedContent (page : String) (span : Span)
  | missingModel
  | missingIdentity (span : Span)
  | duplicateIdentity (id : String) (span : Span)
  | edgeWithoutEndpoints (id : String) (span : Span)
  | unknownReference (id : String) (via : LinkAttribute) (name : String) (span : Span)
  | unknownSubtype (id kind subtype : String) (span : Span)
  | unknownKind (id kind : String) (span : Span)
  | invalidRecord (id : String) (fault : FieldFault) (span : Span)
deriving DecidableEq, Repr

namespace Defect

/-- The wording of a defect. -/
def message : Defect → String
  | .malformed problem _ => "malformed XML: " ++ problem.message
  | .compressedContent page _ => "diagram `" ++ page ++ "` holds compressed content"
  | .missingModel => "no diagram model found in document"
  | .missingIdentity _ => "cell has no identity"
  | .duplicateIdentity id _ => "identity `" ++ id ++ "` is used by more than one cell"
  | .edgeWithoutEndpoints id _ => "edge `" ++ id ++ "` has neither a source nor a target"
  | .unknownReference id via name _ =>
    "cell `" ++ id ++ "` refers to unknown " ++ via.name ++ " `" ++ name ++ "`"
  | .unknownSubtype id kind subtype _ =>
    "cell `" ++ id ++ "` has unknown " ++ kind ++ " subtype `" ++ subtype ++ "`"
  | .unknownKind id kind _ => "cell `" ++ id ++ "` has unknown type `" ++ kind ++ "`"
  | .invalidRecord id fault _ =>
    "cell `" ++ id ++ "` has an invalid `" ++ fault.field ++ "` field: " ++ fault.message

/-- The code of a defect. -/
def code : Defect → Code
  | .malformed _ _ => .malformedXml
  | .compressedContent _ _ => .compressedContent
  | .missingModel => .missingModel
  | .missingIdentity _ => .missingIdentity
  | .duplicateIdentity _ _ => .duplicateIdentity
  | .edgeWithoutEndpoints _ _ => .edgeWithoutEndpoints
  | .unknownReference _ _ _ _ => .unknownReference
  | .unknownSubtype _ _ _ _ => .unknownType
  | .unknownKind _ _ _ => .unknownType
  | .invalidRecord _ _ _ => .invalidRecord

/-- The bytes a defect points at. -/
def span? : Defect → Option Span
  | .malformed _ span => some span
  | .compressedContent _ span => some span
  | .missingModel => none
  | .missingIdentity span => some span
  | .duplicateIdentity _ span => some span
  | .edgeWithoutEndpoints _ span => some span
  | .unknownReference _ _ _ span => some span
  | .unknownSubtype _ _ _ span => some span
  | .unknownKind _ _ span => some span
  | .invalidRecord _ _ span => some span

/-- The label put beside the bytes in a report. -/
def label : Defect → String
  | .malformed _ _ => "syntax error here"
  | .compressedContent _ _ => "encoded content"
  | .missingModel => ""
  | .missingIdentity _ => "cell without `id`"
  | .duplicateIdentity _ _ => "duplicate definition"
  | .edgeWithoutEndpoints _ _ => "unconnected edge"
  | .unknownReference _ _ _ _ => "dangling reference"
  | .unknownSubtype _ _ _ _ => "unknown tag"
  | .unknownKind _ _ _ => "unknown tag"
  | .invalidRecord _ _ _ => "invalid field"

/-- What to do about a defect. -/
def help? : Defect → Option String
  | .compressedContent _ _ =>
    some ("save the drawing uncompressed, or decode it (base64, raw deflate, URL escaping) " ++
      "first")
  | .edgeWithoutEndpoints _ _ => some "attach at least one end of the edge to a shape"
  | .unknownSubtype _ "Node" _ _ =>
    some "node subtypes are Basic, Fluid, Ground and Reference"
  | .unknownSubtype _ "Network" _ _ =>
    some "network subtypes are Sub, Super, Subnet-Interface, Connector and Super-Port"
  | .invalidRecord _ _ _ =>
    some "connections are `link,port,key,m0 m1 ...` entries separated by `;`"
  | _ => none

end Defect

end Netlist
