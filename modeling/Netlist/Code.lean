/-!
# Error codes

Every violation has a code. The first digit names the stage: `0` the document,
`1` containment and topology, `2` port maps, `3` super-network assembly.
-/

namespace Netlist

/-- The code of an error. -/
inductive Code where
  | malformedXml
  | compressedContent
  | missingIdentity
  | duplicateIdentity
  | edgeWithoutEndpoints
  | unknownReference
  | unknownType
  | invalidRecord
  | missingModel
  | cyclicContainment
  | invalidTopology
  | missingRequiredPort
  | duplicatePort
  | danglingPort
  | nodeCountMismatch
  | keyMismatch
  | ambiguousBinding
  | nestedSuperNetwork
  | missingDrawing
deriving DecidableEq, Repr

namespace Code

/-- All codes, in the order of their numbers. -/
def all : List Code :=
  [.malformedXml, .compressedContent, .missingIdentity, .duplicateIdentity,
   .edgeWithoutEndpoints, .unknownReference, .unknownType, .invalidRecord, .missingModel,
   .cyclicContainment, .invalidTopology, .missingRequiredPort, .duplicatePort, .danglingPort,
   .nodeCountMismatch, .keyMismatch, .ambiguousBinding, .nestedSuperNetwork, .missingDrawing]

/-- The written code. -/
def render : Code → String
  | .malformedXml => "E001"
  | .compressedContent => "E002"
  | .missingIdentity => "E003"
  | .duplicateIdentity => "E004"
  | .edgeWithoutEndpoints => "E005"
  | .unknownReference => "E006"
  | .unknownType => "E007"
  | .invalidRecord => "E008"
  | .missingModel => "E009"
  | .cyclicContainment => "E100"
  | .invalidTopology => "E101"
  | .missingRequiredPort => "E200"
  | .duplicatePort => "E201"
  | .danglingPort => "E202"
  | .nodeCountMismatch => "E300"
  | .keyMismatch => "E301"
  | .ambiguousBinding => "E302"
  | .nestedSuperNetwork => "E303"
  | .missingDrawing => "E304"

/-- What the code means. -/
def description : Code → String
  | .malformedXml => "malformed XML"
  | .compressedContent => "compressed diagram content"
  | .missingIdentity => "missing identity"
  | .duplicateIdentity => "duplicate identity"
  | .edgeWithoutEndpoints => "edge without endpoints"
  | .unknownReference => "unknown reference"
  | .unknownType => "unknown element type"
  | .invalidRecord => "invalid record field"
  | .missingModel => "missing diagram model"
  | .cyclicContainment => "cyclic containment"
  | .invalidTopology => "invalid network topology"
  | .missingRequiredPort => "missing required port"
  | .duplicatePort => "duplicate port"
  | .danglingPort => "dangling port"
  | .nodeCountMismatch => "interface node count mismatch"
  | .keyMismatch => "interface key mismatch"
  | .ambiguousBinding => "ambiguous interface binding"
  | .nestedSuperNetwork => "nested super-network"
  | .missingDrawing => "missing source drawing"

end Code

end Netlist
