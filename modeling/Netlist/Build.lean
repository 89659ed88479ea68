import Netlist.Assembly

/-!
# Building a document

A document with a super-network is assembled, any other is compiled.
-/

namespace Netlist

/-- What a build gives. -/
inductive Model where
  | network (compilation : Compilation)
  | superNetwork (assembly : Assembly)
deriving DecidableEq

/-- Compiles the network of a whole diagram. -/
def compileRoot (x : Assembly.Context) : Edit Failure Compilation :=
  Edit.mapError .ofFault (compile x.catalog x.switches Diagram.root)

/-- Assembles or compiles a diagram. -/
def build (x : Assembly.Context) : Edit Failure Model := do
  if ← Edit.read fun d => d.hasRole Role.isSuperNetwork then
    return .superNetwork (← assemble x)
  else
    return .network (← compileRoot x)

/-- What came of building a text: the model with its diagram, or a failure that
carries a text, and the warnings. -/
structure BuildOutcome where
  result : Except Failure (Diagram × Model)
  warnings : List Warning

/-- Reads and builds a document. -/
def buildText (x : Assembly.Context) (text : String) : BuildOutcome :=
  match Document.read text with
  | .error defect => ⟨.error (.document defect text), []⟩
  | .ok d =>
    let outcome := (build x).run d
    ⟨(outcome.result.map fun model => (outcome.diagram, model)).mapError (Failure.withSource text),
      outcome.warnings⟩

/-- The names of the drawings that the instances of a document are copies of. -/
def drawingNames (text : String) : List String :=
  match Document.read text with
  | .error _ => []
  | .ok d => d.elements.filterMap fun e =>
    if e.2.role.isSubNetwork then e.2.fields.get? Assembly.drawingField else none

end Netlist
