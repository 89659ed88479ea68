import Netlist.Build
import Netlist.Strict.Assembly

/-!
# Rounds of work

A diagram can be compiled, assembled or built again and again. Every round brings its own
library, configuration and drawings, and goes on from what the round before has left,
also if that one failed half-way.
-/

namespace Netlist

/-- What a round does with its diagram. -/
inductive Task where
  | compile (scope : Slot)
  | assemble
  | build
deriving DecidableEq, Repr

/-- A task and what it is done with. -/
structure Round where
  task : Task
  context : Assembly.Context

namespace Strict

/-- Assembles or compiles a diagram with strict lookups. -/
def build (x : Assembly.Context) : Edit Failure Model := do
  if ← Edit.read fun d => d.hasRole Role.isSuperNetwork then
    return .superNetwork (← assemble x)
  else
    return .network (← Edit.mapError .ofFault (compile x.catalog x.switches Diagram.root))

end Strict

namespace Round

/-- The work of a round. -/
def edit (r : Round) : Edit Failure Model :=
  match r.task with
  | .compile scope => do
    return .network
      (← Edit.mapError .ofFault (Netlist.compile r.context.catalog r.context.switches scope))
  | .assemble => do return .superNetwork (← Netlist.assemble r.context)
  | .build => Netlist.build r.context

/-- The work of a round with strict lookups. -/
def strict (r : Round) : Edit Failure Model :=
  match r.task with
  | .compile scope => do
    return .network
      (← Edit.mapError .ofFault (Strict.compile r.context.catalog r.context.switches scope))
  | .assemble => do return .superNetwork (← Strict.assemble r.context)
  | .build => Strict.build r.context

/-- What comes of rounds on one diagram, one after the other. -/
def runAll (work : Round → Edit Failure Model) : List Round → Diagram → List (Outcome Failure Model)
  | [], _ => []
  | r :: rest, d =>
    let outcome := (work r).run d
    outcome :: runAll work rest outcome.diagram

end Round

end Netlist
