import Netlist.Document
import Netlist.Violation

/-!
# Failures

Why a build gives no result. Defects of documents and faults of stages travel
with the text of the document they were found in, so that a report can show
the place; a fault starts out without text and gets one where it is known.
-/

namespace Netlist

open Netlist.Text (Span)

/-- Why a build gives no result. -/
inductive Failure where
  | io (reason : String)
  | config (reason : String)
  | document (defect : Defect) (source : String)
  | fault (cause : Fault) (source : String)
deriving DecidableEq

namespace Failure

/-- A fault without the text it was found in. -/
def ofFault (cause : Fault) : Failure := .fault cause ""

/-- The wording of a failure. -/
def message : Failure → String
  | .io reason => "I/O error: " ++ reason
  | .config reason => "Configuration error: " ++ reason
  | .document defect _ => defect.message
  | .fault cause _ => cause.message

/-- The written code of a failure. -/
def code? : Failure → Option String
  | .io _ => some "netweave::io"
  | .config _ => some "netweave::config"
  | .document defect _ => some defect.code.render
  | .fault (.violation violation) _ => some violation.code.render
  | .fault (.absent _) _ => none

/-- What to do about a failure. -/
def help? : Failure → Option String
  | .document defect _ => defect.help?
  | .fault (.violation violation) _ => violation.help?
  | _ => none

/-- The text a failure was found in. -/
def source? : Failure → Option String
  | .document _ source => some source
  | .fault _ source => some source
  | _ => none

/-- The element a failure points at. -/
def element? : Failure → Option Locator
  | .fault (.violation violation) _ => violation.element?
  | _ => none

/-- The place to mark in a report, with the label to put there. There is none
without a text to show. -/
def mark? (failure : Failure) : Option (Span × String) :=
  if failure.source?.any fun source => !source.isEmpty then
    match failure with
    | .document defect _ => defect.span?.map fun span => (span, defect.label)
    | .fault (.violation violation) _ =>
      (violation.element?.bind Locator.span).map fun span => (span, violation.label)
    | _ => none
  else none

/-- Gives a fault without text the text it was found in. -/
def withSource (source : String) : Failure → Failure
  | .fault cause "" => .fault cause source
  | failure => failure

end Failure

end Netlist
