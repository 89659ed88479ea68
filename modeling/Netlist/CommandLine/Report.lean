import Netlist.Failure
import Netlist.Warning
import Netlist.Text.Span

/-!
# Reports

What a user is shown of a failure or a warning: its code and wording, the place
in the document if there is one, and what to do about it.
-/

namespace Netlist.CommandLine

open Netlist.Text (Position)

/-- The position of a byte offset in a text. -/
def positionAt (offset : Nat) : Position → List Char → Position
  | p, [] => p
  | p, c :: cs => if offset < c.utf8Size then p else positionAt (offset - c.utf8Size) (p.next c) cs

/-- The lines about a failure. -/
def reportFailure (failure : Failure) : List String :=
  let code := (failure.code?.map fun code => code ++ ": ").getD ""
  let place := failure.mark?.map fun mark =>
    let position := positionAt mark.1.start .first (failure.source?.getD "").toList
    "  at " ++ position.render ++ ": " ++ mark.2
  let help := failure.help?.map fun help => "  help: " ++ help
  (code ++ failure.message) :: (place.toList ++ help.toList)

/-- The line about a warning. -/
def reportWarning (warning : Warning) : String :=
  warning.message ++ String.join (warning.details.map fun d => " " ++ d.1 ++ "=" ++ d.2)

end Netlist.CommandLine
