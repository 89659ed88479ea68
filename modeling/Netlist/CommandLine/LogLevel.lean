/-!
# Log levels

How much the program tells about its work.
-/

namespace Netlist.CommandLine

/-- How much is told. -/
inductive LogLevel where
  | off
  | error
  | warn
  | info
  | debug
  | trace
deriving DecidableEq, Repr

namespace LogLevel

/-- All levels, the quietest first. -/
def all : List LogLevel := [.off, .error, .warn, .info, .debug, .trace]

/-- The name of a level. -/
def name : LogLevel → String
  | .off => "off"
  | .error => "error"
  | .warn => "warn"
  | .info => "info"
  | .debug => "debug"
  | .trace => "trace"

/-- The level with a name; case does not matter. -/
def ofName? (name : String) : Option LogLevel :=
  all.find? fun level => level.name == name.map Char.toLower

/-- Whether what is told at a level is shown. -/
def shows (level told : LogLevel) : Bool := told.ctorIdx ≤ level.ctorIdx

end LogLevel

end Netlist.CommandLine
