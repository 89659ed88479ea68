import Netlist.CommandLine
import Netlist.CommandLine.LogLevel
import Netlist.CommandLine.Report

/-!
# The program

Runs on the real file system, tells warnings and failures on the error stream,
and ends with a status.
-/

namespace Netlist.CommandLine

/-- What an error of the operating system means for a file. -/
def fileErrorOf : IO.Error → FileError
  | .noFileOrDirectory .. => .notFound
  | .inappropriateType _ code _ => if code = 20 || code = -20 then .notFolder else .isFolder
  | e => .other (toString e)

/-- Reads a text file. -/
def readText (path : String) : IO (Except FileError String) := do
  match ← (IO.FS.readBinFile path).toBaseIO with
  | .error e => return .error (fileErrorOf e)
  | .ok bytes =>
    match String.fromUTF8? bytes with
    | some text => return .ok text
    | none => return .error .notText

/-- Writes a text file. -/
def writeText (path text : String) : IO (Except FileError Unit) := do
  match ← (IO.FS.writeFile path text).toBaseIO with
  | .ok () => return .ok ()
  | .error e => return .error (fileErrorOf e)

/-- Whether there is something at a path. -/
def isThere (path : String) : IO Bool := do
  match ← (IO.FS.Handle.mk path .read).toBaseIO with
  | .ok _ => return true
  | .error e =>
    match fileErrorOf e with
    | .notFound => return false
    | .notFolder => return false
    | _ => return true

/-- The folder with the settings of the user's programs. -/
def userFolder : IO (Option String) := do
  match ← IO.getEnv "XDG_CONFIG_HOME" with
  | some folder => if folder.startsWith "/" then return some folder
  | none => pure ()
  return (← IO.getEnv "HOME").map (Path.within · ".config")

/-- The surroundings of a run on this machine. -/
def machine : IO (Surroundings IO) := do
  let chance ← IO.rand 0 (Nat.pow 2 62)
  let folder ← userFolder
  return {
    files := ⟨readText, writeText, isThere⟩
    userFolder := folder
    naming := fun seed => Naming.seeded (seed.getD chance) }

/-- The level of telling that the arguments choose. -/
def chosenLevel (name : String) : IO LogLevel := do
  match LogLevel.ofName? name with
  | some level => return level
  | none =>
    IO.eprintln ("Invalid log level: " ++ name ++ ". Using 'warn' instead.")
    return .warn

/-- Runs with arguments, and gives the status to end with. -/
def runOnMachine (args : Arguments) : IO UInt32 := do
  let level ← chosenLevel args.logLevel
  let (result, warnings) ← ((run (← machine) args).run).run []
  if level.shows .warn then
    for warning in warnings do IO.eprintln ("warning: " ++ reportWarning warning)
  match result with
  | .ok () => return 0
  | .error failure =>
    if level.shows .error then
      for line in reportFailure failure do IO.eprintln line
    return 1

end Netlist.CommandLine

open Netlist.CommandLine in
/-- Compiles the drawing that the command line names. -/
def main (words : List String) : IO UInt32 := do
  match Arguments.read words with
  | .ok args => runOnMachine args
  | .error .help => IO.println usage; return 0
  | .error .version => IO.println versionLine; return 0
  | .error stop => IO.eprintln stop.message; return 2
