import Netlist.Compilation
import Netlist.Data.Layout

/-!
# Settings

What a user can choose: where the shape library is, how to compile, and how to
assemble. Everything has a default, so a settings file names only what differs.
-/

namespace Netlist

open Netlist.Data (Layout Reader)

/-- The choices a user has for assembling. -/
structure AssemblySwitches where
  /-- Whether to import instances again that have content already. -/
  refresh : Bool := true
  /-- Where generated identities start. -/
  seed : Option Nat := none
deriving DecidableEq, Repr

/-- All settings. -/
structure Settings where
  /-- The path of the shape library. -/
  library : Option String := none
  compile : Switches := {}
  assembly : AssemblySwitches := {}
deriving DecidableEq, Repr

namespace Settings

/-- The members of the library section. -/
def libraryLayout : Layout (Option String) where
  name := "struct LibraryConfig"
  members := [.optional "path" (.optional (.textAs "path string")) fun _ path => path]

/-- The members of the section on compiling. -/
def compileLayout : Layout Switches where
  name := "struct CompileConfig"
  members := [
    .optional "prune_grounds" .boolean fun s prune => { s with pruneGrounds := prune },
    .optional "reconcile" .boolean fun s reconcile => { s with reconcile := reconcile }]

/-- The members of the section on assembling. -/
def assemblyLayout : Layout AssemblySwitches where
  name := "struct AssemblyConfig"
  members := [
    .optional "refresh" .boolean fun s refresh => { s with refresh := refresh },
    .optional "seed" (.optional (.natural (UInt64.size - 1) "u64")) fun s seed => { s with seed := seed }]

/-- The sections of a settings file. -/
def layout : Layout Settings where
  name := "struct AppConfig"
  members := [
    .optional "library" (libraryLayout.read none) fun s library => { s with library := library },
    .optional "compile" (compileLayout.read {}) fun s switches => { s with compile := switches },
    .optional "assembly" (assemblyLayout.read {}) fun s switches => { s with assembly := switches }]

/-- Reads settings. -/
def read : Reader Settings := layout.read {}

end Settings

end Netlist
