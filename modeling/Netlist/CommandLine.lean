import Netlist.Build
import Netlist.CommandLine.Arguments
import Netlist.Files
import Netlist.Library.Record
import Netlist.Network.Value
import Netlist.Toml.Reader
import Netlist.Toml.Writer

/-!
# A run of the program

A run finds its settings, loads the shape library, builds the drawing and
writes the network. Settings come from the file that the user names, else from
the first of two places where there is one, else from the defaults. Drawings
that a super-network names lie beside it.
-/

namespace Netlist.CommandLine

/-- What a run finds around it. -/
structure Surroundings (m : Type → Type) where
  files : FileSystem m
  /-- The folder with the settings of the user's programs. -/
  userFolder : Option String := none
  /-- The naming that a seed, or the lack of one, stands for. -/
  naming : Option Nat → Naming

/-- A piece of a run: it can fail, and it warns. -/
abbrev Job (m : Type → Type) := ExceptT Failure (StateT (List Warning) m)

variable {m : Type → Type} [Monad m]

/-- Gives warnings. -/
def warn (warnings : List Warning) : Job m Unit := modify fun earlier => earlier ++ warnings

/-- Whether there is something at a path. -/
def holds (s : Surroundings m) (path : String) : Job m Bool := s.files.holds path

/-- Reads a file, or says why not. -/
def look (s : Surroundings m) (path : String) : Job m (Except FileError String) :=
  s.files.read path

/-- Reads a file; `note` stands before the reason if that fails. -/
def load (s : Surroundings m) (path note : String) : Job m String := do
  match ← look s path with
  | .ok text => return text
  | .error e => throw (.io (note ++ e.message))

/-! ## Settings -/

/-- The settings that a text holds. -/
def readSettings (text : String) : Except Failure Settings :=
  match (Toml.read text).bind fun v => (Settings.read .toml v).toOption with
  | some settings => .ok settings
  | none => .error (.config "Failed to parse TOML configuration: TOML parse error")

/-- The places of settings that nobody names. -/
def settingsPlaces (s : Surroundings m) : List String :=
  "netweave/config.toml" :: (s.userFolder.map (Path.within · "netweave/config.toml")).toList

/-- The first path that there is something at. -/
def firstHeld (s : Surroundings m) : List String → Job m (Option String)
  | [] => return none
  | path :: rest => do
    if ← holds s path then return some path else firstHeld s rest

/-- The path of the settings. -/
def settingsPath (s : Surroundings m) (named : Option String) : Job m (Option String) := do
  match named with
  | none => firstHeld s (settingsPlaces s)
  | some path =>
    if ← holds s path then return some path
    else throw (.config ("Missing configuration file: " ++ path))

/-- Loads the settings. -/
def loadSettings (s : Surroundings m) (named : Option String) : Job m Settings := do
  match ← settingsPath s named with
  | none => return {}
  | some path => MonadExcept.ofExcept (readSettings (← load s path ""))

/-! ## The shape library -/

/-- The catalog that the text of a library holds. -/
def readCatalog (path text : String) : Except Failure Catalog :=
  let refuse := fun (reason : String) =>
    Except.error (.config ("Failed to parse shape library " ++ path ++ ": " ++ reason))
  match (Toml.read text).map (Catalog.read .toml) with
  | some (.ok catalog) => .ok catalog
  | some (.error (.duplicate master)) => refuse master.message
  | _ => refuse "TOML parse error"

/-- Loads the shape library. -/
def loadCatalog (s : Surroundings m) (path : Option String) : Job m Catalog := do
  match path with
  | none =>
    warn [.noCatalog]
    return .empty
  | some path =>
    let text ← load s path ("cannot read shape library " ++ path ++ ": ")
    MonadExcept.ofExcept (readCatalog path text)

/-! ## Drawings -/

/-- What reading the drawings of some names gave. -/
def lookAll (s : Surroundings m) (folder : String) :
    List String → Job m (List (String × Except FileError String))
  | [] => return []
  | name :: rest => do
    let found ← look s (Path.within folder name)
    return (name, found) :: (← lookAll s folder rest)

/-- The shelf of what was read. A drawing that was not found is missing. -/
def shelfOf (found : List (String × Except FileError String)) : Shelf := fun name =>
  match found.lookup name with
  | none => .ok none
  | some (.ok text) => (Drawing.read text).map some
  | some (.error .notFound) => .ok none
  | some (.error e) => .error (.io e.message)

/-! ## The run -/

/-- The network of a model as a value. -/
def networkValue : Model → Data.Value
  | .network compilation => compilation.network.toValue
  | .superNetwork assembly => assembly.network.toValue

/-- The warnings about a model. -/
def modelWarnings : Model → List Warning
  | .network _ => []
  | .superNetwork assembly =>
    if assembly.report.orphanedSuperPorts = 0 then []
    else [.orphansDiscarded assembly.report.orphanedSuperPorts]

/-- Builds a text. -/
def buildModel (x : Assembly.Context) (text : String) : Job m Model := do
  let outcome := buildText x text
  warn outcome.warnings
  match outcome.result with
  | .ok (_, model) => return model
  | .error failure => throw failure

/-- Reads a drawing and writes its network. -/
def run (s : Surroundings m) (args : Arguments) : Job m Unit := do
  let settings ← loadSettings s args.config
  let catalog ← loadCatalog s (args.library.or settings.library)
  let text ← load s args.input ""
  let found ← lookAll s (Path.parent args.input) (drawingNames text)
  let model ← buildModel {
    catalog := catalog
    switches := settings.compile
    assembly := settings.assembly
    shelf := shelfOf found
    naming := s.naming settings.assembly.seed } text
  warn (modelWarnings model)
  match ← s.files.write args.output (Toml.write (networkValue model)) with
  | .ok () => return
  | .error e => throw (.io e.message)

end Netlist.CommandLine
