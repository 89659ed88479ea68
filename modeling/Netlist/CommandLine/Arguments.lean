/-!
# Arguments

The words after the program's name: one drawing, and options that each take a
value. The value of an option is the next word, or it is attached to the
option: `--output=x`, `-o=x`, `-ox`. After `--` every word is a drawing.

An option is settled when the next thing is read. So a word that is no option
is reported before an option that is still open, whereas asking for help comes
after it.
-/

namespace Netlist.CommandLine

/-- What the words after the program's name say. -/
structure Arguments where
  /-- The drawing to read. -/
  input : String
  /-- Where the network goes. -/
  output : String := "network.toml"
  /-- The settings file. -/
  config : Option String := none
  /-- The shape library. -/
  library : Option String := none
  logLevel : String := "info"
deriving DecidableEq, Repr

/-- Why the words give no arguments. -/
inductive Stop where
  | missingInput
  | unknownWord (word : String)
  | missingValue (option : String)
  | superfluousValue (option : String)
  | repeatedOption (option : String)
  | help
  | version
deriving DecidableEq, Repr

/-- An option with a value. -/
inductive Setting where
  | output
  | config
  | library
  | logLevel
deriving DecidableEq, Repr

namespace Setting

/-- All settings. -/
def all : List Setting := [.output, .config, .library, .logLevel]

/-- The long name of an option. -/
def name : Setting → String
  | .output => "output"
  | .config => "config"
  | .library => "library"
  | .logLevel => "log-level"

/-- The letter of an option. -/
def letter? : Setting → Option Char
  | .output => some 'o'
  | .config => some 'c'
  | .library => some 'l'
  | .logLevel => none

/-- Gives an option its value. -/
def apply (value : String) (a : Arguments) : Setting → Arguments
  | .output => { a with output := value }
  | .config => { a with config := some value }
  | .library => { a with library := some value }
  | .logLevel => { a with logLevel := value }

end Setting

/-- What an option asks for. -/
inductive Request where
  | setting (s : Setting)
  | help
  | version
deriving DecidableEq, Repr

namespace Request

/-- The request with a long name. -/
def ofName? (name : String) : Option Request :=
  if name == "help" then some .help
  else if name == "version" then some .version
  else (Setting.all.find? fun s => s.name == name).map .setting

/-- The request with a letter. -/
def ofLetter? (letter : Char) : Option Request :=
  if letter == 'h' then some .help
  else if letter == 'V' then some .version
  else (Setting.all.find? fun s => s.letter? == some letter).map .setting

end Request

/-- A word by its form. -/
inductive Word where
  | escape
  | long (name : String) (value : Option String)
  | short (letter : Char) (rest : List Char)
  | plain (text : String)
deriving DecidableEq, Repr

/-- The form of a word. A single dash is a plain word. -/
def Word.of (text : String) : Word :=
  match text.toList with
  | ['-', '-'] => .escape
  | '-' :: '-' :: cs =>
    let name := String.ofList (cs.takeWhile (· != '='))
    match cs.dropWhile (· != '=') with
    | [] => .long name none
    | _ :: value => .long name (some (String.ofList value))
  | '-' :: letter :: rest => .short letter rest
  | _ => .plain text

/-- What has been read so far. -/
structure Progress where
  input : Option String := none
  /-- The settled options. -/
  settled : List (Setting × String) := []
  /-- The option read last, with its value once that has been read. -/
  pending : Option (Setting × Option String) := none

namespace Progress

/-- Settles an option that has its value. -/
def add (p : Progress) (s : Setting) (value : String) : Except Stop Progress :=
  if (p.settled.lookup s).isSome then .error (.repeatedOption s.name)
  else .ok { p with settled := (s, value) :: p.settled }

/-- Settles the option read last. -/
def settle (p : Progress) : Except Stop Progress :=
  match p.pending with
  | none => .ok p
  | some (s, none) => .error (.missingValue s.name)
  | some (s, some value) => add { p with pending := none } s value

/-- Reads an option that has its value attached, or waits for it. -/
def setting (p : Progress) (s : Setting) (attached : Option String) : Except Stop Progress := do
  let p ← p.settle
  match attached with
  | some value => p.add s value
  | none => .ok { p with pending := some (s, none) }

/-- Reads a drawing. -/
def positional (p : Progress) (text : String) : Except Stop Progress :=
  match p.input with
  | some _ => .error (.unknownWord text)
  | none => p.settle.map fun p => { p with input := some text }

/-- Reads a word that is neither an option nor after `--`. -/
def plain (p : Progress) (text : String) : Except Stop Progress :=
  match p.pending with
  | some (s, none) => .ok { p with pending := some (s, some text) }
  | _ => p.positional text

/-- Stops for help or the version once the option read last is settled. -/
def halt (p : Progress) (stop : Stop) : Except Stop Progress :=
  p.settle.bind fun _ => .error stop

/-- Reads a long option. -/
def long (p : Progress) (name : String) (value : Option String) : Except Stop Progress :=
  match Request.ofName? name, value with
  | none, _ => .error (.unknownWord ("--" ++ name))
  | some (.setting s), _ => p.setting s value
  | some _, some _ => .error (.superfluousValue name)
  | some .help, none => p.halt .help
  | some .version, none => p.halt .version

/-- The value attached to a letter. -/
def attachedTo : List Char → Option String
  | [] => none
  | '=' :: value => some (String.ofList value)
  | value => some (String.ofList value)

/-- Reads an option given by its letter. -/
def short (p : Progress) (letter : Char) (rest : List Char) : Except Stop Progress :=
  match Request.ofLetter? letter with
  | none => .error (.unknownWord (String.ofList ['-', letter]))
  | some (.setting s) => p.setting s (attachedTo rest)
  | some .help => p.halt .help
  | some .version => p.halt .version

/-- The arguments, once all words are read. -/
def finish (p : Progress) : Except Stop Arguments := do
  let p ← p.settle
  match p.input with
  | none => .error .missingInput
  | some input =>
    .ok (p.settled.foldl (fun a s => s.1.apply s.2 a) { input := input })

/-- Reads words. -/
def words : Progress → List String → Except Stop Progress
  | p, [] => .ok p
  | p, text :: rest => do
    match Word.of text with
    | .escape => rest.foldlM positional p
    | .long name value => (← p.long name value).words rest
    | .short letter attached => (← p.short letter attached).words rest
    | .plain text => (← p.plain text).words rest

end Progress

/-- Reads the words after the program's name. -/
def Arguments.read (words : List String) : Except Stop Arguments :=
  (Progress.words {} words).bind Progress.finish

/-! ## What is told about them -/

/-- How the program is called. -/
def usage : String :=
  "Usage: netweave [OPTIONS] <INPUT>\n\n" ++
  "Arguments:\n" ++
  "  <INPUT>  Path to the input drawing\n\n" ++
  "Options:\n" ++
  "  -o, --output <OUTPUT>        Path to the output TOML network model [default: network.toml]\n" ++
  "  -c, --config <CONFIG>        Path to configuration file (TOML)\n" ++
  "  -l, --library <LIBRARY>      Path to the shape-library catalog (TOML), overriding " ++
  "`[library] path`\n" ++
  "      --log-level <LOG_LEVEL>  Log level (off, error, warn, info, debug, trace) " ++
  "[default: info]\n" ++
  "  -h, --help                   Print help\n" ++
  "  -V, --version                Print version"

/-- The version of the program. -/
def versionLine : String := "netweave 0.1.0"

/-- The wording of a stop. -/
def Stop.message : Stop → String
  | .missingInput => "error: the following required arguments were not provided:\n  <INPUT>"
  | .unknownWord word => "error: unexpected argument '" ++ word ++ "' found"
  | .missingValue option => "error: a value is required for '--" ++ option ++ "'"
  | .superfluousValue option => "error: unexpected value for '--" ++ option ++ "' found"
  | .repeatedOption option => "error: the argument '--" ++ option ++ "' cannot be used multiple times"
  | .help => usage
  | .version => versionLine

end Netlist.CommandLine
