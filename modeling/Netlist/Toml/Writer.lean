import Netlist.Data.Value

/-!
# Writing TOML

A record is written as a document: first the members that fit on lines, then
the members that are tables, each under its header and in order. A list of more
than one item has its items on lines of their own. A text is written in the
plainest kind of string that can hold it.
-/

namespace Netlist.Toml

open Netlist.Data (Value)

/-! ## Strings -/

/-- Whether a character is a control character other than tab and line feed. -/
def isControl (c : Char) : Bool :=
  (c.toNat < 0x20 && c != '\t' && c != '\n') || c.toNat == 0x7f

/-- The length of the longest run of a character. -/
def longestRun (c : Char) : Nat → Nat → List Char → Nat
  | longest, run, [] => max longest run
  | longest, run, d :: cs =>
    if d = c then longestRun c longest (run + 1) cs else longestRun c (max longest run) 0 cs

/-- A character code with four hexadecimal digits. -/
def codeEscape (c : Char) : List Char :=
  let digits := (Nat.toDigits 16 c.toNat).map Char.toUpper
  '\\' :: 'u' :: (List.replicate (4 - digits.length) '0' ++ digits)

/-- A character of a string in double quotes, other than a double quote or a
line feed. -/
def basicChar (c : Char) : List Char :=
  if c = '\\' then ['\\', '\\']
  else if c = '\t' then ['\\', 't']
  else if c = '\x08' then ['\\', 'b']
  else if c = '\x0c' then ['\\', 'f']
  else if c = '\r' then ['\\', 'r']
  else if isControl c then codeEscape c
  else [c]

/-- The inside of a string in double quotes on one line. -/
def basicBody (cs : List Char) : List Char :=
  cs.flatMap fun c =>
    if c = '"' then ['\\', '"'] else if c = '\n' then ['\\', 'n'] else basicChar c

/-- The inside of a string between three double quotes; `run` counts the double
quotes just written. -/
def basicLinesBody : Nat → List Char → List Char
  | _, [] => []
  | run, c :: cs =>
    if c = '"' then
      if run = 2 then '\\' :: '"' :: basicLinesBody 0 cs else '"' :: basicLinesBody (run + 1) cs
    else if c = '\n' then '\n' :: basicLinesBody 0 cs
    else basicChar c ++ basicLinesBody 0 cs

/-- A body between opening and closing quotes. -/
def enclose (quotes : String) (body : List Char) : String :=
  quotes ++ String.ofList body ++ quotes

/-- A body between three quotes, which starts on a new line if it has a line feed. -/
def encloseLines (quotes : String) (body : List Char) (hasLines : Bool) : String :=
  enclose quotes (if hasLines then '\n' :: body else body)

/-- A text as a string. -/
def renderText (s : String) : String :=
  let cs := s.toList
  let hasControl := cs.any isControl
  let hasLines := cs.contains '\n'
  let doubles := longestRun '"' 0 0 cs
  let singles := longestRun '\x27' 0 0 cs
  if !hasControl && !cs.contains '\\' && doubles = 0 && !hasLines then enclose "\"" (basicBody cs)
  else if !hasControl && singles = 0 && !hasLines then enclose "\x27" cs
  else if !hasControl && !cs.contains '\\' && doubles < 3 then
    encloseLines "\"\"\"" (basicLinesBody 0 cs) hasLines
  else if !hasControl && singles < 3 then encloseLines "\x27\x27\x27" cs hasLines
  else if hasLines then encloseLines "\"\"\"" (basicLinesBody 0 cs) hasLines
  else enclose "\"" (basicBody cs)

/-- A key. -/
def renderKey (s : String) : String :=
  let cs := s.toList
  let hasControl := cs.any fun c => isControl c || c == '\n'
  if !cs.isEmpty && cs.all fun c => c.isAlphanum || c == '_' || c == '-' then s
  else if !hasControl && !cs.contains '\\' && !cs.contains '"' then enclose "\"" (basicBody cs)
  else if !hasControl && !cs.contains '\x27' then enclose "\x27" cs
  else enclose "\"" (basicBody cs)

/-! ## Lines and tables -/

/-- A scalar. -/
def renderScalar : Value → String
  | .boolean value => toString value
  | .integer value => toString value
  | .real value => value.render Data.Format.toml.realStyle
  | .text value => renderText value
  | .moment moment => moment.render
  | _ => ""

/-- A list of scalars. -/
def renderList (items : List Value) : String :=
  match items with
  | [] => "[]"
  | [v] => "[" ++ renderScalar v ++ "]"
  | _ => "[\n" ++ String.join (items.map fun v => "    " ++ renderScalar v ++ ",\n") ++ "]"

/-- The written value of a member that fits on lines; none for tables. -/
def inline? : Value → Option String
  | .null => none
  | .excess => none
  | .record _ => none
  | .list (.record _ :: _) => none
  | .list items => some (renderList items)
  | v => some (renderScalar v)

/-- The lines of the members that fit on lines. -/
def lines (members : List (String × Value)) : List String :=
  members.filterMap fun m => (inline? m.2).map fun text => renderKey m.1 ++ " = " ++ text

/-- A path of keys. -/
def renderPath (path : List String) : String := String.intercalate "." (path.map renderKey)

mutual

/-- The lines of a member that is a table. -/
def tableLines (path : List String) : Value → List String
  | .record members =>
    "" :: ("[" ++ renderPath path ++ "]") :: (lines members ++ membersLines path members)
  | .list items => recordsLines path items
  | _ => []

/-- The lines of the members that are tables. -/
def membersLines (path : List String) : List (String × Value) → List String
  | [] => []
  | (key, v) :: rest => tableLines (path ++ [key]) v ++ membersLines path rest

/-- The lines of an array of tables. -/
def recordsLines (path : List String) : List Value → List String
  | [] => []
  | .record members :: rest =>
    "" :: ("[[" ++ renderPath path ++ "]]") ::
      (lines members ++ membersLines path members ++ recordsLines path rest)
  | _ :: rest => recordsLines path rest

end

/-- Writes a record as a document. -/
def render (members : List (String × Value)) : String :=
  let all := lines members ++ membersLines [] members
  let all := match all with
    | "" :: rest => rest
    | _ => all
  String.join (all.map fun line => line ++ "\n")

/-- Writes a value as a document; what is no record gives an empty one. -/
def write : Value → String
  | .record members => render members
  | _ => ""

end Netlist.Toml
