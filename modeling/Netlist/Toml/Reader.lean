import Netlist.Toml.Scalar
import Netlist.Toml.Table

/-!
# Reading TOML

A document is a sequence of lines: headers, keys with their values, comments.
Reading gives the record that the document describes, with the members of every
table in the order of their keys, or nothing if the text is no TOML.
-/

namespace Netlist.Toml

open Netlist.Data (Value)

/-! ## Blanks and comments -/

/-- A text without the blanks at its front. -/
def skipBlanks (cs : List Char) : List Char := cs.dropWhile isBlank

/-- A text without the comment at its front, if there is one. -/
def skipComment : List Char → Option (List Char)
  | '#' :: cs =>
    let isInside := fun (c : Char) => c != '\n' && c != '\r'
    if (cs.takeWhile isInside).all isPlain then some (cs.dropWhile isInside) else none
  | cs => some cs

/-- A text without the blanks, comments and line breaks at its front. -/
def skipLines : Nat → List Char → Option (List Char)
  | 0, _ => none
  | fuel + 1, cs => do
    let cs ← skipComment (skipBlanks cs)
    match newline? cs with
    | some rest => skipLines fuel rest
    | none => return cs

/-- A text without what may follow a statement on its line. -/
def endLine (cs : List Char) : Option (List Char) := do
  let cs ← skipComment (skipBlanks cs)
  match cs with
  | [] => return []
  | _ => newline? cs

/-! ## Keys -/

/-- Whether a character may stand in a key without quotes. -/
def isBare (c : Char) : Bool := c.isAlphanum || c == '_' || c == '-'

/-- Reads one part of a key. -/
def keyPart? (cs : List Char) : Option (String × List Char) :=
  match cs with
  | '"' :: '"' :: '"' :: _ => none
  | '\x27' :: '\x27' :: '\x27' :: _ => none
  | '"' :: _ => quote? cs
  | '\x27' :: _ => quote? cs
  | _ =>
    let part := cs.takeWhile isBare
    if part.isEmpty then none else some (String.ofList part, cs.dropWhile isBare)

/-- How many parts a key may have, and how deep arrays and inline tables may be
nested. -/
def depthLimit : Nat := 80

/-- Reads a key of at most `limit` parts, with the blanks around it. -/
def parts? : Nat → List Char → Option (List String × List Char)
  | 0, _ => none
  | limit + 1, cs => do
    let (part, cs) ← keyPart? (skipBlanks cs)
    match skipBlanks cs with
    | '.' :: cs => do
      let (parts, cs) ← parts? limit cs
      return (part :: parts, cs)
    | cs => return ([part], cs)

/-- Reads a key, with the blanks around it. -/
def key? (cs : List Char) : Option (List String × List Char) := parts? depthLimit cs

/-! ## Values -/

mutual

/-- Reads a value, which may be nested `depth` times. -/
def value? (depth : Nat) : Nat → List Char → Option (Value × List Char)
  | 0, _ => none
  | fuel + 1, cs =>
    match cs, depth with
    | '"' :: _, _ => (quote? cs).map fun (s, rest) => (.text s, rest)
    | '\x27' :: _, _ => (quote? cs).map fun (s, rest) => (.text s, rest)
    | '[' :: _, 0 => none
    | '\x7b' :: _, 0 => none
    | '[' :: rest, depth + 1 =>
      (items? depth fuel rest).map fun (vs, rest) => (.list vs, rest)
    | '\x7b' :: rest, depth + 1 =>
      (members? depth fuel [] rest).map fun (es, rest) => (es.toValue, rest)
    | _, _ => scalar? cs

/-- Reads the items of an array, up to its closing bracket. -/
def items? (depth : Nat) : Nat → List Char → Option (List Value × List Char)
  | 0, _ => none
  | fuel + 1, cs => do
    match ← skipLines (cs.length + 1) cs with
    | ']' :: rest => return ([], rest)
    | cs =>
      let (v, cs) ← value? depth fuel cs
      match ← skipLines (cs.length + 1) cs with
      | ']' :: rest => return ([v], rest)
      | ',' :: rest =>
        let (vs, rest) ← items? depth fuel rest
        return (v :: vs, rest)
      | _ => none

/-- Reads the members of an inline table, up to its closing brace. Lines may break
anywhere between its keys, values and marks. -/
def members? (depth : Nat) : Nat → Entries → List Char → Option (Entries × List Char)
  | 0, _, _ => none
  | fuel + 1, es, cs => do
    match ← skipLines (cs.length + 1) cs with
    | '\x7d' :: rest => return (es, rest)
    | cs =>
      let (path, cs) ← key? cs
      let cs ← expect? '=' (← skipLines (cs.length + 1) cs)
      let (v, cs) ← value? depth fuel (← skipLines (cs.length + 1) cs)
      let es ← es.put v path
      match ← skipLines (cs.length + 1) cs with
      | '\x7d' :: rest => return (es, rest)
      | ',' :: rest => members? depth fuel es rest
      | _ => none

end

/-! ## Documents -/

/-- What has been read of a document: all tables, and the path of the one that
keys go to. -/
structure State where
  entries : Entries := []
  path : List String := []

/-- Reads a header, after its opening bracket. -/
def header? (s : State) (cs : List Char) : Option (State × List Char) :=
  match cs with
  | '[' :: cs => do
    let (path, cs) ← key? cs
    let cs ← expect? ']' (← expect? ']' cs)
    return (⟨← s.entries.declare true path, path⟩, ← endLine cs)
  | cs => do
    let (path, cs) ← key? cs
    let cs ← expect? ']' cs
    return (⟨← s.entries.declare false path, path⟩, ← endLine cs)

/-- Reads a key and its value. -/
def statement? (s : State) (cs : List Char) : Option (State × List Char) := do
  let (path, cs) ← key? cs
  let cs ← expect? '=' cs
  let (v, cs) ← value? depthLimit (2 * cs.length + 2) (skipBlanks cs)
  let entries ← s.entries.within (Entries.put v path) s.path
  return ({ s with entries := entries }, ← endLine cs)

/-- Reads the rest of a document. -/
def lines? : Nat → State → List Char → Option State
  | 0, _, _ => none
  | fuel + 1, s, cs => do
    match ← skipLines (cs.length + 1) cs with
    | [] => return s
    | '[' :: rest => do
      let (s, rest) ← header? s rest
      lines? fuel s rest
    | cs => do
      let (s, rest) ← statement? s cs
      lines? fuel s rest

/-- Reads a document; a byte order mark at its front is passed over. -/
def read (text : String) : Option Value :=
  let cs :=
    match text.toList with
    | '\ufeff' :: cs => cs
    | cs => cs
  (lines? (cs.length + 1) {} cs).map fun s => s.entries.toValue

end Netlist.Toml
