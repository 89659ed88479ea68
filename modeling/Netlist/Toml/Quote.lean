/-!
# Strings of TOML

TOML has strings in double and in single quotes, each on one line or, between
three quotes, on several. Only double quotes know escapes. Line breaks stay as
they are written. Readers start right after the opening quotes and give the
contents with what follows the closing ones.
-/

namespace Netlist.Toml

/-- Whether a character may stand in a string or comment as it is: no control
character, the tab apart. -/
def isPlain (c : Char) : Bool := c == '\t' || (c.toNat ≥ 0x20 && c.toNat != 0x7f)

/-- A line break at the front of a text, taken off. -/
def newline? : List Char → Option (List Char)
  | '\n' :: cs => some cs
  | '\r' :: '\n' :: cs => some cs
  | _ => none

/-- Whether a character is a blank within a line. -/
def isBlank (c : Char) : Bool := c == ' ' || c == '\t'

/-- The value of a hexadecimal digit. -/
def hexValue? (c : Char) : Option Nat :=
  if '0' ≤ c ∧ c ≤ '9' then some (c.toNat - '0'.toNat)
  else if 'a' ≤ c ∧ c ≤ 'f' then some (c.toNat - 'a'.toNat + 10)
  else if 'A' ≤ c ∧ c ≤ 'F' then some (c.toNat - 'A'.toNat + 10)
  else none

/-- The character with a code that is written in hexadecimal digits. -/
def codePoint? (digits : List Char) : Option Char := do
  let code ← digits.foldlM (fun n c => (hexValue? c).map (n * 16 + ·)) 0
  if code.isValidChar then some (Char.ofNat code) else none

/-- The character of the escape at the front of a text, after the backslash. -/
def escape? : List Char → Option (Char × List Char)
  | 'b' :: cs => some ('\x08', cs)
  | 't' :: cs => some ('\t', cs)
  | 'n' :: cs => some ('\n', cs)
  | 'f' :: cs => some ('\x0c', cs)
  | 'r' :: cs => some ('\r', cs)
  | 'e' :: cs => some ('\x1b', cs)
  | '"' :: cs => some ('"', cs)
  | '\\' :: cs => some ('\\', cs)
  | 'x' :: cs => coded 2 cs
  | 'u' :: cs => coded 4 cs
  | 'U' :: cs => coded 8 cs
  | _ => none
where
  /-- An escape by code with a fixed number of digits. -/
  coded (count : Nat) (cs : List Char) : Option (Char × List Char) :=
    if (cs.take count).length = count then
      (codePoint? (cs.take count)).map fun c => (c, cs.drop count)
    else none

/-- A text without the blanks and line breaks at its front. -/
def skipSpace : List Char → List Char
  | ' ' :: cs => skipSpace cs
  | '\t' :: cs => skipSpace cs
  | '\n' :: cs => skipSpace cs
  | '\r' :: '\n' :: cs => skipSpace cs
  | cs => cs

/-- What follows a line break escaped with a backslash: it swallows blanks and
further line breaks. None if there is no line break. -/
def continuation? (cs : List Char) : Option (List Char) :=
  (newline? (cs.dropWhile isBlank)).map skipSpace

/-- Reads a string in double quotes on one line; `read` is what was read, last
character first. -/
def basic (fuel : Nat) (read : List Char) (cs : List Char) : Option (String × List Char) :=
  match fuel, cs with
  | 0, _ => none
  | _, [] => none
  | _, '"' :: rest => some (String.ofList read.reverse, rest)
  | fuel + 1, '\\' :: rest => (escape? rest).bind fun (c, rest) => basic fuel (c :: read) rest
  | fuel + 1, c :: rest => if isPlain c then basic fuel (c :: read) rest else none

/-- Reads a string in single quotes on one line. -/
def literal (cs : List Char) : Option (String × List Char) :=
  let body := cs.takeWhile fun c => c != '\x27'
  match cs.dropWhile fun c => c != '\x27' with
  | _ :: rest => if body.all isPlain then some (String.ofList body, rest) else none
  | [] => none

/-- The quotes that belong to a string of several lines when a run of quotes
closes it: up to two before the closing three. -/
def closing (quote : Char) (cs : List Char) : Option (List Char × List Char) :=
  let run := (cs.takeWhile (· == quote)).length
  if run < 3 then none
  else
    let kept := min (run - 3) 2
    some (List.replicate kept quote, cs.drop (kept + 3))

/-- Reads a string between three double quotes. -/
def basicLines (fuel : Nat) (read : List Char) (cs : List Char) : Option (String × List Char) :=
  match closing '"' cs with
  | some (kept, rest) => some (String.ofList (read.reverse ++ kept), rest)
  | none =>
    match fuel, cs with
    | 0, _ => none
    | _, [] => none
    | fuel + 1, '\\' :: rest =>
      match continuation? rest with
      | some rest => basicLines fuel read rest
      | none => (escape? rest).bind fun (c, rest) => basicLines fuel (c :: read) rest
    | fuel + 1, '\r' :: '\n' :: rest => basicLines fuel ('\n' :: '\r' :: read) rest
    | fuel + 1, c :: rest =>
      if isPlain c || c == '\n' then basicLines fuel (c :: read) rest else none

/-- Reads a string between three single quotes. -/
def literalLines (fuel : Nat) (read : List Char) (cs : List Char) : Option (String × List Char) :=
  match closing '\x27' cs with
  | some (kept, rest) => some (String.ofList (read.reverse ++ kept), rest)
  | none =>
    match fuel, cs with
    | 0, _ => none
    | _, [] => none
    | fuel + 1, '\r' :: '\n' :: rest => literalLines fuel ('\n' :: '\r' :: read) rest
    | fuel + 1, c :: rest =>
      if isPlain c || c == '\n' then literalLines fuel (c :: read) rest else none

/-- A text without the line break that may follow opening quotes. -/
def afterOpening (cs : List Char) : List Char := (newline? cs).getD cs

/-- Reads a string of any kind, from its opening quotes on. -/
def quote? : List Char → Option (String × List Char)
  | '"' :: '"' :: '"' :: cs => basicLines (cs.length + 1) [] (afterOpening cs)
  | '"' :: cs => basic (cs.length + 1) [] cs
  | '\x27' :: '\x27' :: '\x27' :: cs => literalLines (cs.length + 1) [] (afterOpening cs)
  | '\x27' :: cs => literal cs
  | _ => none

end Netlist.Toml
