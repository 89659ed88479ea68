import Netlist.Text.Unseen

/-!
# Quoted texts in messages

A message that shows a text of the user puts it between double quotes and
escapes what would not be seen as it is: quotes, backslashes, control
characters, marks that combine with the character before them, and characters
without a shape of their own.
-/

namespace Netlist.Text

/-- Whether a character is shown as an escape: it would not be seen as it is. -/
def isUnseen (c : Char) : Bool :=
  Unseen.ranges.any fun r => r.1 ≤ c.toNat && c.toNat ≤ r.2

/-- A character of a quoted text. -/
def quoteChar (c : Char) : String :=
  if c = '"' then "\\\""
  else if c = '\\' then "\\\\"
  else if c = '\n' then "\\n"
  else if c = '\r' then "\\r"
  else if c = '\t' then "\\t"
  else if c = '\x00' then "\\0"
  else if isUnseen c then
    "\\u\x7b" ++ String.ofList (Nat.toDigits 16 c.toNat) ++ "\x7d"
  else c.toString

/-- A text between double quotes. -/
def quoted (s : String) : String :=
  "\"" ++ String.join (s.toList.map quoteChar) ++ "\""

end Netlist.Text
