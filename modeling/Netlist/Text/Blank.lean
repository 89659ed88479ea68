/-!
# Blanks around a text

Labels, port numbers and record fields are typed by hand, so the compiler
trims them before reading. What counts as a blank is the Unicode property
`White_Space`; the table below lists its 25 code points.
-/

namespace Netlist.Text

/-- The code points with the Unicode property `White_Space`. -/
def blanks : List Char :=
  ['\u0009', '\u000a', '\u000b', '\u000c', '\u000d', '\u0020', '\u0085', '\u00a0',
   '\u1680', '\u2000', '\u2001', '\u2002', '\u2003', '\u2004', '\u2005', '\u2006',
   '\u2007', '\u2008', '\u2009', '\u200a', '\u2028', '\u2029', '\u202f', '\u205f',
   '\u3000']

/-- Whether a character is white space anywhere in Unicode. -/
def isBlank (c : Char) : Bool :=
  blanks.contains c

/-- A character list without its leading and trailing blanks. -/
def trimChars (cs : List Char) : List Char :=
  ((cs.dropWhile isBlank).reverse.dropWhile isBlank).reverse

/-- A text without its leading and trailing blanks. -/
def trim (s : String) : String :=
  String.ofList (trimChars s.toList)

/-- Nothing is left to trim at the front once the first character is no blank. -/
theorem dropWhile_isBlank_of_head {c : Char} {cs : List Char} (h : isBlank c = false) :
    (c :: cs).dropWhile isBlank = c :: cs := by
  simp [h]

end Netlist.Text
