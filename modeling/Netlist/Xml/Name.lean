/-!
# Character classes of XML

Names, white space and the characters a document may hold, as XML 1.0 lists
them.
-/

namespace Netlist.Xml

/-- Whether a code point lies in one of some closed ranges. -/
def inRanges (ranges : List (Nat × Nat)) (c : Char) : Bool :=
  ranges.any fun r => r.1 ≤ c.toNat && c.toNat ≤ r.2

/-- The ranges of `NameStartChar` but for the colon, which separates the parts
of a name here. -/
def nameStartRanges : List (Nat × Nat) :=
  [(0x41, 0x5a), (0x5f, 0x5f), (0x61, 0x7a), (0xc0, 0xd6), (0xd8, 0xf6), (0xf8, 0x2ff),
   (0x370, 0x37d), (0x37f, 0x1fff), (0x200c, 0x200d), (0x2070, 0x218f), (0x2c00, 0x2fef),
   (0x3001, 0xd7ff), (0xf900, 0xfdcf), (0xfdf0, 0xfffd), (0x10000, 0xeffff)]

/-- The ranges that `NameChar` adds to `NameStartChar`. -/
def nameExtraRanges : List (Nat × Nat) :=
  [(0x2d, 0x2e), (0x30, 0x39), (0xb7, 0xb7), (0x300, 0x36f), (0x203f, 0x2040)]

/-- Whether a character may open a part of a name. -/
def isNameStart (c : Char) : Bool := inRanges nameStartRanges c

/-- Whether a character may stand in a name, the colon included. -/
def isNameChar (c : Char) : Bool :=
  c == ':' || inRanges nameStartRanges c || inRanges nameExtraRanges c

/-- Whether a character is white space between the parts of a tag. -/
def isSpace (c : Char) : Bool :=
  c == ' ' || c == '\t' || c == '\n' || c == '\r'

/-- Whether a document may hold a character. -/
def isXmlChar (c : Char) : Bool :=
  if c.toNat < 0x20 then isSpace c else c.toNat != 0xfffe && c.toNat != 0xffff

end Netlist.Xml
