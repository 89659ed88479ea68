/-!
# Byte ranges and text positions

An error points into a document by a byte range of its UTF-8 text, while the
XML reader reports rows and columns. `Position.of` counts a position from the
characters before it, and `Position.offset` finds its byte offset again.
-/

namespace Netlist.Text

/-- The number of bytes a character list takes in UTF-8. -/
def byteLength (cs : List Char) : Nat :=
  cs.foldl (fun bytes c => bytes + c.utf8Size) 0

theorem foldl_utf8Size (n : Nat) (cs : List Char) :
    cs.foldl (fun bytes c => bytes + c.utf8Size) n = n + byteLength cs := by
  induction cs generalizing n with
  | nil => rfl
  | cons c cs ih =>
    simp only [byteLength, List.foldl_cons]
    rw [ih, ih]
    omega

@[simp] theorem byteLength_nil : byteLength [] = 0 := rfl

@[simp] theorem byteLength_cons (c : Char) (cs : List Char) :
    byteLength (c :: cs) = c.utf8Size + byteLength cs := by
  rw [byteLength, List.foldl_cons, foldl_utf8Size, Nat.zero_add]

@[simp] theorem byteLength_append (as bs : List Char) :
    byteLength (as ++ bs) = byteLength as + byteLength bs := by
  rw [byteLength, List.foldl_append, foldl_utf8Size]; rfl

/-- A half-open range of bytes, never ending before it starts. -/
structure Span where
  start : Nat
  stop : Nat
  start_le_stop : start ≤ stop := by omega
deriving DecidableEq, Repr

namespace Span

/-- The range from `start` to `stop`, empty at `start` when `stop` lies before it. -/
def of (start stop : Nat) : Span :=
  ⟨start, max start stop, Nat.le_max_left ..⟩

/-- The number of bytes in the range. -/
def length (s : Span) : Nat := s.stop - s.start

/-- Whether the range holds no byte. -/
def isEmpty (s : Span) : Bool := s.start == s.stop

end Span

/-- A row and a column, both counted from 1; columns count characters. -/
structure Position where
  row : Nat
  column : Nat
deriving DecidableEq, Repr

namespace Position

/-- The position of the first character of a text. -/
def first : Position := ⟨1, 1⟩

/-- The position right after a character. -/
def next (p : Position) (c : Char) : Position :=
  if c = '\n' then ⟨p.row + 1, 1⟩ else ⟨p.row, p.column + 1⟩

/-- The position reached after the characters `before`. -/
def of (before : List Char) : Position :=
  before.foldl next first

/-- Written `row:column`. -/
def render (p : Position) : String :=
  toString p.row ++ ":" ++ toString p.column

/-- Drops `rows` whole lines from the front of a text, each with its line feed;
gives the bytes dropped and what is left. -/
def skipRows : Nat → List Char → Nat × List Char
  | 0, cs => (0, cs)
  | _ + 1, [] => (0, [])
  | rows + 1, c :: cs =>
    let (bytes, rest) := if c = '\n' then skipRows rows cs else skipRows (rows + 1) cs
    (c.utf8Size + bytes, rest)

/-- The byte offset of a position in a text. Rows past the last line mean the
end of the text. Columns run on past the end of their line, up to the end of
the text. -/
def offset (text : List Char) (p : Position) : Nat :=
  let (bytes, rest) := skipRows (p.row - 1) text
  bytes + byteLength (rest.take (p.column - 1))

/-- The range of one byte at a position, cut off at the end of the text. -/
def span (text : List Char) (p : Position) : Span :=
  let start := p.offset text
  Span.of start (min (start + 1) (byteLength text))

end Position

end Netlist.Text
