import Mathlib
import Netlist.Document

/-!
# Positions and bytes

What is wrong with an XML text is reported at a row and a column, and an error points at bytes.
Rows count line feeds and columns count characters, whatever bytes these take, so the byte is found
by going through the text again: by whole lines first, then along the last one.

- `Position.ofPlace`: the row and column of a place of a text.
- `Position.of_eq`: a reader that steps through a text counts them right.
- `Position.skipRows_lines`, `Position.offset_of`: going through the text again undoes the counting.
- `Position.offset_ofPlace`: so a place is found by its position.
- `Position.exists_offset_eq`: any row and column lead to a place.
- `Document.spans_point_at_places`: **an error of reading points at the byte of its place, and no
  row and column lead out of the text or into a character.**
-/

namespace Netlist.Text

theorem byteLength_ofList (cs : List Char) : byteLength cs = (String.ofList cs).utf8ByteSize := by
  induction cs with
  | nil => rfl
  | cons c cs ih =>
    rw [byteLength_cons, ih, String.ofList_cons, String.utf8ByteSize_append,
      String.utf8ByteSize_singleton]

/-- The bytes of a text are those of its characters. -/
theorem byteLength_toList (s : String) : byteLength s.toList = s.utf8ByteSize := by
  rw [byteLength_ofList, String.ofList_toList]

namespace Position

/-- The position of a place of a text: its row counts the line feeds before it, its column the
characters after the last of them. -/
def ofPlace {text : String} (p : text.Pos) : Position :=
  let before := (text.sliceTo p).copy.toList
  ⟨1 + before.count '\n', 1 + (before.rtakeWhile (· != '\n')).length⟩

/-! ## Counting -/

/-- **Stepping through a text counts** its line feeds, and the characters after the last one. -/
theorem of_eq (before : List Char) :
    of before = ⟨1 + before.count '\n', 1 + (before.rtakeWhile (· != '\n')).length⟩ := by
  -- on the characters from the last one, which is the one stepped over last
  induction before using List.reverseRecOn with
  | nil => rfl
  | append_singleton before c ih =>
    rw [of, List.foldl_concat, ← of, ih, next, List.count_append, List.rtakeWhile_concat]
    by_cases hc : c = '\n'
    · simp [hc, Nat.add_assoc]
    · simp [hc, Nat.add_assoc]

/-! ## Finding the byte -/

theorem skipRows_cons (rows : Nat) (c : Char) (cs : List Char) :
    skipRows (rows + 1) (c :: cs) =
      (c.utf8Size + (skipRows (if c = '\n' then rows else rows + 1) cs).1,
        (skipRows (if c = '\n' then rows else rows + 1) cs).2) := by
  by_cases hc : c = '\n' <;> simp [skipRows, hc]

/-- **As many rows as a text has line feeds are all of it**, if it ends with one. -/
theorem skipRows_lines {lines : List Char} (hlines : ∀ c ∈ lines.getLast?, c = '\n')
    (rest : List Char) :
    skipRows (lines.count '\n') (lines ++ rest) = (byteLength lines, rest) := by
  induction lines with
  | nil => rw [List.count_nil, List.nil_append, skipRows]; rfl
  | cons c lines ih =>
    have hlines' : ∀ c ∈ lines.getLast?, c = '\n' := fun d hd =>
      hlines d (by rw [List.getLast?_cons, Option.mem_def.mp hd]; rfl)
    specialize ih hlines'
    by_cases hc : c = '\n'
    · rw [hc, List.count_cons_self, List.cons_append, skipRows_cons, if_pos rfl, ih, byteLength_cons]
    · -- the line goes on, and a line feed is still to come
      have hmem : '\n' ∈ lines := by
        cases hlast : lines.getLast? with
        | none =>
          rw [List.getLast?_eq_none_iff] at hlast
          exact absurd (hlines c (by rw [hlast]; rfl)) hc
        | some d => exact hlines' d hlast ▸ List.mem_of_getLast? hlast
      obtain ⟨rows, hrows⟩ := Nat.exists_eq_add_one.mpr (List.count_pos_iff.mpr hmem)
      rw [List.count_cons_of_ne hc, hrows, List.cons_append, skipRows_cons, if_neg hc, ← hrows, ih,
        byteLength_cons]

theorem offset_eq (cs : List Char) (q : Position) :
    q.offset cs = (skipRows (q.row - 1) cs).1 +
      byteLength ((skipRows (q.row - 1) cs).2.take (q.column - 1)) := rfl

/-- The characters after whole lines are found by their number. -/
theorem offset_line {lines line : List Char} (hlines : ∀ c ∈ lines.getLast?, c = '\n')
    (hline : '\n' ∉ line) (after : List Char) :
    offset (lines ++ line ++ after) ⟨1 + (lines ++ line).count '\n', 1 + line.length⟩ =
      byteLength (lines ++ line) := by
  have hrows : 1 + (lines ++ line).count '\n' - 1 = lines.count '\n' := by
    rw [List.count_append, List.count_eq_zero.mpr hline, Nat.add_sub_cancel_left, Nat.add_zero]
  rw [offset_eq, hrows, Nat.add_sub_cancel_left, List.append_assoc, skipRows_lines hlines,
    List.take_left, byteLength_append]

/-- **The byte of a position counted from a text** is the one after that text. -/
theorem offset_of (before after : List Char) :
    (of before).offset (before ++ after) = byteLength before := by
  have hlines : ∀ c ∈ (before.rdropWhile (· != '\n')).getLast?, c = '\n' := by
    intro c hc
    obtain ⟨hne, rfl⟩ := List.mem_getLast?_eq_getLast hc
    simpa using List.rdropWhile_last_not (· != '\n') before hne
  have hline : '\n' ∉ before.rtakeWhile (· != '\n') := by
    intro hmem
    have hne := List.mem_rtakeWhile_imp hmem
    exact bne_iff_ne.mp hne rfl
  have hoffset := offset_line hlines hline after
  rwa [List.rdropWhile_append_rtakeWhile, ← of_eq] at hoffset

/-- Rows are dropped from the front. -/
theorem skipRows_append (rows : Nat) (cs : List Char) :
    ∃ dropped, dropped ++ (skipRows rows cs).2 = cs ∧ (skipRows rows cs).1 = byteLength dropped := by
  induction cs generalizing rows with
  | nil => exact ⟨[], by cases rows <;> simp [skipRows]⟩
  | cons c cs ih =>
    cases rows with
    | zero => exact ⟨[], by simp [skipRows]⟩
    | succ rows =>
      obtain ⟨dropped, hcut, hbytes⟩ := ih (if c = '\n' then rows else rows + 1)
      refine ⟨c :: dropped, ?_, ?_⟩
      · rw [skipRows_cons, List.cons_append, hcut]
      · rw [skipRows_cons, byteLength_cons, hbytes]

end Position

/-! ## Places -/

/-- What a text starts with ends at a place of it. -/
theorem exists_splits {text : String} {before after : List Char} (h : before ++ after = text.toList) :
    ∃ p : text.Pos, p.Splits (String.ofList before) (String.ofList after) := by
  have hcut : text = String.ofList before ++ String.ofList after := by
    rw [← String.ofList_append, h, String.ofList_toList]
  have hvalid : String.Pos.Raw.IsValid text (String.ofList before).rawEndPos :=
    String.Pos.Raw.isValid_iff_exists_append.mpr ⟨_, _, hcut, rfl⟩
  exact ⟨⟨_, hvalid⟩, hcut, rfl⟩

/-- A range points at a place of a text: it starts there and takes one byte, if there is one. -/
structure Span.PointsAt {text : String} (s : Span) (p : text.Pos) : Prop where
  start_eq : s.start = p.offset.byteIdx
  stop_eq : s.stop = min (p.offset.byteIdx + 1) text.utf8ByteSize

namespace Position

variable {text : String}

theorem of_eq_ofPlace {before after : List Char} {p : text.Pos}
    (h : p.Splits (String.ofList before) (String.ofList after)) : of before = ofPlace p := by
  rw [of_eq, ofPlace, h.copy_sliceTo_eq, String.toList_ofList]

/-- **The byte of the position of a place** is that of the place. -/
theorem offset_ofPlace (p : text.Pos) : (ofPlace p).offset text.toList = p.offset.byteIdx := by
  have hcut := congrArg String.toList p.splits.eq_append
  rw [String.toList_append] at hcut
  rw [ofPlace, ← of_eq, hcut, offset_of, byteLength_toList, p.splits.offset_eq_rawEndPos,
    String.byteIdx_rawEndPos]

/-- **Any row and column lead to a place of the text.** -/
theorem exists_offset_eq (text : String) (q : Position) :
    ∃ p : text.Pos, q.offset text.toList = p.offset.byteIdx := by
  obtain ⟨dropped, hcut, hbytes⟩ := skipRows_append (q.row - 1) text.toList
  have hsplit : (dropped ++ (skipRows (q.row - 1) text.toList).2.take (q.column - 1)) ++
      (skipRows (q.row - 1) text.toList).2.drop (q.column - 1) = text.toList := by
    rw [List.append_assoc, List.take_append_drop, hcut]
  obtain ⟨p, hp⟩ := exists_splits hsplit
  refine ⟨p, ?_⟩
  rw [hp.offset_eq_rawEndPos, String.byteIdx_rawEndPos, ← byteLength_ofList, byteLength_append,
    ← hbytes, offset_eq]

/-- A range starts at the byte of its position, which is not past the end of the text. -/
theorem pointsAt_span {q : Position} {p : text.Pos} (h : q.offset text.toList = p.offset.byteIdx) :
    (q.span text.toList).PointsAt p := by
  have hle : p.offset.byteIdx ≤ text.utf8ByteSize := p.byteIdx_offset_le_utf8ByteSize
  refine ⟨h, ?_⟩
  rw [span, h, byteLength_toList]
  exact Nat.max_eq_right (le_min (Nat.le_add_right _ 1) hle)

end Position

end Netlist.Text

namespace Netlist

open Text

/-- **Reading reports the position of a place of the text.** -/
theorem Xml.exists_ofPlace_eq {text : String} {m : Malformed} (h : Xml.read text = .error m) :
    ∃ p : text.Pos, m.position = Position.ofPlace p := by
  -- the characters before what was left of the text
  have hcut : ∀ n, ∃ p : text.Pos, Position.of (text.toList.take n) = Position.ofPlace p := fun n =>
    (exists_splits (List.take_append_drop n text.toList)).imp fun _ => Position.of_eq_ofPlace
  rw [Xml.read] at h
  split at h
  · cases h
  · cases h
    dsimp only
    split
    · exact hcut _
    · exact hcut 0

/-- **Errors point at places.** The row and column of a place of a text are found again at its
byte, and the range there takes one byte, or none at the end of the text. Any row and column, in
the text or not, lead to such a place, so that their range lies within the text. What is malformed
in a document is told by the row and column of a place, and the error points at that place. -/
theorem Document.spans_point_at_places (text : String) :
    (∀ p : text.Pos, ((Position.ofPlace p).span text.toList).PointsAt p) ∧
    (∀ q : Position, (∃ p : text.Pos, (q.span text.toList).PointsAt p) ∧
      (q.span text.toList).stop ≤ text.utf8ByteSize) ∧
    (∀ m, Xml.read text = .error m → ∃ s, ∃ p : text.Pos,
      Document.read text = .error (.malformed m s) ∧
        m.position = Position.ofPlace p ∧ s.PointsAt p) := by
  have hplace : ∀ p : text.Pos, ((Position.ofPlace p).span text.toList).PointsAt p := fun p =>
    Position.pointsAt_span (Position.offset_ofPlace p)
  refine ⟨hplace, fun q => ?_, fun m h => ?_⟩
  · obtain ⟨p, hp⟩ := Position.exists_offset_eq text q
    have hpoints := Position.pointsAt_span hp
    exact ⟨⟨p, hpoints⟩, hpoints.stop_eq ▸ min_le_right _ _⟩
  · obtain ⟨p, hp⟩ := Xml.exists_ofPlace_eq h
    refine ⟨m.position.span text.toList, p, ?_, hp, hp ▸ hplace p⟩
    rw [Document.read, h]

/-- An end tag after an accented letter, two line feeds and another accented letter. -/
def accentedText : String := "<a>é\n\n é</b>"

/-- The end tag is wrong in the third row and column, and the error points at its byte. -/
theorem Document.spans_point_at_places_accents :
    Xml.read accentedText = .error ⟨.wrongCloseTag "a" "b", ⟨3, 3⟩⟩ ∧
      ∃ s, ∃ p : accentedText.Pos,
        Document.read accentedText = .error (.malformed ⟨.wrongCloseTag "a" "b", ⟨3, 3⟩⟩ s) ∧
          ⟨3, 3⟩ = Position.ofPlace p ∧ s.PointsAt p := by
  have hread : Xml.read accentedText = .error ⟨.wrongCloseTag "a" "b", ⟨3, 3⟩⟩ := by cbv
  exact ⟨hread, (Document.spans_point_at_places accentedText).2.2 _ hread⟩

end Netlist
