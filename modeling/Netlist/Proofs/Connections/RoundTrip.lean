import Netlist.Proofs.Connections.Acceptance

/-!
# Written connections read back

Links and keys are pasted into the written form of a record as they are, while
reading cuts the text at its delimiters and trims the pieces. So not every list
of connections survives: a link may not be empty, neither link nor key may start
or end with a blank, and neither may hold `,` or `;`.

- `Writable`: that condition on one connection.
- `spells_renderOne`: a connection like that is spelled by its written form.
- `writable_of_read`, `inRange_of_read`: everything that is read satisfies it, and
  its numbers fit the machine.
- `read_render_iff`: **a list of connections survives being written and read iff
  all of them are writable**, as long as their numbers fit the machine.
- `read_render_exact`: the same for all lists of connections, and for all texts.
-/

namespace Netlist.Connections

open Netlist.Text

/-- The numbers of a connection fit the machine. -/
structure InRange (c : Connection) : Prop where
  port : c.port ≤ countLimit
  portMap : ∀ n ∈ c.portMap, -((integerLimit : Int) + 1) ≤ n ∧ n ≤ integerLimit

/-- What link and key of a connection must be like for the written form to be read back. -/
structure Writable (c : Connection) : Prop where
  link_ne_nil : c.link.toList ≠ []
  link_items : ∀ ch ∈ c.link.toList, isItem ch = true
  link_trimmed : trimChars c.link.toList = c.link.toList
  key_items : ∀ ch ∈ c.key.toList, isItem ch = true
  key_trimmed : trimChars c.key.toList = c.key.toList

/-! ## Written forms as characters -/

/-- Texts after the first one each follow a separator. -/
theorem toList_intercalate_cons (sep t : String) (ts : List String) :
    (sep.intercalate (t :: ts)).toList = t.toList ++ ts.flatMap fun u => sep.toList ++ u.toList := by
  induction ts generalizing t with
  | nil => simp
  | cons u ts ih => simp [String.intercalate_cons_cons, ih]

/-- The numbers of a port map after the first one, as they are written. -/
def writtenNumbers (ns : List Int) : List Char := ns.flatMap fun n => ' ' :: (toString n).toList

/-- The connections after the first one, as they are written. -/
def writtenEntries (cs : List Connection) : List Char := cs.flatMap fun c => ';' :: (renderOne c).toList

/-- A written port map. -/
def writtenMap : List Int → List Char
  | [] => []
  | n :: ns => (toString n).toList ++ writtenNumbers ns

theorem toList_intercalate_toString (ns : List Int) :
    (String.intercalate " " (ns.map toString)).toList = writtenMap ns := by
  cases ns with
  | nil => simp [writtenMap]
  | cons n ns =>
    rw [List.map_cons, toList_intercalate_cons, writtenMap, writtenNumbers, List.flatMap_map]
    rfl

theorem toList_renderOne (c : Connection) :
    (renderOne c).toList =
      c.link.toList ++ ',' :: (c.port.repr.toList ++ ',' ::
        (c.key.toList ++ ',' :: writtenMap c.portMap)) := by
  simp [renderOne, ← toList_intercalate_toString]

theorem toList_render_cons (c : Connection) (cs : List Connection) :
    (render (c :: cs)).toList = (renderOne c).toList ++ writtenEntries cs := by
  rw [render, List.map_cons, toList_intercalate_cons, writtenEntries, List.flatMap_map]
  rfl

/-! ## Written connections are spelled -/

theorem isDigits_repr (n : Nat) : IsDigits n.repr.toList n where
  ne_nil := by simp
  digits := fun _ => isDigit_of_mem_repr
  value := by rw [Nat.toList_repr, Nat.ofDigitChars_ten_toDigits]

theorem isInteger_toString {n : Int} (h : Fits n) : IsInteger (toString n).toList n := by
  cases n with
  | ofNat k => exact .plain (isDigits_repr k) h
  | negSucc k =>
    rw [toList_toString_negSucc]
    exact .minus (isDigits_repr (k + 1)) h

/-- A written integer is the first word of what starts with it. -/
theorem words_toString_append {n : Int} {rest : List Char} (h : Fits n)
    (hrest : ∀ c ∈ rest.head?, isGap c = true) :
    words ((toString n).toList ++ rest) = (toString n).toList :: words rest := by
  obtain ⟨hne, hword⟩ := (isInteger_toString h).is_word
  exact words_word_append hne (fun c hc => (hword c hc).1) hrest

theorem isGap_head?_writtenNumbers (ns : List Int) :
    ∀ c ∈ (writtenNumbers ns).head?, isGap c = true := by
  cases ns with
  | nil => exact fun _ hc => nomatch hc
  | cons n ns =>
    rintro c ⟨⟩
    rfl

theorem words_writtenNumbers {ns : List Int} (h : ∀ n ∈ ns, Fits n) :
    List.Forall₂ IsInteger (words (writtenNumbers ns)) ns := by
  induction ns with
  | nil => exact .nil
  | cons n ns ih =>
    obtain ⟨hn, hns⟩ := List.forall_mem_cons.mp h
    have hcut : words (writtenNumbers (n :: ns)) = (toString n).toList :: words (writtenNumbers ns) :=
      (words_append_cons (by decide : isGap ' ' = true) [] _).trans
        (words_toString_append hn (isGap_head?_writtenNumbers ns))
    rw [hcut]
    exact .cons (isInteger_toString hn) (ih hns)

/-- The numbers of a port map are written as one word each. -/
theorem words_writtenMap {ns : List Int} (h : ∀ n ∈ ns, Fits n) :
    List.Forall₂ IsInteger (words (writtenMap ns)) ns := by
  cases ns with
  | nil => exact .nil
  | cons n ns =>
    obtain ⟨hn, hns⟩ := List.forall_mem_cons.mp h
    rw [writtenMap, words_toString_append hn (isGap_head?_writtenNumbers ns)]
    exact .cons (isInteger_toString hn) (words_writtenNumbers hns)

theorem isItem_of_mem_writtenMap {ns : List Int} (h : ∀ n ∈ ns, Fits n) :
    ∀ c ∈ writtenMap ns, isItem c = true := by
  have hone : ∀ n ∈ ns, ∀ c ∈ (toString n).toList, isItem c = true := fun n hn c hc =>
    ((isInteger_toString (h n hn)).is_word.2 c hc).2
  cases ns with
  | nil => exact fun _ hc => nomatch hc
  | cons n ns =>
    obtain ⟨hn, hns⟩ := List.forall_mem_cons.mp hone
    refine List.forall_mem_append.mpr ⟨hn, fun c hc => ?_⟩
    obtain ⟨m, hm, hc⟩ := List.mem_flatMap.mp hc
    rcases List.mem_cons.mp hc with rfl | hc
    · rfl
    · exact hns m hm c hc

/-- **A writable connection is spelled by its written form**, in one segment. -/
theorem spells_renderOne {c : Connection} (hr : InRange c) (hw : Writable c) :
    Spells (renderOne c).toList c ∧ ';' ∉ (renderOne c).toList := by
  have hport : ∀ ch ∈ c.port.repr.toList, isItem ch = true := fun ch hch =>
    isItem_of_isDigit (isDigit_of_mem_repr hch)
  have hlink := isItem_iff.mp hw.link_items
  have hkey := isItem_iff.mp hw.key_items
  have hnumbers := isItem_iff.mp (isItem_of_mem_writtenMap hr.portMap)
  rw [isItem_iff] at hport
  have hdigits := isDigits_repr c.port
  rw [toList_renderOne]
  refine ⟨⟨_, _, _, _, splitOn_eq_fields.mpr ⟨rfl, hlink.1, hport.1, hkey.1, hnumbers.1⟩, ?_,
    hw.link_trimmed.symm, ⟨_, words_of_word hdigits.ne_nil hdigits.isGap, hdigits, hr.port⟩,
    hw.key_trimmed.symm, words_writtenMap hr.portMap⟩, ?_⟩
  · rw [hw.link_trimmed]
    exact hw.link_ne_nil
  · simpa [hlink.2, hkey.2, hnumbers.2] using hport.2

/-! ## Written texts are trimmed -/

theorem isBlank_getLast?_toString {n : Int} {c : Char} (h : c ∈ (toString n).toList.getLast?) :
    isBlank c = false := by
  cases n with
  | ofNat k => exact isBlank_of_isDigit (isDigit_of_mem_repr (List.mem_of_mem_getLast? h))
  | negSucc k =>
    have hlist : (toString (Int.negSucc k)).toList = '-' :: (k + 1).repr.toList := by
      show ("-" ++ (k + 1).repr).toList = _
      simp
    rw [hlist] at h
    rcases List.mem_cons.mp (List.mem_of_mem_getLast? h) with rfl | hd
    · decide
    · exact isBlank_of_isDigit (isDigit_of_mem_repr hd)

theorem toString_toList_ne_nil (n : Int) : (toString n).toList ≠ [] := by
  cases n with
  | ofNat k =>
    obtain ⟨c, cs, hcs, -⟩ := repr_toList_eq_cons k
    show k.repr.toList ≠ []
    rw [hcs]
    exact List.cons_ne_nil c cs
  | negSucc k =>
    show ("-" ++ (k + 1).repr).toList ≠ []
    simp

/-- A nonempty written port map ends with a digit. -/
theorem isBlank_getLast?_writtenMap {ns : List Int} {c : Char}
    (h : c ∈ (writtenMap ns).getLast?) : isBlank c = false := by
  -- the last number is the last thing written, whichever separators come before it
  have hlast : ∀ ns : List Int, ∀ c ∈ (writtenNumbers ns).getLast?, isBlank c = false := by
    intro ns
    induction ns with
    | nil => exact fun c hc => nomatch hc
    | cons n ns ih =>
      intro c hc
      have hstep : writtenNumbers (n :: ns) = (' ' :: (toString n).toList) ++ writtenNumbers ns := rfl
      rw [hstep, List.getLast?_append] at hc
      cases hns : (writtenNumbers ns).getLast? with
      | some b =>
        rw [hns] at hc
        cases hc
        exact ih _ hns
      | none =>
        rw [hns, Option.none_or, List.getLast?_cons_of_ne_nil (toString_toList_ne_nil n)] at hc
        exact isBlank_getLast?_toString hc
  cases ns with
  | nil => cases h
  | cons n ns =>
    rw [writtenMap, List.getLast?_append] at h
    cases hns : (writtenNumbers ns).getLast? with
    | some b =>
      rw [hns] at h
      cases h
      exact hlast ns _ hns
    | none =>
      rw [hns, Option.none_or] at h
      exact isBlank_getLast?_toString h

theorem isBlank_getLast?_renderOne {c : Connection} {ch : Char}
    (h : ch ∈ (renderOne c).toList.getLast?) : isBlank ch = false := by
  rw [toList_renderOne, List.getLast?_append_of_ne_nil _ (by simp), List.getLast?_cons_of_ne_nil
    (by simp), List.getLast?_append_of_ne_nil _ (by simp), List.getLast?_cons_of_ne_nil (by simp),
    List.getLast?_append_of_ne_nil _ (by simp)] at h
  cases hmap : writtenMap c.portMap with
  | nil =>
    rw [hmap] at h
    cases h
    decide
  | cons b bs =>
    rw [hmap, List.getLast?_cons_of_ne_nil (List.cons_ne_nil b bs), ← hmap] at h
    exact isBlank_getLast?_writtenMap h

theorem isBlank_getLast?_writtenEntries {cs : List Connection} {ch : Char}
    (h : ch ∈ (writtenEntries cs).getLast?) : isBlank ch = false := by
  induction cs with
  | nil => cases h
  | cons c cs ih =>
    have hne : (renderOne c).toList ≠ [] := by simp [toList_renderOne]
    have hstep : writtenEntries (c :: cs) = (';' :: (renderOne c).toList) ++ writtenEntries cs := rfl
    rw [hstep, List.getLast?_append] at h
    cases hcs : (writtenEntries cs).getLast? with
    | some b =>
      rw [hcs] at h ih
      exact ih h
    | none =>
      rw [hcs, Option.none_or, List.getLast?_cons_of_ne_nil hne] at h
      exact isBlank_getLast?_renderOne h

/-- Written connections start with a link, which is trimmed, and end with a
number or a `,`. -/
theorem trimChars_render {cs : List Connection} (hw : ∀ c ∈ cs, Writable c) :
    trimChars (render cs).toList = (render cs).toList := by
  cases cs with
  | nil => rfl
  | cons c cs =>
    have hc := hw c List.mem_cons_self
    obtain ⟨ch, chs, hlink⟩ := List.exists_cons_of_ne_nil hc.link_ne_nil
    rw [toList_render_cons]
    refine trimChars_eq_self_iff.mpr ⟨fun b hb => ?_, fun b hb => ?_⟩
    · rw [toList_renderOne, hlink] at hb
      cases hb
      exact (trimChars_eq_self_iff.mp hc.link_trimmed).1 _ (by rw [hlink]; rfl)
    · rw [List.getLast?_append] at hb
      cases hcs : (writtenEntries cs).getLast? with
      | some b' =>
        rw [hcs] at hb
        cases hb
        exact isBlank_getLast?_writtenEntries hcs
      | none =>
        rw [hcs, Option.none_or] at hb
        exact isBlank_getLast?_renderOne hb

/-- Written connections are their written forms joined by `;`. -/
theorem toList_render {cs : List Connection} (hne : cs ≠ []) :
    (render cs).toList = [';'].intercalate (cs.map fun c => (renderOne c).toList) := by
  obtain ⟨c, cs, rfl⟩ := List.exists_cons_of_ne_nil hne
  rw [toList_render_cons, List.map_cons, intercalate_cons_eq, writtenEntries, List.flatMap_map]

/-- What is writable and in range is read back. -/
theorem read_render {cs : List Connection} (hr : ∀ c ∈ cs, InRange c)
    (hw : ∀ c ∈ cs, Writable c) : read (render cs) = .ok cs := by
  rw [read_eq_ok_iff]
  cases cs with
  | nil => exact .inl ⟨rfl, rfl⟩
  | cons c cs =>
    right
    let segments := (c :: cs).map fun c => (renderOne c).toList
    have hspells : List.Forall₂ Spells segments (c :: cs) :=
      List.forall₂_map_left_iff.mpr (List.forall₂_same.mpr fun c hc =>
        (spells_renderOne (hr c hc) (hw c hc)).1)
    have hfree : ∀ segment ∈ segments, ';' ∉ segment := by
      rintro segment hmem
      obtain ⟨c, hc, rfl⟩ := List.mem_map.mp hmem
      exact (spells_renderOne (hr c hc) (hw c hc)).2
    have hnonempty : [] ∉ segments := fun hmem => by
      obtain ⟨c, -, hspell⟩ := forall₂_mem_left hspells hmem
      exact hspell.ne_nil rfl
    have hne : segments ≠ [] := by simp [segments]
    have hsplit := splitOn_withoutEnd hne hfree hnonempty (.inl rfl)
    rw [List.append_nil] at hsplit
    rw [trimChars_render hw, toList_render (List.cons_ne_nil c cs)]
    show List.Forall₂ Spells ((withoutEnd ([';'].intercalate segments)).splitOn ';') _
    rw [hsplit]
    exact hspells

/-! ## Whatever is read is writable -/

theorem Spells.inRange {segment : List Char} {c : Connection} (h : Spells segment c) :
    InRange c := by
  obtain ⟨f₀, f₁, f₂, f₃, -, -, -, ⟨digits, -, -, hport⟩, -, hnumbers⟩ := h
  refine ⟨hport, fun n hn => ?_⟩
  obtain ⟨word, -, hinteger⟩ := forall₂_mem_right hnumbers hn
  cases hinteger with
  | plain _ hfits => exact hfits
  | minus _ hfits => exact hfits

/-- Links and keys are fields of a segment, trimmed. -/
theorem Spells.writable {segment : List Char} {c : Connection} (h : Spells segment c)
    (hsemi : ';' ∉ segment) : Writable c := by
  obtain ⟨f₀, f₁, f₂, f₃, hsplit, hne, hlink, -, hkey, -⟩ := h
  obtain ⟨rfl, hcomma₀, -, hcomma₂, -⟩ := splitOn_eq_fields.mp hsplit
  simp only [List.mem_append, List.mem_cons, not_or] at hsemi
  obtain ⟨hsemi₀, -, -, -, hsemi₂, -, -⟩ := hsemi
  have hsub : ∀ cs : List Char, trimChars cs ⊆ cs := fun cs =>
    (((trimChars_prefix_dropWhile cs).sublist).trans (List.dropWhile_sublist _)).subset
  exact {
    link_ne_nil := hlink ▸ hne
    link_items := fun ch hch => isItem_iff.mpr ⟨hcomma₀, hsemi₀⟩ ch (hsub _ (hlink ▸ hch))
    link_trimmed := by rw [hlink, trimChars_trimChars]
    key_items := fun ch hch => isItem_iff.mpr ⟨hcomma₂, hsemi₂⟩ ch (hsub _ (hkey ▸ hch))
    key_trimmed := by rw [hkey, trimChars_trimChars] }

/-- Whatever is read is spelled by a segment. -/
theorem exists_spells_of_read {text : String} {cs : List Connection} (h : read text = .ok cs)
    {c : Connection} (hc : c ∈ cs) : ∃ segment, Spells segment c ∧ ';' ∉ segment := by
  rcases read_eq_ok_iff.mp h with ⟨-, rfl⟩ | hspells
  · cases hc
  · obtain ⟨segment, hmem, hspell⟩ := forall₂_mem_right hspells hc
    exact ⟨segment, hspell, not_mem_of_mem_splitOn hmem⟩

theorem inRange_of_read {text : String} {cs : List Connection} (h : read text = .ok cs) :
    ∀ c ∈ cs, InRange c := fun _ hc =>
  let ⟨_, hspell, _⟩ := exists_spells_of_read h hc
  hspell.inRange

/-- **Whatever is read is writable**: no text reads as a list that would not
survive being written. -/
theorem writable_of_read {text : String} {cs : List Connection} (h : read text = .ok cs) :
    ∀ c ∈ cs, Writable c := fun _ hc =>
  let ⟨_, hspell, hsemi⟩ := exists_spells_of_read h hc
  hspell.writable hsemi

/-- **Connections survive being written and read iff they are writable.** -/
theorem read_render_iff {cs : List Connection} (hr : ∀ c ∈ cs, InRange c) :
    read (render cs) = .ok cs ↔ ∀ c ∈ cs, Writable c :=
  ⟨writable_of_read, read_render hr⟩

/-- A text that can stand between delimiters: it neither starts nor ends with white space,
and holds no delimiter. -/
structure Plain (text : String) : Prop where
  head : ∀ ch ∈ text.toList.head?, isBlank ch = false
  last : ∀ ch ∈ text.toList.getLast?, isBlank ch = false
  comma : ',' ∉ text.toList
  semicolon : ';' ∉ text.toList

theorem plain_iff {text : String} :
    Plain text ↔ (∀ ch ∈ text.toList, isItem ch = true) ∧ trimChars text.toList = text.toList := by
  rw [isItem_iff, trimChars_eq_self_iff]
  exact ⟨fun h => ⟨⟨h.comma, h.semicolon⟩, h.head, h.last⟩,
    fun ⟨⟨hcomma, hsemicolon⟩, hhead, hlast⟩ => ⟨hhead, hlast, hcomma, hsemicolon⟩⟩

theorem writable_iff {c : Connection} :
    Writable c ↔ c.link ≠ "" ∧ Plain c.link ∧ Plain c.key := by
  rw [plain_iff, plain_iff, ne_eq, ← String.toList_eq_nil_iff]
  exact ⟨fun h => ⟨h.link_ne_nil, ⟨h.link_items, h.link_trimmed⟩, h.key_items, h.key_trimmed⟩,
    fun ⟨hne, hlink, hkey⟩ => ⟨hne, hlink.1, hlink.2, hkey.1, hkey.2⟩⟩

/-- **Reading undoes writing exactly on what is read.** A list of connections is read back iff
its numbers fit the machine, its links are not empty, and its links and keys are plain. Every
list that is read is like that, so writing it and reading it again changes nothing. -/
theorem read_render_exact :
    (∀ cs, read (render cs) = .ok cs ↔
      ∀ c ∈ cs, InRange c ∧ c.link ≠ "" ∧ Plain c.link ∧ Plain c.key) ∧
    ∀ text cs, read text = .ok cs →
      (∀ c ∈ cs, InRange c ∧ c.link ≠ "" ∧ Plain c.link ∧ Plain c.key) ∧
        read (render cs) = .ok cs := by
  simp only [← writable_iff]
  have hread : ∀ text cs, read text = .ok cs → ∀ c ∈ cs, InRange c ∧ Writable c :=
    fun text cs h c hc => ⟨inRange_of_read h c hc, writable_of_read h c hc⟩
  have hback : ∀ cs, (∀ c ∈ cs, InRange c ∧ Writable c) → read (render cs) = .ok cs :=
    fun cs h => read_render (fun c hc => (h c hc).1) fun c hc => (h c hc).2
  exact ⟨fun cs => ⟨hread _ cs, hback cs⟩,
    fun text cs h => ⟨hread text cs h, hback cs (hread text cs h)⟩⟩

/-- What was typed with blanks and a `;` at the end is read back once it is written. -/
theorem read_render_exact_inlet :
    read " R1 , 0 , inlet ,  3  -1 ; " = .ok [⟨"R1", 0, "inlet", [3, -1]⟩] ∧
      read (render [⟨"R1", 0, "inlet", [3, -1]⟩]) = .ok [⟨"R1", 0, "inlet", [3, -1]⟩] := by
  have hread : read " R1 , 0 , inlet ,  3  -1 ; " = .ok [⟨"R1", 0, "inlet", [3, -1]⟩] := by cbv
  exact ⟨hread, (read_render_exact.2 _ _ hread).2⟩

/-- A written record is read back iff its node count fits the machine and its
connections are writable. -/
theorem readRecord_written_iff {r : InterfaceRecord} (hr : ∀ c ∈ r.connections, InRange c) :
    readRecord (some (toString r.nodeCount)) (some (render r.connections)) = .ok (some r) ↔
      r.nodeCount ≤ countLimit ∧ ∀ c ∈ r.connections, Writable c := by
  rw [← read_render_iff hr, readRecord]
  simp only [trim_toString]
  cases hcount : readCount (toString r.nodeCount) with
  | error e =>
    have : ¬ r.nodeCount ≤ countLimit := by
      intro hle
      rw [readCount_toString.mpr ⟨rfl, hle⟩] at hcount
      cases hcount
    simp [this]
  | ok n =>
    obtain ⟨rfl, hle⟩ := readCount_toString.mp hcount
    cases hread : read (render r.connections) with
    | error e => simp
    | ok cs =>
      cases r
      simp [hle]

end Netlist.Connections
