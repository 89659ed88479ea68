import Netlist.Proofs.Connections.Grammar

/-!
# Fields are read as the grammar says

Each part of the reader gets two lemmas: what it takes off the front of a text is in the
grammar, and what is in the grammar it takes off the front.

- `digits?_eq_some_iff`, `signed?_eq_some_iff`: numbers, up to their last digit.
- `portMap_spells`, `portMap_of_words`: port maps, with the blanks around them.
- `port?_spells`, `port?_of_words`: ports, with the blanks around them.
- `item_cut`, `item_append`: links and keys, up to the next delimiter.
-/

namespace Netlist.Connections

open Netlist.Text

/-! ## Reading numbers -/

/-- No digit comes first. -/
def NoDigit (cs : List Char) : Prop := ∀ c ∈ cs.head?, c.isDigit = false

/-- **Digits are read as far as they go.** -/
theorem digits?_eq_some_iff {limit n : Nat} {cs rest : List Char} :
    digits? limit cs = some (n, rest) ↔
      ∃ digits, cs = digits ++ rest ∧ IsDigits digits n ∧ n ≤ limit ∧ NoDigit rest := by
  constructor
  · intro h
    rw [digits?] at h
    split at h
    · rename_i m hread
      cases h
      obtain ⟨hne, hdigits, hvalue, hlimit⟩ := readMagnitude_eq_ok_iff.mp hread
      refine ⟨_, List.takeWhile_append_dropWhile.symm, ⟨hne, hdigits, hvalue⟩, hlimit,
        fun c hc => ?_⟩
      rw [← isDigit_eq]
      exact eq_false_of_dropWhile hc
    · cases h
  · rintro ⟨digits, rfl, hdigits, hlimit, hrest⟩
    have hall : ∀ c ∈ digits, isDigit c = true := fun c hc => by
      rw [isDigit_eq]
      exact hdigits.digits c hc
    have hstop : rest.takeWhile isDigit = [] ∧ rest.dropWhile isDigit = rest := by
      cases rest with
      | nil => exact ⟨rfl, rfl⟩
      | cons c cs => simp [isDigit_eq, hrest c rfl]
    have hread : readMagnitude limit .tooLarge digits = .ok n :=
      readMagnitude_eq_ok_iff.mpr ⟨hdigits.ne_nil, hdigits.digits, hdigits.value, hlimit⟩
    rw [digits?, List.takeWhile_append_of_pos hall, List.dropWhile_append_of_pos hall, hstop.1,
      hstop.2, List.append_nil, hread]

theorem fits_natCast {n : Nat} : Fits (n : Int) ↔ n ≤ integerLimit := by
  rw [Fits]
  omega

theorem fits_neg_natCast {n : Nat} : Fits (-(n : Int)) ↔ n ≤ integerLimit + 1 := by
  rw [Fits]
  omega

/-- **Integers are read as far as their digits go.** -/
theorem signed?_eq_some_iff {n : Int} {cs rest : List Char} :
    signed? cs = some (n, rest) ↔
      ∃ word, cs = word ++ rest ∧ IsInteger word n ∧ NoDigit rest := by
  constructor
  · intro h
    unfold signed? at h
    split at h
    · obtain ⟨⟨m, rest'⟩, hread, heq⟩ := Option.map_eq_some_iff.mp h
      cases heq
      obtain ⟨digits, rfl, hdigits, hlimit, hrest⟩ := digits?_eq_some_iff.mp hread
      exact ⟨'-' :: digits, rfl, .minus hdigits (fits_neg_natCast.mpr hlimit), hrest⟩
    · obtain ⟨⟨m, rest'⟩, hread, heq⟩ := Option.map_eq_some_iff.mp h
      cases heq
      obtain ⟨digits, rfl, hdigits, hlimit, hrest⟩ := digits?_eq_some_iff.mp hread
      exact ⟨digits, rfl, .plain hdigits (fits_natCast.mpr hlimit), hrest⟩
  · rintro ⟨word, rfl, hword, hrest⟩
    cases hword with
    | @plain digits m hdigits hfits =>
      have hread := digits?_eq_some_iff.mpr ⟨_, rfl, hdigits, fits_natCast.mp hfits, hrest⟩
      obtain ⟨first, others, rfl⟩ := List.exists_cons_of_ne_nil hdigits.ne_nil
      unfold signed?
      split
      · rename_i heq
        cases heq
        exact absurd (hdigits.digits _ List.mem_cons_self) (by decide)
      · rw [hread]
        rfl
    | @minus digits m hdigits hfits =>
      have hread := digits?_eq_some_iff.mpr ⟨_, rfl, hdigits, fits_neg_natCast.mp hfits, hrest⟩
      show (digits? (integerLimit + 1) (digits ++ rest)).map _ = _
      rw [hread]
      rfl

theorem signed?_of_noDigit {cs : List Char} (h : NoDigit cs) (hminus : '-' ∉ cs.head?) :
    signed? cs = none := by
  rw [Option.eq_none_iff_forall_ne_some]
  rintro ⟨n, rest⟩ hread
  obtain ⟨word, rfl, hword, -⟩ := signed?_eq_some_iff.mp hread
  cases hword with
  | @plain digits m hdigits =>
    obtain ⟨first, others, rfl⟩ := List.exists_cons_of_ne_nil hdigits.ne_nil
    rw [NoDigit, List.cons_append, List.head?_cons] at h
    cases (hdigits.digits first List.mem_cons_self).symm.trans (h first rfl)
  | minus => exact hminus rfl

theorem skipGaps_append {gaps rest : List Char} (h : ∀ c ∈ gaps, isGap c = true) :
    skipGaps (gaps ++ rest) = skipGaps rest := List.dropWhile_append_of_pos h

theorem skipGaps_of_head {cs : List Char} (h : ∀ c ∈ cs.head?, isGap c = false) :
    skipGaps cs = cs := by
  cases cs with
  | nil => rfl
  | cons c cs => exact List.dropWhile_cons_of_neg (by simpa using h c rfl)

/-- Blanks are skipped up to the next word. -/
theorem skipGaps_word {gaps word rest : List Char} (hgaps : ∀ c ∈ gaps, isGap c = true)
    (hne : word ≠ []) (hword : ∀ c ∈ word, isGap c = false) :
    skipGaps (gaps ++ (word ++ rest)) = word ++ rest := by
  rw [skipGaps_append hgaps]
  refine skipGaps_of_head fun c hc => ?_
  rw [List.head?_append_of_ne_nil _ hne] at hc
  exact hword c (List.mem_of_mem_head? hc)

theorem exists_gaps (cs : List Char) :
    ∃ gaps, cs = gaps ++ skipGaps cs ∧ ∀ c ∈ gaps, isGap c = true :=
  ⟨_, List.takeWhile_append_dropWhile.symm, fun _ => List.mem_takeWhile_imp⟩

/-- Neither a blank nor what follows a word starts with a digit. -/
theorem NoDigit.append {after rest : List Char} (hrest : NoDigit rest)
    (hafter : ∀ c ∈ after.head?, isGap c = true) : NoDigit (after ++ rest) := by
  cases after with
  | nil => exact hrest
  | cons gap after =>
    rintro c ⟨⟩
    rw [Bool.eq_false_iff]
    intro hdigit
    cases (hafter gap rfl).symm.trans (isGap_of_isDigit hdigit)

/-! ## Reading port maps -/

/-- Nothing that belongs to a port map comes first: the text is over, or the
next entry follows. -/
def AtEntryEnd (cs : List Char) : Prop := cs = [] ∨ ∃ r, cs = ';' :: r

namespace AtEntryEnd

variable {cs : List Char}

theorem noDigit (h : AtEntryEnd cs) : NoDigit cs := by
  rcases h with rfl | ⟨r, rfl⟩
  · exact fun c hc => nomatch hc
  · rintro c ⟨⟩
    rfl

theorem skipGaps (h : AtEntryEnd cs) : Connections.skipGaps cs = cs := by
  rcases h with rfl | ⟨r, rfl⟩ <;> rfl

theorem signed? (h : AtEntryEnd cs) : Connections.signed? cs = none := by
  refine signed?_of_noDigit h.noDigit ?_
  rcases h with rfl | ⟨r, rfl⟩ <;> simp

theorem moreNumbers (h : AtEntryEnd cs) : Connections.moreNumbers cs = ([], cs) := by
  rcases h with rfl | ⟨r, rfl⟩
  · rw [Connections.moreNumbers]
  · rw [Connections.moreNumbers, if_neg (by decide)]

end AtEntryEnd

/-- A list of integers, as what is taken off the front of a text. -/
structure ReadsNumbers (cs : List Char) (numbers : List Int) (rest field : List Char) : Prop where
  cut : cs = field ++ rest
  integers : List.Forall₂ IsInteger (words field) numbers
  items : ∀ c ∈ field, isItem c = true

/-- One more integer in front of a list. -/
theorem ReadsNumbers.cons {gaps word cs rest field : List Char} {n : Int} {numbers : List Int}
    (h : ReadsNumbers cs numbers rest field) (hfield : ∀ c ∈ field.head?, isGap c = true)
    (hgaps : ∀ c ∈ gaps, isGap c = true) (hword : IsInteger word n) :
    ReadsNumbers (gaps ++ (word ++ cs)) (n :: numbers) rest (gaps ++ (word ++ field)) := by
  obtain ⟨hne, hall⟩ := hword.is_word
  refine ⟨by simp [h.cut], ?_, ?_⟩
  · rw [words_gaps_append hgaps, words_word_append hne (fun c hc => (hall c hc).1) hfield]
    exact .cons hword h.integers
  · refine List.forall_mem_append.mpr ⟨fun c hc => isItem_of_isGap (hgaps c hc), ?_⟩
    exact List.forall_mem_append.mpr ⟨fun c hc => (hall c hc).2, h.items⟩

theorem moreNumbers_spells (cs : List Char) :
    ∃ field, ReadsNumbers cs (moreNumbers cs).1 (moreNumbers cs).2 field ∧
      ∀ c ∈ field.head?, isGap c = true := by
  have hstop : ∀ rest, ReadsNumbers rest [] rest [] := fun rest => ⟨rfl, .nil, by simp⟩
  -- along the reader: it goes on after a blank with an integer behind it
  fun_induction moreNumbers cs with
  | case1 => exact ⟨[], hstop [], by simp⟩
  | case2 c cs hc n rest hread _ numbers left hmore ih =>
    rw [hmore] at ih
    obtain ⟨field, hnumbers, hfield⟩ := ih
    obtain ⟨gaps, hcut, hgaps⟩ := exists_gaps cs
    obtain ⟨word, hword, hinteger, -⟩ := signed?_eq_some_iff.mp hread
    have hall : ∀ g ∈ c :: gaps, isGap g = true := List.forall_mem_cons.mpr ⟨hc, hgaps⟩
    have hwhole : c :: cs = (c :: gaps) ++ (word ++ rest) := by
      rw [← hword, List.cons_append, ← hcut]
    rw [hwhole]
    refine ⟨_, hnumbers.cons hfield hall hinteger, fun g hg => ?_⟩
    cases hg
    exact hc
  | case3 c cs => exact ⟨[], hstop _, by simp⟩
  | case4 c cs => exact ⟨[], hstop _, by simp⟩

/-- **What is read as a port map is a field of integers.** -/
theorem portMap_spells (cs : List Char) :
    ∃ field, ReadsNumbers cs (portMap cs).1 (portMap cs).2 field := by
  obtain ⟨gaps, hcut, hgaps⟩ := exists_gaps cs
  rw [portMap]
  cases hread : signed? (skipGaps cs) with
  | none =>
    refine ⟨gaps, hcut, ?_, fun c hc => isItem_of_isGap (hgaps c hc)⟩
    rw [words_of_gaps hgaps]
    exact .nil
  | some found =>
    obtain ⟨n, rest⟩ := found
    obtain ⟨word, hword, hinteger, -⟩ := signed?_eq_some_iff.mp hread
    obtain ⟨field, hnumbers, hfield⟩ := moreNumbers_spells rest
    obtain ⟨trailing, hleft, htrailing⟩ := exists_gaps (moreNumbers rest).2
    -- the blanks after the last number belong to the field too
    have hlonger : ReadsNumbers rest (moreNumbers rest).1 (skipGaps (moreNumbers rest).2)
        (field ++ trailing) := by
      refine ⟨?_, ?_, List.forall_mem_append.mpr
        ⟨hnumbers.items, fun c hc => isItem_of_isGap (htrailing c hc)⟩⟩
      · rw [List.append_assoc, ← hleft, ← hnumbers.cut]
      · rw [words_append_gaps htrailing]
        exact hnumbers.integers
    have hhead : ∀ c ∈ (field ++ trailing).head?, isGap c = true := by
      intro c hc
      cases field with
      | nil => exact htrailing c (List.mem_of_mem_head? hc)
      | cons first others => exact hfield c hc
    rw [hcut, hword]
    exact ⟨_, hlonger.cons hhead hgaps hinteger⟩

/-- A word of a field is read up to the blanks after it. -/
theorem signed?_of_word {gaps word after rest : List Char} {n : Int}
    (hgaps : ∀ c ∈ gaps, isGap c = true) (hword : IsInteger word n)
    (hafter : ∀ c ∈ after.head?, isGap c = true) (hrest : AtEntryEnd rest) :
    signed? (skipGaps (gaps ++ (word ++ (after ++ rest)))) = some (n, after ++ rest) := by
  obtain ⟨hne, hall⟩ := hword.is_word
  rw [skipGaps_word hgaps hne fun c hc => (hall c hc).1]
  exact signed?_eq_some_iff.mpr ⟨word, rfl, hword, hrest.noDigit.append hafter⟩

/-- After the first integer, the words of a field are read one by one; only blanks are left. -/
theorem moreNumbers_of_words {field rest : List Char} {numbers : List Int}
    (hfield : ∀ c ∈ field.head?, isGap c = true)
    (hwords : List.Forall₂ IsInteger (words field) numbers) (hrest : AtEntryEnd rest) :
    ∃ gaps, (∀ c ∈ gaps, isGap c = true) ∧
      moreNumbers (field ++ rest) = (numbers, gaps ++ rest) := by
  -- on the numbers, one word at a time
  induction numbers generalizing field with
  | nil =>
    rcases words_cases field with ⟨hgaps, -⟩ | ⟨-, word, after, -, -, -, -, -, heq⟩
    · refine ⟨field, hgaps, ?_⟩
      cases field with
      | nil => exact hrest.moreNumbers
      | cons gap gaps =>
        obtain ⟨hgap, hgaps⟩ := List.forall_mem_cons.mp hgaps
        have hnone : signed? (skipGaps (gaps ++ rest)) = none := by
          rw [skipGaps_append hgaps, hrest.skipGaps, hrest.signed?]
        rw [List.cons_append, moreNumbers, if_pos hgap]
        split
        · rename_i hread
          cases hnone.symm.trans hread
        · rfl
    · rw [heq] at hwords
      cases hwords
  | cons n numbers ih =>
    rcases words_cases field with
        ⟨-, hnil⟩ | ⟨before, word, after, rfl, hbefore, hne, hword, hafter, heq⟩
    · rw [hnil] at hwords
      cases hwords
    · rw [heq] at hwords
      obtain ⟨hinteger, hlater⟩ := List.forall₂_cons.mp hwords
      obtain ⟨gaps, hgaps, hmore⟩ := ih hafter hlater
      -- the field starts with a blank, so there is one before the word
      obtain ⟨first, others, rfl⟩ : ∃ first others, before = first :: others := by
        refine List.exists_cons_of_ne_nil ?_
        rintro rfl
        obtain ⟨c, cs, rfl⟩ := List.exists_cons_of_ne_nil hne
        cases (hword c List.mem_cons_self).symm.trans (hfield c rfl)
      obtain ⟨hfirst, hothers⟩ := List.forall_mem_cons.mp hbefore
      have hread := signed?_of_word hothers hinteger hafter hrest
      refine ⟨gaps, hgaps, ?_⟩
      rw [List.cons_append, List.cons_append, List.append_assoc, List.append_assoc, moreNumbers,
        if_pos hfirst]
      split
      · rename_i hread'
        cases hread.symm.trans hread'
        rw [hmore]
      · rename_i hread'
        cases hread.symm.trans hread'

/-- **A field of integers is read as a port map**, with all its blanks. -/
theorem portMap_of_words {field rest : List Char} {numbers : List Int}
    (hwords : List.Forall₂ IsInteger (words field) numbers) (hrest : AtEntryEnd rest) :
    portMap (field ++ rest) = (numbers, rest) := by
  rcases words_cases field with
      ⟨hgaps, hnil⟩ | ⟨before, word, after, rfl, hbefore, -, -, hafter, heq⟩
  · rw [hnil] at hwords
    cases hwords
    rw [portMap, skipGaps_append hgaps, hrest.skipGaps, hrest.signed?]
  · rw [heq] at hwords
    obtain ⟨n, numbers, hinteger, hlater, rfl⟩ := List.forall₂_cons_left_iff.mp hwords
    obtain ⟨gaps, hgaps, hmore⟩ := moreNumbers_of_words hafter hlater hrest
    rw [List.append_assoc, List.append_assoc, portMap,
      signed?_of_word hbefore hinteger hafter hrest]
    simp only
    rw [hmore]
    simp only [skipGaps_append hgaps, hrest.skipGaps]

/-! ## Reading the other fields -/

/-- **A link or key is read up to the next delimiter.** -/
theorem item_append {field rest : List Char} (hfield : ∀ c ∈ field, isItem c = true) :
    item (field ++ ',' :: rest) = (trimChars field, ',' :: rest) := by
  have hcomma : ¬ isItem ',' = true := by decide
  rw [item, List.takeWhile_append_of_pos hfield, List.dropWhile_append_of_pos hfield,
    List.takeWhile_cons_of_neg hcomma, List.dropWhile_cons_of_neg hcomma, List.append_nil]

theorem item_cut (cs : List Char) :
    ∃ field, cs = field ++ (item cs).2 ∧ (item cs).1 = trimChars field ∧
      ∀ c ∈ field, isItem c = true :=
  ⟨_, List.takeWhile_append_dropWhile.symm, rfl, fun _ => List.mem_takeWhile_imp⟩

/-- What is read as a port is a field with one run of digits. -/
theorem port?_spells {n : Nat} {cs rest : List Char} (h : port? cs = some (n, rest)) :
    ∃ field digits, cs = field ++ rest ∧ words field = [digits] ∧ IsDigits digits n ∧
      n ≤ countLimit ∧ ∀ c ∈ field, isItem c = true := by
  rw [port?] at h
  obtain ⟨⟨m, left⟩, hread, heq⟩ := Option.map_eq_some_iff.mp h
  cases heq
  obtain ⟨digits, hcut, hdigits, hlimit, -⟩ := digits?_eq_some_iff.mp hread
  obtain ⟨before, hbefore, hgaps⟩ := exists_gaps cs
  obtain ⟨after, hafter, htrailing⟩ := exists_gaps left
  refine ⟨before ++ (digits ++ after), digits, ?_, ?_, hdigits, hlimit, ?_⟩
  · rw [List.append_assoc, List.append_assoc, ← hafter, ← hcut, ← hbefore]
  · rw [words_gaps_append hgaps, words_append_gaps htrailing,
      words_of_word hdigits.ne_nil hdigits.isGap]
  · refine List.forall_mem_append.mpr ⟨fun c hc => isItem_of_isGap (hgaps c hc), ?_⟩
    exact List.forall_mem_append.mpr ⟨fun c hc => isItem_of_isDigit (hdigits.digits c hc),
      fun c hc => isItem_of_isGap (htrailing c hc)⟩

/-- A field with one run of digits is read as a port, with all its blanks. -/
theorem port?_of_words {n : Nat} {field digits rest : List Char} (hwords : words field = [digits])
    (hdigits : IsDigits digits n) (hlimit : n ≤ countLimit) :
    port? (field ++ ',' :: rest) = some (n, ',' :: rest) := by
  rcases words_cases field with
      ⟨-, hnil⟩ | ⟨before, word, after, rfl, hbefore, hne, hword, hafter, heq⟩
  · cases hnil.symm.trans hwords
  · rw [heq, List.cons.injEq] at hwords
    obtain ⟨rfl, hnil⟩ := hwords
    have htrailing : ∀ c ∈ after, isGap c = true := by
      rcases words_cases after with ⟨hgaps, -⟩ | ⟨_, _, _, -, -, -, -, -, hcons⟩
      · exact hgaps
      · cases hcons.symm.trans hnil
    have hcomma : skipGaps (',' :: rest) = ',' :: rest := skipGaps_of_head (by rintro c ⟨⟩; rfl)
    have hnext : NoDigit (after ++ ',' :: rest) :=
      NoDigit.append (by rintro c ⟨⟩; rfl) hafter
    rw [port?, List.append_assoc, List.append_assoc, skipGaps_word hbefore hne hword,
      digits?_eq_some_iff.mpr ⟨word, rfl, hdigits, hlimit, hnext⟩,
      Option.map_some, skipGaps_append htrailing, hcomma]

end Netlist.Connections
