import Mathlib.Data.List.Forall2
import Netlist.Connections
import Netlist.Proofs.Text.Decimal

/-!
# The grammar of written connections

Connections are read from left to right, each part as far as it goes, and what is left in the
end decides whether the text is accepted. The grammar cuts the text first: at `;` into segments,
at `,` into fields, at blanks and tabs into words.

- `Spells`: what a segment says, field by field.
- `splitOn_eq_iff`, `splitOn_eq_fields`: how a text is cut at a separator, and a segment into
  its fields.
- `words_word_append`, `words_cases`: how a field is cut into words.
-/

namespace Netlist.Connections

open Netlist.Text

/-! ## The grammar -/

/-- A run of digits and its value. -/
structure IsDigits (cs : List Char) (n : Nat) : Prop where
  ne_nil : cs ≠ []
  digits : ∀ c ∈ cs, c.isDigit = true
  value : Nat.ofDigitChars 10 cs 0 = n

/-- Digits after at most one `-`, and their value, which fits the machine. -/
inductive IsInteger : List Char → Int → Prop
  | plain {cs : List Char} {n : Nat} (digits : IsDigits cs n) (fits : Fits n) : IsInteger cs n
  | minus {cs : List Char} {n : Nat} (digits : IsDigits cs n) (fits : Fits (-n)) :
      IsInteger ('-' :: cs) (-n)

/-- What stands between blanks and tabs. -/
def words (cs : List Char) : List (List Char) := (cs.splitOnP isGap).filter fun w => !w.isEmpty

/-- A segment spells a connection: it has four fields, which are a link, a port number, a key
and a list of integers. -/
def Spells (segment : List Char) (c : Connection) : Prop :=
  ∃ link port key numbers, segment.splitOn ',' = [link, port, key, numbers] ∧
    trimChars link ≠ [] ∧ c.link.toList = trimChars link ∧
    (∃ digits, words port = [digits] ∧ IsDigits digits c.port ∧ c.port ≤ countLimit) ∧
    c.key.toList = trimChars key ∧
    List.Forall₂ IsInteger (words numbers) c.portMap

/-- A text without one `;` at its end. -/
def withoutEnd (cs : List Char) : List Char := if cs.getLast? = some ';' then cs.dropLast else cs

/-! ## Cutting at a separator -/

theorem not_mem_of_mem_splitOn {sep : Char} {cs piece : List Char} (h : piece ∈ cs.splitOn sep) :
    sep ∉ piece := by
  induction cs generalizing piece with
  | nil =>
    rw [List.splitOn_nil, List.mem_singleton] at h
    exact h ▸ List.not_mem_nil
  | cons c cs ih =>
    rw [List.splitOn_cons_eq_if_modifyHead] at h
    split at h
    · rcases List.mem_cons.mp h with rfl | h
      · exact List.not_mem_nil
      · exact ih h
    · rename_i hc
      obtain ⟨first, rest, hsplit⟩ := List.exists_cons_of_ne_nil (List.splitOn_ne_nil sep cs)
      rw [hsplit, List.modifyHead_cons] at h
      rw [hsplit] at ih
      rcases List.mem_cons.mp h with rfl | h
      · rw [List.mem_cons, not_or]
        exact ⟨fun heq => hc (beq_iff_eq.mpr heq.symm), ih List.mem_cons_self⟩
      · exact ih (List.mem_cons_of_mem first h)

/-- **How a text is cut at a separator**: the pieces do not hold it, and it joins them. -/
theorem splitOn_eq_iff {sep : Char} {cs : List Char} {pieces : List (List Char)}
    (hne : pieces ≠ []) :
    cs.splitOn sep = pieces ↔ cs = [sep].intercalate pieces ∧ ∀ piece ∈ pieces, sep ∉ piece := by
  constructor
  · rintro rfl
    exact ⟨(List.intercalate_splitOn sep).symm, fun _ => not_mem_of_mem_splitOn⟩
  · rintro ⟨rfl, hpieces⟩
    exact List.splitOn_intercalate sep hpieces hne

theorem intercalate_cons_eq (sep : Char) (first : List Char) (pieces : List (List Char)) :
    [sep].intercalate (first :: pieces) = first ++ pieces.flatMap (sep :: ·) := by
  induction pieces generalizing first with
  | nil => simp
  | cons second pieces ih => rw [List.intercalate_cons_cons, ih, List.flatMap_cons]; simp

/-! ## Words -/

/-- What is dropped ends where something else comes. -/
theorem eq_false_of_dropWhile {p : Char → Bool} {cs : List Char} {c : Char}
    (h : c ∈ (cs.dropWhile p).head?) : p c = false := by
  have hstop := List.head?_dropWhile_not p cs
  rw [Option.mem_def.mp h] at hstop
  exact hstop

theorem words_append_cons {gap : Char} (h : isGap gap = true) (cs rest : List Char) :
    words (cs ++ gap :: rest) = words cs ++ words rest := by
  rw [words, List.splitOnP_append_cons cs rest h, List.filter_append]
  rfl

/-- Without blanks and tabs there is one word. -/
theorem words_of_word {word : List Char} (hne : word ≠ []) (hword : ∀ c ∈ word, isGap c = false) :
    words word = [word] := by
  rw [words, List.splitOnP_eq_singleton hword, List.filter_cons_of_pos (by simpa using hne)]
  rfl

theorem words_of_gaps {gaps : List Char} (h : ∀ c ∈ gaps, isGap c = true) : words gaps = [] := by
  induction gaps with
  | nil => rfl
  | cons gap gaps ih =>
    obtain ⟨hgap, hgaps⟩ := List.forall_mem_cons.mp h
    exact (words_append_cons hgap [] gaps).trans (ih hgaps)

theorem words_gaps_append {gaps : List Char} (h : ∀ c ∈ gaps, isGap c = true) (cs : List Char) :
    words (gaps ++ cs) = words cs := by
  induction gaps with
  | nil => rfl
  | cons gap gaps ih =>
    obtain ⟨hgap, hgaps⟩ := List.forall_mem_cons.mp h
    exact (words_append_cons hgap [] (gaps ++ cs)).trans (ih hgaps)

theorem words_append_gaps {gaps : List Char} (h : ∀ c ∈ gaps, isGap c = true) (cs : List Char) :
    words (cs ++ gaps) = words cs := by
  cases gaps with
  | nil => rw [List.append_nil]
  | cons gap gaps =>
    obtain ⟨hgap, hgaps⟩ := List.forall_mem_cons.mp h
    rw [words_append_cons hgap, words_of_gaps hgaps, List.append_nil]

/-- A word ends where a blank or tab follows. -/
theorem words_word_append {word rest : List Char} (hne : word ≠ [])
    (hword : ∀ c ∈ word, isGap c = false) (hrest : ∀ c ∈ rest.head?, isGap c = true) :
    words (word ++ rest) = word :: words rest := by
  cases rest with
  | nil => rw [List.append_nil, words_of_word hne hword]; rfl
  | cons gap rest =>
    have hgap : isGap gap = true := hrest gap rfl
    rw [words_append_cons hgap, words_of_word hne hword]
    exact congrArg (word :: ·) (words_append_cons hgap [] rest).symm

/-- A text is blank, or its first word comes after some blanks and tabs. -/
theorem words_cases (cs : List Char) :
    ((∀ c ∈ cs, isGap c = true) ∧ words cs = []) ∨
      ∃ before word after, cs = before ++ (word ++ after) ∧ (∀ c ∈ before, isGap c = true) ∧
        word ≠ [] ∧ (∀ c ∈ word, isGap c = false) ∧ (∀ c ∈ after.head?, isGap c = true) ∧
        words cs = word :: words after := by
  have hbefore : ∀ c ∈ cs.takeWhile isGap, isGap c = true := fun _ => List.mem_takeWhile_imp
  have hcut : cs = cs.takeWhile isGap ++ cs.dropWhile isGap := List.takeWhile_append_dropWhile.symm
  rcases hrest : cs.dropWhile isGap with _ | ⟨first, rest⟩
  · rw [hrest, List.append_nil] at hcut
    rw [← hcut] at hbefore
    exact .inl ⟨hbefore, words_of_gaps hbefore⟩
  · have hfirst : isGap first = false := eq_false_of_dropWhile (by rw [hrest]; rfl)
    let word := (first :: rest).takeWhile fun c => !isGap c
    let after := (first :: rest).dropWhile fun c => !isGap c
    have hne : word ≠ [] := by simp [word, hfirst]
    have hword : ∀ c ∈ word, isGap c = false := fun c hc => by
      simpa using List.mem_takeWhile_imp hc
    have hafter : ∀ c ∈ after.head?, isGap c = true := fun c hc => by
      simpa using eq_false_of_dropWhile hc
    have hcut' : first :: rest = word ++ after := List.takeWhile_append_dropWhile.symm
    rw [hrest, hcut'] at hcut
    refine .inr ⟨_, word, after, hcut, hbefore, hne, hword, hafter, ?_⟩
    rw [hcut, words_gaps_append hbefore, words_word_append hne hword hafter]

/-! ## Classes of characters -/

theorem isDigit_eq (c : Char) : isDigit c = c.isDigit := by
  rw [isDigit, digitValue?_eq]
  cases c.isDigit <;> rfl

theorem isGap_of_isDigit {c : Char} (h : c.isDigit = true) : isGap c = false := by
  rw [isGap, Bool.or_eq_false_iff, beq_eq_false_iff_ne, beq_eq_false_iff_ne]
  constructor <;> rintro rfl <;> cases h

theorem isItem_of_isDigit {c : Char} (h : c.isDigit = true) : isItem c = true := by
  rw [isItem, Bool.and_eq_true, bne_iff_ne, bne_iff_ne]
  constructor <;> rintro rfl <;> cases h

theorem isItem_of_isGap {c : Char} (h : isGap c = true) : isItem c = true := by
  rw [isGap, Bool.or_eq_true, beq_iff_eq, beq_iff_eq] at h
  rcases h with rfl | rfl <;> decide

theorem isItem_iff {field : List Char} :
    (∀ c ∈ field, isItem c = true) ↔ ',' ∉ field ∧ ';' ∉ field := by
  simp only [isItem, Bool.and_eq_true, bne_iff_ne]
  exact ⟨fun h => ⟨fun hc => (h _ hc).1 rfl, fun hc => (h _ hc).2 rfl⟩,
    fun h c hc => ⟨fun heq => h.1 (heq ▸ hc), fun heq => h.2 (heq ▸ hc)⟩⟩

theorem IsDigits.isGap {digits : List Char} {n : Nat} (h : IsDigits digits n) :
    ∀ c ∈ digits, Connections.isGap c = false := fun c hc => isGap_of_isDigit (h.digits c hc)

/-- A written integer is one word, and holds no delimiter. -/
theorem IsInteger.is_word {word : List Char} {n : Int} (h : IsInteger word n) :
    word ≠ [] ∧ ∀ c ∈ word, isGap c = false ∧ isItem c = true := by
  have hof : ∀ {digits : List Char} {m : Nat}, IsDigits digits m →
      ∀ c ∈ digits, isGap c = false ∧ isItem c = true := fun hdigits c hc =>
    ⟨isGap_of_isDigit (hdigits.digits c hc), isItem_of_isDigit (hdigits.digits c hc)⟩
  cases h with
  | plain hdigits => exact ⟨hdigits.ne_nil, hof hdigits⟩
  | minus hdigits =>
    exact ⟨List.cons_ne_nil _ _, List.forall_mem_cons.mpr ⟨by decide, hof hdigits⟩⟩

/-! ## Fields -/

/-- The fields of a segment are what is between its three commas. -/
theorem splitOn_eq_fields {segment f₀ f₁ f₂ f₃ : List Char} :
    segment.splitOn ',' = [f₀, f₁, f₂, f₃] ↔
      segment = f₀ ++ ',' :: (f₁ ++ ',' :: (f₂ ++ ',' :: f₃)) ∧
        ',' ∉ f₀ ∧ ',' ∉ f₁ ∧ ',' ∉ f₂ ∧ ',' ∉ f₃ := by
  rw [splitOn_eq_iff (List.cons_ne_nil _ _), intercalate_cons_eq]
  simp

end Netlist.Connections
