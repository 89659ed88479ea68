import Mathlib
import Netlist.Element

/-!
# Written numbers read back

Numbers leave the compiler in decimal: as new labels of nodes, in the fields of
instances and interfaces, in the port maps of records. Everything downstream
reads them again from those texts, so each of them must come back as it was.

- `readMagnitude_eq_ok_iff`: what a run of digits reads as, for any text. The
  library's `Nat.ofDigitChars` is the value, the limit is the only other test.
- `readCount_toString`, `readSigned_toString`: a written number reads back iff
  it is in range.
- `Fits`, `readSigned_toString_int`: the integers in range, negative ones included.
- `labelNumber?_toString`, `labelNumber?_toString_int`: the same for a label, which is
  trimmed first.
-/

namespace Netlist.Text

/-! ## Trimmed texts -/

/-- After its leading blanks a text starts with something else, or is over. -/
theorem isBlank_head?_dropWhile {cs : List Char} {c : Char}
    (h : c ∈ (cs.dropWhile isBlank).head?) : isBlank c = false := by
  have := List.head?_dropWhile_not isBlank cs
  rw [Option.mem_def.mp h] at this
  simpa using this

/-- Trimming at the end only shortens what trimming at the front left. -/
theorem trimChars_prefix_dropWhile (cs : List Char) : trimChars cs <+: cs.dropWhile isBlank := by
  rw [trimChars, ← List.reverse_suffix, List.reverse_reverse]
  exact List.dropWhile_suffix _

/-- What is trimmed does not start with a blank. -/
theorem isBlank_head?_trimChars {cs : List Char} {c : Char}
    (h : c ∈ (trimChars cs).head?) : isBlank c = false := by
  obtain ⟨rest, hrest⟩ := trimChars_prefix_dropWhile cs
  apply @isBlank_head?_dropWhile cs
  rw [← hrest, List.head?_append, Option.mem_def.mp h]
  rfl

/-- What is trimmed does not end with a blank. -/
theorem isBlank_getLast?_trimChars {cs : List Char} {c : Char}
    (h : c ∈ (trimChars cs).getLast?) : isBlank c = false := by
  rw [trimChars, List.getLast?_reverse] at h
  exact isBlank_head?_dropWhile h

/-- A text is trimmed iff it neither starts nor ends with a blank. -/
theorem trimChars_eq_self_iff {cs : List Char} :
    trimChars cs = cs ↔
      (∀ c ∈ cs.head?, isBlank c = false) ∧ ∀ c ∈ cs.getLast?, isBlank c = false := by
  have hdrop : ∀ {as : List Char}, (∀ c ∈ as.head?, isBlank c = false) →
      as.dropWhile isBlank = as := by
    intro as h
    cases as with
    | nil => rfl
    | cons a as => exact dropWhile_isBlank_of_head (h a rfl)
  constructor
  · intro h
    exact ⟨fun c hc => isBlank_head?_trimChars (h.symm ▸ hc),
      fun c hc => isBlank_getLast?_trimChars (h.symm ▸ hc)⟩
  · rintro ⟨h₁, h₂⟩
    rw [trimChars, hdrop h₁, hdrop fun c hc => h₂ c (by rwa [← List.head?_reverse]),
      List.reverse_reverse]

/-- Trimming leaves nothing to trim. -/
@[simp] theorem trimChars_trimChars (cs : List Char) : trimChars (trimChars cs) = trimChars cs :=
  trimChars_eq_self_iff.mpr ⟨fun _ => isBlank_head?_trimChars, fun _ => isBlank_getLast?_trimChars⟩

/-- A text without blanks is trimmed. -/
theorem trimChars_of_forall {cs : List Char} (h : ∀ c ∈ cs, isBlank c = false) :
    trimChars cs = cs :=
  trimChars_eq_self_iff.mpr
    ⟨fun c hc => h c (List.mem_of_mem_head? hc), fun c hc => h c (List.mem_of_mem_getLast? hc)⟩

/-! ## Runs of digits -/

/-- The digits of the reader are the ASCII digits of the library. -/
theorem digitValue?_eq (c : Char) :
    digitValue? c = if c.isDigit then some (c.toNat - '0'.toNat) else none := by
  have : ('0' ≤ c ∧ c ≤ '9') ↔ c.isDigit = true := by
    simp [Char.isDigit, Char.le_def]
  simp only [digitValue?, this]

theorem isBlank_of_isDigit {c : Char} (h : c.isDigit = true) : isBlank c = false := by
  rw [Bool.eq_false_iff]
  intro hb
  have hmem : c ∈ blanks := by simpa [isBlank] using hb
  have hnone : blanks.all (fun b => !b.isDigit) = true := by rfl
  have := List.all_eq_true.mp hnone c hmem
  rw [h] at this
  cases this

/-- Further digits never make a value smaller. -/
theorem le_ofDigitChars (cs : List Char) (acc : Nat) : acc ≤ Nat.ofDigitChars 10 cs acc := by
  induction cs generalizing acc with
  | nil => simp
  | cons c cs ih =>
    rw [Nat.ofDigitChars_cons]
    exact Nat.le_trans (by omega) (ih _)

/-- Digits read on from `acc` as long as the value stays in range; the last
value decides, since values only grow. -/
theorem readDigits_eq_ok_iff {limit acc n : Nat} {overflow : NumeralFault} {cs : List Char}
    (hacc : acc ≤ limit) :
    readDigits limit overflow acc cs = .ok n ↔
      (∀ c ∈ cs, c.isDigit = true) ∧ Nat.ofDigitChars 10 cs acc = n ∧ n ≤ limit := by
  induction cs generalizing acc with
  | nil =>
    simp only [readDigits, Except.ok.injEq, List.not_mem_nil, false_implies, implies_true,
      Nat.ofDigitChars_nil, true_and]
    exact ⟨fun h => ⟨h, h ▸ hacc⟩, fun h => h.1⟩
  | cons c cs ih =>
    simp only [readDigits, digitValue?_eq, List.forall_mem_cons, Nat.ofDigitChars_cons]
    by_cases hc : c.isDigit
    · simp only [hc, if_true, true_and]
      rw [Nat.mul_comm 10 acc]
      by_cases hle : acc * 10 + (c.toNat - '0'.toNat) ≤ limit
      · rw [if_pos hle]
        exact ih hle
      · rw [if_neg hle]
        constructor
        · intro h
          cases h
        · rintro ⟨-, rfl, hn⟩
          exact absurd (Nat.le_trans (le_ofDigitChars cs _) hn) hle
    · simp [hc]

/-- **What a run of digits reads as**: its value, if it is a nonempty run and
the value is in range. -/
theorem readMagnitude_eq_ok_iff {limit n : Nat} {overflow : NumeralFault} {cs : List Char} :
    readMagnitude limit overflow cs = .ok n ↔
      cs ≠ [] ∧ (∀ c ∈ cs, c.isDigit = true) ∧ Nat.ofDigitChars 10 cs 0 = n ∧ n ≤ limit := by
  cases cs with
  | nil => simp [readMagnitude]
  | cons c cs =>
    rw [readMagnitude, readDigits_eq_ok_iff (Nat.zero_le _)]
    · simp
    · simp

theorem isDigit_of_mem_repr {n : Nat} {c : Char} (h : c ∈ n.repr.toList) : c.isDigit = true := by
  rw [Nat.toList_repr] at h
  exact Nat.isDigit_of_mem_toDigits (by decide) (by decide) h

/-- The digits of a number read as that number. -/
theorem readMagnitude_repr {limit n m : Nat} {overflow : NumeralFault} :
    readMagnitude limit overflow n.repr.toList = .ok m ↔ n = m ∧ n ≤ limit := by
  rw [readMagnitude_eq_ok_iff]
  constructor
  · rintro ⟨-, -, hn, hm⟩
    rw [Nat.toList_repr, Nat.ofDigitChars_ten_toDigits] at hn
    exact ⟨hn, hn ▸ hm⟩
  · rintro ⟨rfl, hn⟩
    refine ⟨by simp, fun c => isDigit_of_mem_repr, ?_, hn⟩
    rw [Nat.toList_repr, Nat.ofDigitChars_ten_toDigits]

/-- A number is told by its digits. -/
theorem toList_repr_inj {n m : Nat} : n.repr.toList = m.repr.toList ↔ n = m := by
  refine ⟨fun h => ?_, fun h => by rw [h]⟩
  rw [Nat.toList_repr, Nat.toList_repr] at h
  rw [← Nat.ofDigitChars_ten_toDigits (n := n), h, Nat.ofDigitChars_ten_toDigits]

theorem toString_inj {n m : Nat} : toString n = toString m ↔ n = m := by
  rw [Nat.toString_eq_repr, Nat.toString_eq_repr, ← String.toList_inj, toList_repr_inj]

/-! ## Whole numerals -/

/-- A written number starts with a digit, so no sign is looked for. -/
theorem repr_toList_eq_cons (n : Nat) :
    ∃ c cs, n.repr.toList = c :: cs ∧ c.isDigit = true := by
  cases h : n.repr.toList with
  | nil => simp at h
  | cons c cs => exact ⟨c, cs, rfl, isDigit_of_mem_repr (h ▸ List.mem_cons_self)⟩

/-- **A natural number survives writing**, as far as it is in range. -/
theorem readNatural_toString {limit n m : Nat} :
    readNatural limit (toString n) = .ok m ↔ n = m ∧ n ≤ limit := by
  obtain ⟨c, cs, hcs, hc⟩ := repr_toList_eq_cons n
  have hdigits : readMagnitude limit .tooLarge n.repr.toList = .ok m ↔ n = m ∧ n ≤ limit :=
    readMagnitude_repr
  rw [← hdigits, readNatural, Nat.toString_eq_repr, hcs]
  split
  · rename_i h
    cases h
  · rename_i h
    cases h
    cases hc
  · rfl

/-- **Counts survive writing**, as far as they are in range. -/
theorem readCount_toString {n m : Nat} :
    readCount (toString n) = .ok m ↔ n = m ∧ n ≤ countLimit :=
  readNatural_toString

/-- A written natural number reads back as a signed one. -/
theorem readSigned_toString {n : Nat} {m : Int} :
    readSigned (toString n) = .ok m ↔ (n : Int) = m ∧ n ≤ integerLimit := by
  obtain ⟨c, cs, hcs, hc⟩ := repr_toList_eq_cons n
  have hmag : (readMagnitude integerLimit .tooLarge n.repr.toList).map Int.ofNat = .ok m ↔
      (n : Int) = m ∧ n ≤ integerLimit := by
    cases hr : readMagnitude integerLimit .tooLarge n.repr.toList with
    | ok k =>
      obtain ⟨rfl, hk⟩ := readMagnitude_repr.mp hr
      simp [Except.map, hk]
    | error e =>
      simp only [Except.map, reduceCtorEq, false_iff, not_and]
      intro _ hle
      rw [readMagnitude_repr.mpr ⟨rfl, hle⟩] at hr
      cases hr
  rw [← hmag, readSigned, readInteger, Nat.toString_eq_repr, hcs]
  split
  · rename_i h
    cases h
  · rename_i h
    cases h
    cases hc
  · rename_i h
    cases h
    cases hc
  · rfl

/-- Written numbers hold no blanks. -/
@[simp] theorem trim_toString (n : Nat) : trim (toString n) = toString n := by
  rw [trim, trimChars_of_forall, String.ofList_toList]
  intro c hc
  exact isBlank_of_isDigit (isDigit_of_mem_repr hc)

/-- The integers that fit the machine. -/
def Fits (n : Int) : Prop := -((integerLimit : Int) + 1) ≤ n ∧ n ≤ integerLimit

instance (n : Int) : Decidable (Fits n) := inferInstanceAs (Decidable (_ ∧ _))

/-- **An integer that is read fits.** -/
theorem fits_of_readSigned {s : String} {n : Int} (h : readSigned s = .ok n) : Fits n := by
  have hread : ∀ {limit : Nat} {overflow : NumeralFault} {cs : List Char} {f : Nat → Int},
      (readMagnitude limit overflow cs).map f = .ok n → ∃ k ≤ limit, n = f k := by
    intro limit overflow cs f h
    cases hr : readMagnitude limit overflow cs with
    | error e =>
      rw [hr] at h
      cases h
    | ok k =>
      rw [hr] at h
      exact ⟨k, (readMagnitude_eq_ok_iff.mp hr).2.2.2, (Except.ok.inj h).symm⟩
  rw [readSigned, readInteger] at h
  rw [Fits]
  split at h
  · cases h
  all_goals
    obtain ⟨k, hk, hn⟩ := hread h
    rw [Int.ofNat_eq_natCast] at hn
    omega

theorem toList_toString_negSucc (k : Nat) :
    (toString (Int.negSucc k)).toList = '-' :: (k + 1).repr.toList := by
  show ("-" ++ (k + 1).repr).toList = _
  simp

/-- **An integer survives writing**, as far as it fits. -/
theorem readSigned_toString_int {n : Int} (h : Fits n) : readSigned (toString n) = .ok n := by
  cases n with
  | ofNat k => exact readSigned_toString.mpr ⟨rfl, Int.ofNat_le.mp h.2⟩
  | negSucc k =>
    have hk : k + 1 ≤ integerLimit + 1 := by
      have hle := h.1
      rw [Int.negSucc_eq] at hle
      omega
    rw [readSigned, readInteger, toList_toString_negSucc]
    show (readMagnitude (integerLimit + 1) .tooSmall (k + 1).repr.toList).map _ = _
    rw [readMagnitude_repr.mpr ⟨rfl, hk⟩]
    rfl

@[simp] theorem trim_toString_int (n : Int) : trim (toString n) = toString n := by
  cases n with
  | ofNat k => exact trim_toString k
  | negSucc k =>
    rw [trim, trimChars_of_forall, String.ofList_toList]
    intro c hc
    rw [toList_toString_negSucc] at hc
    rcases List.mem_cons.mp hc with rfl | hc
    · rfl
    · exact isBlank_of_isDigit (isDigit_of_mem_repr hc)

end Netlist.Text

namespace Netlist.Element

open Netlist.Text

/-- A label that is a written number counts as that number, as far as it is in range. -/
theorem labelNumber?_toString {e : Element} {n : Nat} (h : e.label = toString n) :
    e.labelNumber? = if n ≤ integerLimit then some (n : Int) else none := by
  rw [labelNumber?, h, trim_toString]
  cases hr : readSigned (toString n) with
  | ok m =>
    obtain ⟨rfl, hn⟩ := readSigned_toString.mp hr
    simp [Except.toOption, hn]
  | error e =>
    have : ¬ n ≤ integerLimit := by
      intro hn
      rw [readSigned_toString.mpr ⟨rfl, hn⟩] at hr
      cases hr
    simp [Except.toOption, this]

/-- A label that is a written integer counts as that integer, if it fits. -/
theorem labelNumber?_toString_int {e : Element} {n : Int} (h : e.label = toString n) (hn : Fits n) :
    e.labelNumber? = some n := by
  rw [labelNumber?, h, trim_toString_int, readSigned_toString_int hn]
  rfl

theorem fits_of_labelNumber? {e : Element} {n : Int} (h : e.labelNumber? = some n) : Fits n := by
  rw [labelNumber?] at h
  cases hread : readSigned (trim e.label) with
  | error fault =>
    rw [hread] at h
    cases h
  | ok m =>
    rw [hread] at h
    cases h
    exact fits_of_readSigned hread

/-- Read as an unsigned number of at most `limit`, such a label gives its
number or nothing. -/
theorem labelNatural?_toString {e : Element} {limit n m : Nat} (h : e.label = toString n)
    (hm : e.labelNatural? limit = some m) : m = n := by
  rw [labelNatural?, labelNumber?_toString h] at hm
  by_cases hn : n ≤ integerLimit
  · simp only [if_pos hn] at hm
    split at hm
    · exact (Option.some.inj hm).symm
    · cases hm
  · simp [hn] at hm

/-- A written number in range is read. -/
theorem labelNatural?_of_toString {e : Element} {limit n : Nat} (h : e.label = toString n)
    (hlimit : n ≤ limit) (hn : n ≤ integerLimit) : e.labelNatural? limit = some n := by
  rw [labelNatural?, labelNumber?_toString h, if_pos hn]
  exact if_pos hlimit

/-- What is read as an unsigned number is read as an integer, and is in range. -/
theorem labelNatural?_eq_some {e : Element} {limit n : Nat} :
    e.labelNatural? limit = some n ↔ e.labelNumber? = some (n : Int) ∧ n ≤ limit := by
  rw [labelNatural?]
  constructor
  · intro h
    split at h
    · rename_i k hk
      split at h
      · rename_i hle
        cases h
        exact ⟨hk, hle⟩
      · cases h
    · cases h
  · rintro ⟨hn, hle⟩
    rw [hn]
    exact if_pos hle

theorem labelNatural?_le {e : Element} {limit n : Nat} (h : e.labelNatural? limit = some n) :
    n ≤ limit := (labelNatural?_eq_some.mp h).2

/-- Labels read the same in elements with the same label. -/
theorem labelNumber?_congr {e e' : Element} (h : e.label = e'.label) :
    e.labelNumber? = e'.labelNumber? := by
  rw [labelNumber?, labelNumber?, h]

theorem labelNatural?_congr {e e' : Element} (limit : Nat) (h : e.label = e'.label) :
    e.labelNatural? limit = e'.labelNatural? limit := by
  rw [labelNatural?, labelNatural?, labelNumber?_congr h]

end Netlist.Element
