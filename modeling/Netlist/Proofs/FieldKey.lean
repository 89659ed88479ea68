import Netlist.FieldKey
import Netlist.Proofs.Connections.RoundTrip

/-!
# Positional field keys

A key is read in two ways: as a whole, and for its tail alone. Fields are matched by their tails
before anybody asks for class and slot, so both ways have to take the same texts for keys, and the
tail has to be the name.

- `Spells`: what a text says as a key, character by character.
- `readHead?_eq_some_iff`, `ofString?_eq_some_iff`: what is read is what the text spells.
- `tail?_eq_map`: the tail is the name of the key that is read.
- `spells_render`: a written key spells that key, with a name and a slot in range.
- `readers_agree`: **both ways take the same texts for keys, with the tail for a name, and a key
  is read back from what is written for it.**
-/

namespace Netlist

open Connections (IsDigits NoDigit digits? digits?_eq_some_iff isDigit)
open Text

theorem FieldClass.ofLetter?_eq_some_iff {l : Char} {c : FieldClass} :
    ofLetter? l = some c ↔ l = c.letter := by
  constructor
  · intro h
    unfold ofLetter? at h
    split at h <;> cases h <;> rfl
  · rintro rfl
    exact ofLetter?_letter c

namespace FieldKey

/-! ## The grammar -/

/-- A text spells a key: the letter of the class, a run of digits with the slot as their value, a
dot and the name, which is all that follows. -/
def Spells (key : String) (k : FieldKey) : Prop :=
  ∃ digits, key.toList = k.fieldClass.letter :: (digits ++ '.' :: k.name.toList) ∧
    IsDigits digits k.index ∧ k.index ≤ indexLimit ∧ k.name ≠ ""

/-! ## Reading -/

/-- The slot is read as the numbers of connections are: as far as its digits go. -/
theorem readHead?_cons {l : Char} {cs rest : List Char} {c : FieldClass} {index : Nat} :
    readHead? (l :: cs) = some (c, index, rest) ↔
      FieldClass.ofLetter? l = some c ∧ digits? indexLimit cs = some (index, '.' :: rest) := by
  rw [readHead?, digits?, show isDigit = fun c => (digitValue? c).isSome from rfl]
  cases FieldClass.ofLetter? l with
  | none => simp
  | some c' =>
    dsimp only
    split
    · rename_i hread hdot
      rw [hread, hdot]
      simp only [Option.some.injEq, Prod.mk.injEq, List.cons.injEq, true_and]
    · -- there are no digits that can be read, or no dot comes after them
      rename_i hother
      refine ⟨nofun, fun ⟨_, hdigits⟩ => ?_⟩
      split at hdigits
      · rename_i n hread
        obtain ⟨rfl, hdot⟩ := Prod.mk.inj (Option.some.inj hdigits)
        exact absurd hdot (hother n rest hread)
      · cases hdigits

/-- **What opens a key**, and what is left after it: the digits run up to the dot. -/
theorem readHead?_eq_some_iff {cs rest : List Char} {c : FieldClass} {index : Nat} :
    readHead? cs = some (c, index, rest) ↔ ∃ digits, cs = c.letter :: (digits ++ '.' :: rest) ∧
      IsDigits digits index ∧ index ≤ indexLimit := by
  have hdot : NoDigit ('.' :: rest) := by
    rintro _ ⟨⟩
    rfl
  cases cs with
  | nil => simp [readHead?]
  | cons l cs =>
    rw [readHead?_cons, FieldClass.ofLetter?_eq_some_iff, digits?_eq_some_iff]
    constructor
    · rintro ⟨rfl, digits, rfl, hdigits, hlimit, -⟩
      exact ⟨digits, rfl, hdigits, hlimit⟩
    · rintro ⟨digits, heq, hdigits, hlimit⟩
      obtain ⟨rfl, rfl⟩ := List.cons.inj heq
      exact ⟨rfl, digits, rfl, hdigits, hlimit, hdot⟩

/-- **What a text reads as**: the key it spells. -/
theorem ofString?_eq_some_iff {key : String} {k : FieldKey} :
    ofString? key = some k ↔ Spells key k := by
  have hread : ofString? key = some k ↔
      readHead? key.toList = some (k.fieldClass, k.index, k.name.toList) ∧ k.name ≠ "" := by
    rw [ofString?]
    constructor
    · intro h
      split at h
      · rename_i hhead
        cases h
        rw [String.toList_ofList]
        exact ⟨hhead, fun hname => by simpa using congrArg String.toList hname⟩
      · cases h
    · rintro ⟨hhead, hname⟩
      obtain ⟨first, more, hcons⟩ :=
        List.exists_cons_of_ne_nil (String.toList_eq_nil_iff.not.mpr hname)
      rw [hhead, hcons]
      simp only
      rw [← hcons, String.ofList_toList]
  rw [hread, readHead?_eq_some_iff, Spells]
  simp only [← exists_and_right, and_assoc]

/-- **The tail of a text** is the name of the key it reads as, since both are read from the same
characters after the dot. -/
theorem tail?_eq_map (key : String) : tail? key = (ofString? key).map name := by
  rw [tail?, ofString?]
  rcases readHead? key.toList with _ | ⟨c, index, _ | ⟨first, more⟩⟩ <;> rfl

theorem isPositional_iff {key : String} : isPositional key = true ↔ ∃ k, ofString? key = some k := by
  rw [isPositional, tail?_eq_map, Option.isSome_map, Option.isSome_iff_exists]

/-! ## Writing -/

/-- A slot is written with at least two digits, which does not change its value. -/
theorem isDigits_padded (index : Nat) :
    IsDigits (if (Nat.toDigits 10 index).length < 2 then '0' :: Nat.toDigits 10 index
      else Nat.toDigits 10 index) index := by
  have hdigits := Connections.isDigits_repr index
  rw [Nat.toList_repr] at hdigits
  split
  · refine ⟨List.cons_ne_nil _ _, List.forall_mem_cons.mpr ⟨rfl, hdigits.digits⟩, ?_⟩
    rw [Nat.ofDigitChars_cons]
    exact hdigits.value
  · exact hdigits

/-- **A written key spells that key**, if its slot is in range and it has a name. -/
theorem spells_render {k : FieldKey} : Spells k.render k ↔ k.index ≤ indexLimit ∧ k.name ≠ "" := by
  constructor
  · rintro ⟨digits, -, -, hlimit, hname⟩
    exact ⟨hlimit, hname⟩
  · rintro ⟨hlimit, hname⟩
    refine ⟨_, ?_, isDigits_padded k.index, hlimit, hname⟩
    rw [render, String.toList_ofList, List.cons_append]

/-! ## Reading again -/

/-- **Keys and their tails.** For every text, the tail is the name of the key that the text reads
as, so that there is a tail iff there is a key; there is a key iff the text spells it, with a slot
in range and a name. A key with a slot in range and a name is read back from what is written for
it, and so is every key that was read. -/
theorem readers_agree :
    (∀ key t, tail? key = some t ↔ ∃ k, ofString? key = some k ∧ k.name = t) ∧
    (∀ key, isPositional key = true ↔ ∃ k, ofString? key = some k) ∧
    (∀ key k, ofString? key = some k ↔ Spells key k) ∧
    (∀ k : FieldKey, ofString? k.render = some k ↔ k.index ≤ indexLimit ∧ k.name ≠ "") ∧
    (∀ key k, ofString? key = some k → ofString? k.render = some k) := by
  have hrender : ∀ k : FieldKey,
      ofString? k.render = some k ↔ k.index ≤ indexLimit ∧ k.name ≠ "" := fun k => by
    rw [ofString?_eq_some_iff, spells_render]
  refine ⟨fun key t => ?_, fun _ => isPositional_iff, fun _ _ => ofString?_eq_some_iff, hrender,
    fun key k h => ?_⟩
  · rw [tail?_eq_map, Option.map_eq_some_iff]
  · obtain ⟨digits, -, -, hlimit, hname⟩ := ofString?_eq_some_iff.mp h
    exact (hrender k).mpr ⟨hlimit, hname⟩

/-- A slot with more digits than are written, and a name with a dot. -/
theorem readers_agree_padded :
    ofString? "i0000000012.Flow.Rate" = some ⟨.input, 12, "Flow.Rate"⟩ ∧
      (⟨.input, 12, "Flow.Rate"⟩ : FieldKey).render = "i12.Flow.Rate" ∧
      ofString? "i12.Flow.Rate" = some ⟨.input, 12, "Flow.Rate"⟩ := by
  have hread : ofString? "i0000000012.Flow.Rate" = some ⟨.input, 12, "Flow.Rate"⟩ := by cbv
  have hrender : (⟨.input, 12, "Flow.Rate"⟩ : FieldKey).render = "i12.Flow.Rate" := by cbv
  exact ⟨hread, hrender, hrender ▸ readers_agree.2.2.2.2 _ _ hread⟩

/-- Without a slot in range a text is no key, and has no tail either. -/
example : ofString? "c4294967296.Gain" = none ∧ tail? "c4294967296.Gain" = none := by cbv

end FieldKey

end Netlist
