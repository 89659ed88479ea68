import Netlist.Word
import Netlist.Proofs.Text.Decimal

/-!
# Sums in machine words

Wrapping around at every step of a sum comes to wrapping around once at its end. So a sum
is exact if it fits a word itself, whatever the steps on the way were.

- `count_count_add`, `signed_add_signed`, `signed_sub_signed`: only the last step wraps.
- `count_of_lt`, `signed_eq_iff`: **what fits a word is kept as it is**, and nothing else is.
- `eq_count_of_signed`: a word with a sign that is not negative is the same word without one.
-/

namespace Netlist.Word

open Netlist.Text (Fits)

variable {n : Int}

/-! ## Counts -/

theorem count_lt (n : Nat) : count n < UInt64.size := Nat.mod_lt n (by decide)

theorem count_of_lt {n : Nat} (h : n < UInt64.size) : count n = n := Nat.mod_eq_of_lt h

@[simp] theorem count_count_add (m n : Nat) : count (count m + n) = count (m + n) :=
  Nat.mod_add_mod m UInt64.size n

@[simp] theorem signed_add_signed (m n : Int) : signed (m + signed n) = signed (m + n) := by
  rw [signed, signed, signed]
  exact Int.add_bmod_bmod

@[simp] theorem signed_sub_signed (m n : Int) : signed (signed m - n) = signed (m - n) := by
  rw [signed, signed, signed]
  exact Int.bmod_sub_bmod

theorem fits_iff : Fits n ↔ -9223372036854775808 ≤ n ∧ n ≤ 9223372036854775807 := Iff.rfl

/-- A word with a sign holds an integer in the range of labels. -/
theorem fits_signed (n : Int) : Fits (signed n) := by
  rw [fits_iff, signed, UInt64.size, Int.bmod_def]
  split <;> omega

/-- **What fits a word is kept as it is, and nothing else is.** -/
theorem signed_eq_iff : signed n = n ↔ Fits n := by
  rw [fits_iff, signed, UInt64.size, Int.bmod_def]
  split <;> omega

theorem signed_of_fits (h : Fits n) : signed n = n := signed_eq_iff.mpr h

/-- A count that is read as a word with a sign and is not negative has not changed. -/
theorem eq_count_of_signed {k n : Nat} (h : signed n = k) : k = count n := by
  rw [signed, UInt64.size, Int.bmod_def] at h
  rw [count, UInt64.size]
  split at h <;> omega

end Netlist.Word
