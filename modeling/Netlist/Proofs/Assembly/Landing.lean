import Netlist.Proofs.Assembly.Numbers

/-!
# Where moved numbers land

The fields of an instance say where its block of numbers starts, and its content is moved
there in words. So a number lands at its place in the block exactly if a word can hold the
number it has there, and a place can be read back exactly if it fits a word with a sign.

- `Lands`: a number that was moved, and when it has its place in the new block.
- `MovedBy.lands`, `Mirrors.lands`: **so it is for content that is kept and for copies.**
- `ReadsBack`, `Written.readsBack`: **when the place of an instance can be read back.**
-/

namespace Netlist.Assembly

variable {copies : List (Slot × Slot)} {s : Slot} {offset nodeCount : Nat} {start : Int}
  {e e' drawn : Element}

/-! ## Numbers -/

/-- A number of a block that starts at `start`, moved to the block at `offset`. It has its
old place in the new block iff a word can hold it there. -/
def Lands (offset : Nat) (start : Int) (e e' : Element) : Prop :=
  ∀ n, e.nodeKind?.isSome = true → e.isGround = false → e.labelNumber? = some n →
    ∃ n', e'.labelNumber? = some n' ∧
      (n' - offset = n - start ↔ Text.Fits (n + (offset - start)))

theorem lands_of_signed (h : ∀ n, e.nodeKind?.isSome = true → e.isGround = false →
    e.labelNumber? = some n → e'.labelNumber? = some (Word.signed (n + (offset - start)))) :
    Lands offset start e e' := by
  intro n hkind hground hn
  refine ⟨_, h n hkind hground hn, ?_⟩
  rw [← Word.signed_eq_iff]
  omega

/-- **Content that is kept lands.** -/
theorem MovedBy.lands (h : MovedBy (displacement offset start) e e') : Lands offset start e e' :=
  lands_of_signed fun n hkind hground hn => by
    rw [h.number hkind hground hn, displacement_eq, Word.signed_add_signed]

/-- **Copies land**: the block of a drawing starts at zero. -/
theorem Mirrors.lands (h : Mirrors copies s offset drawn e) : Lands offset 0 drawn e :=
  lands_of_signed fun n hkind hground hn => by
    have hlabel := h.label
    rw [label_shift hkind hground hn, Word.signed_add_signed] at hlabel
    rw [Element.labelNumber?_toString_int hlabel (Word.fits_signed _), Int.sub_zero]

/-! ## Fields -/

/-- The place of an instance can be read back from its fields, as far as it fits. -/
structure ReadsBack (e : Element) (offset nodeCount : Nat) : Prop where
  offset : integerField e offsetField = .ok (some (offset : Int)) ↔ offset ≤ Text.integerLimit
  nodeCount : recordedCount e = .ok (some nodeCount) ↔ nodeCount ≤ Text.integerLimit

/-- What a field reads as fits. -/
theorem fits_of_integerField {key : String} {n : Int} (h : integerField e key = .ok (some n)) :
    Text.Fits n := by
  rw [integerField] at h
  split at h
  · cases h
  · split at h
    · rename_i hread
      cases h
      exact Text.fits_of_readSigned hread
    · cases h

/-- **When the place of an instance can be read back.** -/
theorem Written.readsBack (h : Written e offset nodeCount) : ReadsBack e offset nodeCount where
  offset := ⟨fun hread => Int.ofNat_le.mp (fits_of_integerField hread).2,
    integerField_toString h.offset⟩
  nodeCount := by
    refine ⟨fun hread => ?_, fun hfits => ?_⟩
    · rw [recordedCount, bind_eq_ok] at hread
      obtain ⟨n, hn, hread⟩ := hread
      split at hread
      · cases hread
      · cases hread
        exact Int.ofNat_le.mp (fits_of_integerField hn).2
      · cases hread
    · rw [recordedCount, integerField_toString h.nodeCount hfits]
      rfl

end Netlist.Assembly
