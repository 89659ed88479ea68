import Netlist.Proofs.Diagram.Subtree
import Netlist.Proofs.Document.Pristine

/-!
# Parents stay issued

Slots are issued for good, so a parent that was issued stays so whatever is removed.

- `hasParent_removeSubtree`: removals give nothing a new parent.
- `Issued.insert`, `Issued.modify`, `Issued.of_hasParent`: what keeps parents issued.
- `isLive_root_removeSubtree`: **no removal takes the root out.**
-/

namespace Netlist.Diagram

variable {d d' : Diagram} {i j p : Slot} {e : Element} {f : Element → Element}

/-! ## Removals -/

theorem hasParent_remove (h : (d.remove i).HasParent j p) : d.HasParent j p := by
  cases hi : d.removable? i with
  | none =>
    rw [remove, hi] at h
    exact h
  | some x =>
    obtain ⟨e, he, hp⟩ := h
    rw [get?_remove (by rw [hi]; rfl)] at he
    split at he
    · cases he
    · obtain ⟨e', he', rfl⟩ := Option.map_eq_some_iff.mp he
      exact ⟨e', he', hp⟩

theorem hasParent_foldl_remove {slots : List Slot} (h : (slots.foldl remove d).HasParent j p) :
    d.HasParent j p := by
  induction slots generalizing d with
  | nil => exact h
  | cons i slots ih => exact hasParent_remove (ih h)

/-- Removals give nothing a new parent. -/
theorem hasParent_removeSubtree (h : (d.removeSubtree i).2.HasParent j p) : d.HasParent j p := by
  rw [removeSubtree] at h
  split at h
  · exact h
  · exact hasParent_foldl_remove h

theorem isLive_root_remove (h : d.isLive root = true) : (d.remove i).isLive root = true := by
  cases hi : d.removable? i with
  | none =>
    rw [remove, hi]
    exact h
  | some e =>
    have hne : root ≠ i := by
      rintro rfl
      rw [removable?, if_pos rfl] at hi
      cases hi
    rw [isLive, get?_remove (by rw [hi]; rfl), if_neg hne, Option.isSome_map]
    exact h

theorem isLive_root_foldl_remove {slots : List Slot} (h : d.isLive root = true) :
    (slots.foldl remove d).isLive root = true := by
  induction slots generalizing d with
  | nil => exact h
  | cons i slots ih => exact ih (isLive_root_remove h)

/-- **No removal takes the root out.** -/
theorem isLive_root_removeSubtree (h : d.isLive root = true) :
    (d.removeSubtree i).2.isLive root = true := by
  rw [removeSubtree]
  split
  · exact h
  · exact isLive_root_foldl_remove h

@[simp] theorem isLive_modify : (d.modify i f).isLive j = d.isLive j := by
  rw [isLive, get?_modify, isLive]
  split
  · rw [Option.isSome_map]
  · rfl

/-! ## Parents -/

/-- Parents are issued as long as no element gets a new one. -/
theorem Issued.of_hasParent (h : d.Issued) (hbound : d.bound ≤ d'.bound)
    (hparent : ∀ j p, d'.HasParent j p → d.HasParent j p) : d'.Issued :=
  fun j p hp => Nat.lt_of_lt_of_le (h j p (hparent j p hp)) hbound

theorem Issued.modify (h : d.Issued)
    (hparent : ∀ e p, d.get? i = some e → (f e).parent = some p → p < d.bound) :
    (d.modify i f).Issued := by
  intro j p hp
  rw [bound_modify]
  rcases hasParent_modify hp with ⟨-, e, he, hp⟩ | hp
  · exact hparent e p he hp
  · exact h j p hp

/-- A new element goes under the root or an issued parent. -/
theorem Issued.insert (h : d.Issued) (hparent : ∀ p ∈ e.parent, p < d.bound)
    (hinsert : d.insert e = .ok (i, d')) : d'.Issued := by
  obtain ⟨-, hbound'⟩ := slot_insert hinsert
  rw [Issued, hbound']
  rintro j p ⟨x, hx, hp⟩
  rw [get?_insert hinsert] at hx
  split at hx
  · cases hx
    have hp : e.parent.getD root = p := Option.some.inj hp
    cases hparent' : e.parent with
    | none =>
      rw [hparent', Option.getD_none] at hp
      rw [← hp]
      exact Nat.succ_pos _
    | some q =>
      rw [hparent', Option.getD_some] at hp
      rw [← hp]
      exact Nat.lt_succ_of_lt (hparent q hparent')
  · exact Nat.lt_succ_of_lt (h j p ⟨x, hx, hp⟩)

end Netlist.Diagram
