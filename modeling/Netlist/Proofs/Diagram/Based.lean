import Netlist.Proofs.Diagram.Issued
import Netlist.Proofs.Document.Reading

/-!
# Diagrams that are worked on

A diagram that was read from a document has a root that is in nothing, and all parents in
it were issued. Most work keeps it so because it gives no element a new parent; and new
elements are put under slots that were issued.

- `Based`: what is kept. `based_of_read`: **whatever is read from a document has it.**
- `NoNewParents`: work that gives no element a new parent. `NoNewParents.based`: **it keeps
  diagrams based.**
- `Based.insert`: new elements.
-/

namespace Netlist

namespace Diagram

variable {d d₁ d' : Diagram} {i : Slot} {e : Element} {f : Element → Element}

/-- The root was issued and has no parent, and every parent was issued. -/
structure Based (d : Diagram) : Prop where
  bound : root < d.bound
  rooted : d.Rooted
  issued : d.Issued

/-- A new element goes under the root or an issued parent. -/
theorem Based.insert (h : d.Based) (hparent : ∀ p ∈ e.parent, p < d.bound)
    (hinsert : d.insert e = .ok (i, d')) : d'.Based where
  bound := by
    rw [(slot_insert hinsert).2]
    exact Nat.lt_succ_of_lt h.bound
  rooted := by
    rintro p ⟨x, hx, hp⟩
    rw [get?_insert hinsert, if_neg] at hx
    · exact h.rooted p ⟨x, hx, hp⟩
    · rw [(slot_insert hinsert).1]
      exact Nat.ne_of_lt h.bound
  issued := h.issued.insert hparent hinsert

/-! ## Work that gives no element a new parent -/

/-- No slot is lost, and no element gets a new parent. -/
structure NoNewParents (d d' : Diagram) : Prop where
  bound : d.bound ≤ d'.bound
  parents : ∀ j p, d'.HasParent j p → d.HasParent j p

theorem NoNewParents.refl (d : Diagram) : NoNewParents d d := ⟨Nat.le_refl _, fun _ _ hp => hp⟩

theorem NoNewParents.trans (d d₁ d' : Diagram) (h : NoNewParents d d₁) (h' : NoNewParents d₁ d') :
    NoNewParents d d' :=
  ⟨Nat.le_trans h.bound h'.bound, fun j p hp => h.parents j p (h'.parents j p hp)⟩

theorem NoNewParents.based (h : NoNewParents d d') (hd : d.Based) : d'.Based :=
  ⟨Nat.lt_of_lt_of_le hd.bound h.bound, fun p hp => hd.rooted p (h.parents root p hp),
    hd.issued.of_hasParent h.bound h.parents⟩

theorem noNewParents_modify (hf : ∀ e, (f e).parent = e.parent) : NoNewParents d (d.modify i f) := by
  refine ⟨Nat.le_of_eq (bound_modify d i f).symm, fun j p hp => ?_⟩
  rcases hasParent_modify hp with ⟨rfl, e, he, hp⟩ | hp
  · exact ⟨e, he, hf e ▸ hp⟩
  · exact hp

theorem noNewParents_foldl_remove {slots : List Slot} :
    NoNewParents d (slots.foldl remove d) :=
  ⟨Nat.le_of_eq (bound_foldl_remove d slots).symm, fun _ _ => hasParent_foldl_remove⟩

end Diagram

/-- **Whatever is read from a document is based.** -/
theorem Document.based_of_read {d : Diagram} {source : String} (h : Document.read source = .ok d) :
    d.Based := by
  have hpristine := Document.read_pristine h
  refine ⟨?_, hpristine.rooted, hpristine.issued⟩
  rw [Document.read] at h
  split at h
  · rw [Document.ofTree, bind_eq_ok] at h
    obtain ⟨root, -, h⟩ := h
    rw [(Document.drawn_of_ofCells h).bound]
    exact Nat.succ_pos _
  · cases h

end Netlist
