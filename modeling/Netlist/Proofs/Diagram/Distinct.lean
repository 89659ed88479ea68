import Netlist.Proofs.Document.Pristine
import Netlist.Proofs.Identity

/-!
# Identities tell elements apart

No two elements of a diagram have the same identity: a new element is only put in if its
identity is free, and no other change to a diagram touches identities.

- `Diagram.Distinct`: this, which can be checked.
- `Diagram.KeepsIds`: what a change does that puts nothing in.
- `Distinct.insert`, `Distinct.of_ids`: what keeps identities apart.
- `Document.read_distinct`: **whatever is read from a document has it.**
-/

namespace Netlist

namespace Diagram

variable {d d₁ d' : Diagram} {i : Slot} {e : Element}

/-- No two elements have the same identity. -/
def Distinct (d : Diagram) : Prop :=
  ∀ i j e e', d.get? i = some e → d.get? j = some e' → e.id = e'.id → i = j

theorem distinct_iff : d.Distinct ↔ ∀ i < d.bound, ∀ e ∈ d.get? i, ∀ j < d.bound, ∀ e' ∈ d.get? j,
    e.id = e'.id → i = j := by
  constructor
  · exact fun h i _ e he j _ e' he' hid => h i j e e' he he' hid
  · exact fun h i j e e' he he' hid => h i (lt_bound_of_get? he) e he j (lt_bound_of_get? he') e' he' hid

instance (d : Diagram) : Decidable d.Distinct := decidable_of_iff' _ distinct_iff

/-- Every element that is left was there before, with its identity. -/
def KeepsIds (d d' : Diagram) : Prop :=
  ∀ j e', d'.get? j = some e' → ∃ e, d.get? j = some e ∧ e.id = e'.id

theorem KeepsIds.refl (d : Diagram) : KeepsIds d d := fun _ e' he' => ⟨e', he', rfl⟩

theorem KeepsIds.trans (h : KeepsIds d d₁) (h' : KeepsIds d₁ d') : KeepsIds d d' := by
  intro j e' he'
  obtain ⟨e₁, he₁, hid₁⟩ := h' j e' he'
  obtain ⟨e, he, hid⟩ := h j e₁ he₁
  exact ⟨e, he, hid.trans hid₁⟩

theorem KeepsIds.taken {id : String} (h : KeepsIds d d') (htaken : d'.Taken id) : d.Taken id := by
  obtain ⟨j, e', he', rfl⟩ := htaken
  obtain ⟨e, he, hid⟩ := h j e' he'
  exact ⟨j, e, he, hid⟩

theorem keepsIds_modify {f : Element → Element} (d : Diagram) (i : Slot) (hf : ∀ e, (f e).id = e.id) :
    KeepsIds d (d.modify i f) := by
  intro j e' he'
  rw [get?_modify] at he'
  split at he'
  · obtain ⟨e, he, rfl⟩ := Option.map_eq_some_iff.mp he'
    exact ⟨e, he, (hf e).symm⟩
  · exact ⟨e', he', rfl⟩

theorem keepsIds_remove (d : Diagram) (i : Slot) : KeepsIds d (d.remove i) := by
  cases hremovable : d.removable? i with
  | none =>
    rw [remove, hremovable]
    exact .refl d
  | some x =>
    intro j e' he'
    rw [get?_remove (by rw [hremovable]; rfl)] at he'
    split at he'
    · cases he'
    · obtain ⟨e, he, rfl⟩ := Option.map_eq_some_iff.mp he'
      exact ⟨e, he, (Element.id_detachAll [i] e).symm⟩

theorem keepsIds_foldl {β : Type} {step : Diagram → β → Diagram} (hstep : ∀ d b, KeepsIds d (step d b))
    (bs : List β) (d : Diagram) : KeepsIds d (bs.foldl step d) := by
  induction bs generalizing d with
  | nil => exact .refl d
  | cons b bs ih => exact (hstep d b).trans (ih (step d b))

/-- A diagram with no identities but those that were there keeps them apart. -/
theorem Distinct.of_ids (h : d.Distinct) (hids : KeepsIds d d') : d'.Distinct := by
  intro i j e' f' he' hf' hid
  obtain ⟨e, he, hide⟩ := hids i e' he'
  obtain ⟨f, hf, hidf⟩ := hids j f' hf'
  exact h i j e f he hf (by rw [hide, hidf, hid])

/-- A new element has an identity of its own. -/
theorem Distinct.insert (h : d.Distinct) (hinsert : d.insert e = .ok (i, d')) : d'.Distinct := by
  have hfree := find?_of_insert hinsert
  rw [find?_eq_none_iff] at hfree
  intro j k a b ha hb hid
  rw [get?_insert hinsert] at ha hb
  split at ha <;> split at hb
  · rename_i hj hk
    rw [hj, hk]
  · cases ha
    exact absurd ⟨k, b, hb, hid.symm⟩ hfree
  · cases hb
    exact absurd ⟨j, a, ha, hid⟩ hfree
  · exact h j k a b ha hb hid

theorem Distinct.modify {f : Element → Element} (h : d.Distinct) (hf : ∀ e, (f e).id = e.id) :
    (d.modify i f).Distinct := h.of_ids (keepsIds_modify d i hf)

end Diagram

namespace Document

variable {d d' : Diagram}

theorem place_distinct {cells : List Cell} {placed : List (Slot × Cell)} (hd : d.Distinct)
    (h : place cells d = .ok (placed, d')) : d'.Distinct := by
  induction cells generalizing d placed with
  | nil =>
    cases h
    exact hd
  | cons c cells ih =>
    rw [place] at h
    split at h
    · cases h
    rename_i i d₁ hinsert
    rw [bind_eq_ok] at h
    obtain ⟨⟨later, d₂⟩, hlater, h⟩ := h
    cases h
    exact ih (hd.insert hinsert) hlater

theorem link_distinct {placed : List (Slot × Cell)} (hd : d.Distinct)
    (h : link placed d = .ok d') : d'.Distinct := by
  induction placed generalizing d with
  | nil =>
    cases h
    exact hd
  | cons head placed ih =>
    obtain ⟨i, c⟩ := head
    rw [link, bind_eq_ok] at h
    obtain ⟨parent, -, h⟩ := h
    rw [bind_eq_ok] at h
    obtain ⟨source, -, h⟩ := h
    rw [bind_eq_ok] at h
    obtain ⟨target, -, h⟩ := h
    refine ih ?_ h
    exact hd.modify fun _ => rfl

/-- **No two elements that are read from a document have the same identity.** -/
theorem read_distinct {source : String} (h : read source = .ok d) : d.Distinct := by
  obtain ⟨cells, placed, d₁, -, hplace, hlink⟩ := read_eq_ok h
  exact link_distinct (place_distinct (by decide) hplace) hlink

end Document

end Netlist
