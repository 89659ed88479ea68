import Netlist.Proofs.Diagram.Endless
import Netlist.Proofs.Edit.Blames
import Netlist.Violation

/-!
# Elements and their places in a document

The elements of a document that was read have places in its text. They keep them while the
diagram is worked on, and new elements have none. So a place that a fault shows is one of
the document.

- `Diagram.Traces`: all elements with a place come from a diagram; `Traces.modify`,
  `Traces.insert`, `Traces.remove`: work that keeps it so.
- `Locator.ComesFrom`, `Fault.ComesFrom`: a place that is shown is that of the element with
  the identity shown beside it.
- `Traces.locator`: **what is shown of a diagram comes from where its elements do.**
- `Traces.blames_fetch`, `Traces.blames_nearestAncestor`, `Traces.blames_validate`: lookups
  and searches.
-/

namespace Netlist

open Netlist.Text (Span)

variable {origin d d' : Diagram} {i : Slot} {e : Element} {l : Locator} {v : Violation}

/-! ## Places that are shown -/

/-- A place that is shown is that of the element with the identity beside it. -/
def Locator.ComesFrom (origin : Diagram) (l : Locator) : Prop :=
  ∀ s, l.span = some s → ∃ i e, origin.get? i = some e ∧ e.id = l.id ∧ e.span = some s

/-- A place that a fault shows is that of the element with the identity beside it. -/
def Fault.ComesFrom (origin : Diagram) (f : Fault) : Prop :=
  ∀ v l, f = .violation v → v.element? = some l → l.ComesFrom origin

theorem Fault.comesFrom_violation (h : ∀ l, v.element? = some l → l.ComesFrom origin) :
    (Fault.violation v).ComesFrom origin := by
  rintro v' l heq hl
  cases heq
  exact h l hl

/-- A violation that points at an element shows its place. -/
theorem Fault.comesFrom_of_element? (hv : v.element? = some l) (hl : l.ComesFrom origin) :
    (Fault.violation v).ComesFrom origin :=
  comesFrom_violation fun _ hl' => Option.some.inj (hv.symm.trans hl') ▸ hl

theorem Fault.comesFrom_absent : (Fault.absent i).ComesFrom origin := by
  intro v l heq
  cases heq

namespace Diagram

/-! ## Elements with places -/

/-- Every element with a place is in the slot that it has in `origin`, with the identity and
the place that it has there. -/
def Traces (origin d : Diagram) : Prop :=
  ∀ i e s, d.get? i = some e → e.span = some s →
    ∃ e₀, origin.get? i = some e₀ ∧ e₀.id = e.id ∧ e₀.span = some s

theorem Traces.refl (d : Diagram) : d.Traces d := fun _ e _ he hs => ⟨e, he, rfl, hs⟩

/-- Work after which every element is an old one or has no place. -/
theorem Traces.of_get? (h : origin.Traces d) (hget : ∀ i e, d'.get? i = some e → e.span = none ∨
    ∃ e₁, d.get? i = some e₁ ∧ e₁.id = e.id ∧ e₁.span = e.span) : origin.Traces d' := by
  intro i e s he hs
  rcases hget i e he with hnone | ⟨e₁, he₁, hid, hspan⟩
  · cases hnone.symm.trans hs
  · obtain ⟨e₀, he₀, hid₀, hs₀⟩ := h i e₁ s he₁ (hspan.trans hs)
    exact ⟨e₀, he₀, hid₀.trans hid, hs₀⟩

theorem Traces.modify {f : Element → Element} (h : origin.Traces d)
    (hf : ∀ e, (f e).id = e.id ∧ (f e).span = e.span) : origin.Traces (d.modify i f) := by
  refine h.of_get? fun j e he => .inr ?_
  rw [get?_modify] at he
  split at he
  · obtain ⟨e₁, he₁, rfl⟩ := Option.map_eq_some_iff.mp he
    exact ⟨e₁, he₁, (hf e₁).1.symm, (hf e₁).2.symm⟩
  · exact ⟨e, he, rfl, rfl⟩

/-- A new element has no place. -/
theorem Traces.insert (h : origin.Traces d) (hspan : e.span = none)
    (hinsert : d.insert e = .ok (i, d')) : origin.Traces d' := by
  refine h.of_get? fun j x hx => ?_
  rw [get?_insert hinsert] at hx
  split at hx
  · cases hx
    exact .inl hspan
  · exact .inr ⟨x, hx, rfl, rfl⟩

theorem Traces.remove (h : origin.Traces d) (i : Slot) : origin.Traces (d.remove i) := by
  by_cases hremovable : (d.removable? i).isSome
  · refine h.of_get? fun j e he => .inr ?_
    rw [get?_remove hremovable] at he
    split at he
    · cases he
    · obtain ⟨e₁, he₁, rfl⟩ := Option.map_eq_some_iff.mp he
      exact ⟨e₁, he₁, rfl, rfl⟩
  · rw [Diagram.remove, Option.not_isSome_iff_eq_none.mp hremovable]
    exact h

/-- Work in many steps. -/
theorem Traces.foldl {α : Type} {f : Diagram → α → Diagram} {as : List α} (h : origin.Traces d)
    (hf : ∀ d a, origin.Traces d → origin.Traces (f d a)) : origin.Traces (as.foldl f d) := by
  induction as generalizing d with
  | nil => exact h
  | cons a as ih => exact ih (hf d a h)

theorem Traces.removeSubtree (h : origin.Traces d) (i : Slot) :
    origin.Traces (d.removeSubtree i).2 := by
  rw [Diagram.removeSubtree]
  split
  · exact h
  · exact h.foldl fun _ j hd => hd.remove j

/-! ## What faults show -/

/-- **What is shown of a diagram comes from where its elements do.** -/
theorem Traces.locator (h : origin.Traces d) (he : d.get? i = some e) :
    e.locator.ComesFrom origin := by
  intro s hs
  obtain ⟨e₀, he₀, hid, hspan⟩ := h i e s he hs
  exact ⟨i, e₀, he₀, hid, hspan⟩

/-- A broken structural rule shows the place of its element. -/
theorem Traces.topology {issue : TopologyIssue} (h : origin.Traces d) (he : d.get? i = some e) :
    (Fault.topology (some e.locator) issue).ComesFrom origin :=
  Fault.comesFrom_of_element? rfl (h.locator he)

theorem blames_fetch : Blames (Fault.ComesFrom origin) (d.fetch i) := by
  rw [fetch]
  split
  · exact blames_ok
  · exact blames_error Fault.comesFrom_absent

/-- A loop is shown by one of its elements. -/
theorem Traces.of_namesLoop {f : Fault} (h : origin.Traces d) (hf : d.NamesLoop f) :
    f.ComesFrom origin := by
  obtain ⟨i, e, he, -, rfl⟩ := hf
  exact Fault.comesFrom_of_element? rfl (h.locator he)

theorem Traces.blames_nearestAncestor {t : Slot → Element → Bool} (h : origin.Traces d) :
    Blames (Fault.ComesFrom origin) (d.nearestAncestor i t) :=
  fun _ hf => h.of_namesLoop (namesLoop_of_nearestAncestor hf)

theorem Traces.blames_validate (h : origin.Traces d) :
    Blames (Fault.ComesFrom origin) d.validate :=
  fun _ hf => h.of_namesLoop (namesLoop_of_validate hf)

end Diagram

end Netlist
