import Netlist.Proofs.Assembly.Carrying

/-!
# Diagrams of the same shape

Much of a turn changes labels, fields, marks and ends, but neither what an element is
nor what it is in. Two such diagrams have the same shape, and whatever is said about
roles and parents alone holds in both.

- `SameShape`: the same roles, marks aside, and the same parents in all slots.
- `SameShape.inside`, `SameShape.bare`, `SameShape.interfacesProper`: what goes with it.
-/

namespace Netlist.Assembly

open Diagram (proper?_eq_some)

variable {d d₁ d' : Diagram} {a c i j p : Slot} {e e' : Element}

/-- No interface has a super-port directly inside it. -/
def InterfacesProper (d : Diagram) : Prop := ∀ a, isInterface d a = true → AllProper d a

/-- What an element is, its mark aside, and what it is in. -/
def shape (e : Element) : Role × Option Slot := (e.role.unmarked, e.parent)

/-- Diagrams in which every slot holds elements of the same shape, or none. -/
def SameShape (d d' : Diagram) : Prop := ∀ j, (d'.get? j).map shape = (d.get? j).map shape

namespace SameShape

theorem symm (h : SameShape d d') : SameShape d' d := fun j => (h j).symm

theorem trans (h : SameShape d d₁) (h' : SameShape d₁ d') : SameShape d d' :=
  fun j => (h' j).trans (h j)

/-- An element was there before with the same shape. -/
theorem back (h : SameShape d d') (he' : d'.get? j = some e') : ∃ e, d.get? j = some e ∧
    e'.role.unmarked = e.role.unmarked ∧ e'.parent = e.parent := by
  have hj := h j
  rw [he', Option.map_some, eq_comm, Option.map_eq_some_iff] at hj
  obtain ⟨e, he, hshape⟩ := hj
  exact ⟨e, he, (congrArg Prod.fst hshape).symm, (congrArg Prod.snd hshape).symm⟩

/-- The shape of a slot that is changed by a function. -/
theorem of_map {g : Slot → Element → Element} (hg : ∀ j e, shape (g j e) = shape e)
    (h : ∀ j, d'.get? j = (d.get? j).map (g j)) : SameShape d d' := by
  intro j
  rw [h, Option.map_map]
  congr 1
  exact funext fun e => hg j e

theorem hasParent (h : SameShape d d') : d'.HasParent i p ↔ d.HasParent i p := by
  have hback : ∀ {d d' : Diagram}, SameShape d d' → d'.HasParent i p → d.HasParent i p := by
    rintro d d' h ⟨e', he', hp⟩
    obtain ⟨e, he, -, hparent⟩ := h.back he'
    exact ⟨e, he, hparent ▸ hp⟩
  exact ⟨hback h, hback h.symm⟩

theorem inside (h : SameShape d d') : d'.Inside i c ↔ d.Inside i c :=
  ⟨Relation.TransGen.mono (fun _ _ => h.hasParent.mp) i c,
    Relation.TransGen.mono (fun _ _ => h.hasParent.mpr) i c⟩

/-- A test of roles that does not look at marks comes out the same. -/
theorem role (h : SameShape d d') {t : Role → Bool} (ht : ∀ r, t r.unmarked = t r) :
    (∃ e', d'.get? j = some e' ∧ t e'.role = true) ↔ ∃ e, d.get? j = some e ∧ t e.role = true := by
  have hback : ∀ {d d' : Diagram}, SameShape d d' → (∃ e', d'.get? j = some e' ∧ t e'.role = true) →
      ∃ e, d.get? j = some e ∧ t e.role = true := by
    rintro d d' h ⟨e', he', hrole⟩
    obtain ⟨e, he, hunmarked, -⟩ := h.back he'
    exact ⟨e, he, (Role.congr_of_unmarked ht hunmarked).symm.trans hrole⟩
  exact ⟨hback h, hback h.symm⟩

theorem isInterface (h : SameShape d d') : Assembly.isInterface d' a = Assembly.isInterface d a := by
  rw [Bool.eq_iff_iff, Assembly.isInterface, Assembly.isInterface, Option.any_eq_true,
    Option.any_eq_true]
  exact h.role Role.isInterface_unmarked

theorem bare (h : SameShape d d') (hbare : d.BarePorts) : d'.BarePorts := by
  intro i p x' hp hx'
  obtain ⟨x, hx, hunmarked, -⟩ := h.back hx'
  exact (Role.congr_of_unmarked Role.isSuperPort_unmarked hunmarked).trans
    (hbare i p x (h.hasParent.mp hp) hx)

theorem interfacesProper (h : SameShape d d') (hproper : InterfacesProper d) :
    InterfacesProper d' := by
  intro a ha i e' he' hparent'
  obtain ⟨e, he, hunmarked, hparent⟩ := h.back he'
  exact (Role.congr_of_unmarked Role.isSuperPort_unmarked hunmarked).trans
    (hproper a (h.isInterface ▸ ha) i e he (hparent ▸ hparent'))

end SameShape

end Netlist.Assembly
