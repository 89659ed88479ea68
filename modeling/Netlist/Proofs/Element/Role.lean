import Mathlib
import Netlist.Element.Role

/-!
# Tests of roles

A role passes one of the tests for nodes, interfaces, network containers and
super-ports at most. What an interface remembers, its record and its mark, is
seen by none of them.

- `isSuperPort_of_isInterface` and its like: tests that exclude or imply each other.
- `record?_setRecord`, `isInterface_setDuplicateOf` and their like: what recording
  and marking do to a role.
- `unmarked`, `mark?`: a role is what it is without its mark, and the mark.
-/

namespace Netlist.Role

variable {r : Role}

/-! ## Tests that go together -/

theorem isInterface_iff : r.isInterface = true ↔ ∃ payload, r = .interface payload := by
  cases r <;> simp [isInterface]

theorem isSuperPort_of_isInterface (h : r.isInterface = true) : r.isSuperPort = false := by
  obtain ⟨payload, rfl⟩ := isInterface_iff.mp h
  rfl

theorem nodeKind?_of_isInterface (h : r.isInterface = true) : r.nodeKind? = none := by
  obtain ⟨payload, rfl⟩ := isInterface_iff.mp h
  rfl

theorem isSubNetwork_of_isInterface (h : r.isInterface = true) : r.isSubNetwork = false := by
  obtain ⟨payload, rfl⟩ := isInterface_iff.mp h
  rfl

theorem isInterface_of_isSuperPort (h : r.isSuperPort = true) : r.isInterface = false := by
  cases hinterface : r.isInterface with
  | false => rfl
  | true =>
    rw [isSuperPort_of_isInterface hinterface] at h
    cases h

theorem nodeKind?_of_isSuperPort (h : r.isSuperPort = true) : r.nodeKind? = none := by
  cases r <;> first | rfl | cases h

theorem nodeKind?_of_isLink (h : r.isLink = true) : r.nodeKind? = none := by
  cases r <;> first | rfl | cases h

theorem isSuperPort_of_nodeKind? (h : r.nodeKind?.isSome = true) : r.isSuperPort = false := by
  cases hport : r.isSuperPort with
  | false => rfl
  | true =>
    rw [nodeKind?_of_isSuperPort hport] at h
    cases h

theorem isNetwork_of_isSubNetwork (h : r.isSubNetwork = true) : r.isNetwork = true := by
  cases r <;> first | rfl | cases h

theorem isNetwork_of_isSuperNetwork (h : r.isSuperNetwork = true) : r.isNetwork = true := by
  cases r <;> first | rfl | cases h

theorem isNetwork_iff : r.isNetwork = true ↔ r.isSubNetwork = true ∨ r.isSuperNetwork = true := by
  cases r with
  | network kind => cases kind <;> simp [isNetwork, isSubNetwork, isSuperNetwork]
  | _ => simp [isNetwork, isSubNetwork, isSuperNetwork]

theorem isSuperPort_of_isNetwork (h : r.isNetwork = true) : r.isSuperPort = false := by
  cases r <;> first | rfl | cases h

theorem isInterface_of_isNetwork (h : r.isNetwork = true) : r.isInterface = false := by
  cases r <;> first | rfl | cases h

/-! ## Recording -/

theorem isInterface_setRecord (record : InterfaceRecord) (r : Role) :
    (r.setRecord record).isInterface = r.isInterface := by
  cases r <;> rfl

theorem isSubNetwork_setRecord (record : InterfaceRecord) (r : Role) :
    (r.setRecord record).isSubNetwork = r.isSubNetwork := by
  cases r <;> rfl

/-- An interface has the record that it was given. -/
theorem record?_setRecord (record : InterfaceRecord) (h : r.isInterface = true) :
    (r.setRecord record).record? = some record := by
  obtain ⟨payload, rfl⟩ := isInterface_iff.mp h
  rfl

/-! ## Marking -/

theorem isInterface_setDuplicateOf (first : Slot) (r : Role) :
    (r.setDuplicateOf first).isInterface = r.isInterface := by
  cases r <;> rfl

theorem isSubNetwork_setDuplicateOf (first : Slot) (r : Role) :
    (r.setDuplicateOf first).isSubNetwork = r.isSubNetwork := by
  cases r <;> rfl

theorem nodeKind?_setDuplicateOf (first : Slot) (r : Role) :
    (r.setDuplicateOf first).nodeKind? = r.nodeKind? := by
  cases r <;> rfl

/-- A mark does not touch the record. -/
theorem record?_setDuplicateOf (first : Slot) (r : Role) :
    (r.setDuplicateOf first).record? = r.record? := by
  cases r <;> rfl

theorem setDuplicateOf_setDuplicateOf (a b : Slot) (r : Role) :
    (r.setDuplicateOf a).setDuplicateOf b = r.setDuplicateOf b := by
  cases r <;> rfl

/-! ## Roles without marks -/

/-- The role without the mark of a duplicate. -/
def unmarked : Role → Role
  | .interface payload => .interface { payload with duplicateOf := none }
  | role => role

/-- The interface that a duplicate is marked with. -/
def mark? : Role → Option Slot
  | .interface payload => payload.duplicateOf
  | _ => none

@[simp] theorem isInterface_unmarked (r : Role) : r.unmarked.isInterface = r.isInterface := by
  cases r <;> rfl

@[simp] theorem isNetwork_unmarked (r : Role) : r.unmarked.isNetwork = r.isNetwork := by
  cases r <;> rfl

@[simp] theorem isSubNetwork_unmarked (r : Role) : r.unmarked.isSubNetwork = r.isSubNetwork := by
  cases r <;> rfl

@[simp] theorem isSuperPort_unmarked (r : Role) : r.unmarked.isSuperPort = r.isSuperPort := by
  cases r <;> rfl

@[simp] theorem nodeKind?_unmarked (r : Role) : r.unmarked.nodeKind? = r.nodeKind? := by
  cases r <;> rfl

@[simp] theorem record?_unmarked (r : Role) : r.unmarked.record? = r.record? := by
  cases r <;> rfl

@[simp] theorem unmarked_setDuplicateOf (first : Slot) (r : Role) :
    (r.setDuplicateOf first).unmarked = r.unmarked := by
  cases r <;> rfl

theorem mark?_setDuplicateOf (first : Slot) (h : r.isInterface = true) :
    (r.setDuplicateOf first).mark? = some first := by
  obtain ⟨payload, rfl⟩ := isInterface_iff.mp h
  rfl

theorem unmarked_eq_connector : r.unmarked = .connector ↔ r = .connector := by
  cases r <;> simp [unmarked]

/-- A test that does not look at marks comes out the same for roles that differ in marks. -/
theorem congr_of_unmarked {r' : Role} {β : Type} {t : Role → β} (ht : ∀ r, t r.unmarked = t r)
    (h : r'.unmarked = r.unmarked) : t r' = t r := by
  rw [← ht r', h, ht]

/-- Only interfaces can be marked. -/
theorem unmarked_of_not_interface (h : r.isInterface = false) : r.unmarked = r := by
  cases r <;> first | rfl | cases h

theorem eq_of_unmarked {r' : Role} (h : r'.unmarked = r.unmarked) (hr : r.isInterface = false) :
    r' = r := by
  have hr' : r'.isInterface = false := (congr_of_unmarked isInterface_unmarked h).trans hr
  rw [← unmarked_of_not_interface hr', h, unmarked_of_not_interface hr]

/-- A role is what it is without its mark, and the mark. -/
theorem ext_mark {r' : Role} (h : r'.unmarked = r.unmarked) (hmark : r'.mark? = r.mark?) :
    r' = r := by
  cases r <;> cases r' <;> simp_all [unmarked, mark?]
  rename_i payload payload'
  obtain ⟨record, first⟩ := payload
  obtain ⟨record', first'⟩ := payload'
  simp_all

end Netlist.Role
