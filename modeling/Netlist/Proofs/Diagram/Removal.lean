import Mathlib
import Netlist.Diagram

/-!
# Removing several elements

A removal empties one slot and takes the ends at it off all other elements. So
after a run of removals the slots that were removed are empty, and every other
element is as before, except that its ends at removed slots are gone.

- `Element.detachAll`: an element without its ends at some slots.
- `Diagram.get?_foldl_remove`: the slots after a run of removals.
- `Element.core`, `Diagram.core?`: an element without its ends, which is what
  removals of other elements leave of it.
- `Diagram.endAt_foldl_remove`: **which ends are left after a run of removals.**
- `Diagram.ext_get?`: a diagram is told by its slots.
-/

namespace Netlist

namespace Element

/-- The element with no end at any of some slots. -/
def detachAll (slots : List Slot) (e : Element) : Element := slots.foldl (fun e i => e.detach i) e

@[simp] theorem detachAll_nil (e : Element) : e.detachAll [] = e := rfl

@[simp] theorem detachAll_cons (i : Slot) (slots : List Slot) (e : Element) :
    e.detachAll (i :: slots) = (e.detach i).detachAll slots := rfl

/-- The element without its ends. -/
def core (e : Element) : Element := { e with source := none, target := none }

/-- Detaching changes nothing but ends. -/
@[simp] theorem core_detachAll (slots : List Slot) (e : Element) :
    (e.detachAll slots).core = e.core := by
  induction slots generalizing e with
  | nil => rfl
  | cons i slots ih => exact ih (e.detach i)

@[simp] theorem id_detachAll (slots : List Slot) (e : Element) : (e.detachAll slots).id = e.id := by
  show (e.detachAll slots).core.id = e.core.id
  rw [core_detachAll]

@[simp] theorem role_detachAll (slots : List Slot) (e : Element) :
    (e.detachAll slots).role = e.role := by
  show (e.detachAll slots).core.role = e.core.role
  rw [core_detachAll]

@[simp] theorem label_detachAll (slots : List Slot) (e : Element) :
    (e.detachAll slots).label = e.label := by
  show (e.detachAll slots).core.label = e.core.label
  rw [core_detachAll]

@[simp] theorem parent_detachAll (slots : List Slot) (e : Element) :
    (e.detachAll slots).parent = e.parent := by
  show (e.detachAll slots).core.parent = e.core.parent
  rw [core_detachAll]

@[simp] theorem fields_detachAll (slots : List Slot) (e : Element) :
    (e.detachAll slots).fields = e.fields := by
  show (e.detachAll slots).core.fields = e.core.fields
  rw [core_detachAll]

@[simp] theorem span_detachAll (slots : List Slot) (e : Element) :
    (e.detachAll slots).span = e.span := by
  show (e.detachAll slots).core.span = e.core.span
  rw [core_detachAll]

/-- An element that has no end at any of the slots stays as it is. -/
theorem detachAll_of_not_touches {slots : List Slot} {e : Element}
    (h : ∀ i ∈ slots, e.touches i = false) : e.detachAll slots = e := by
  induction slots with
  | nil => rfl
  | cons i slots ih =>
    rw [detachAll_cons, detach_of_not_touches (h i List.mem_cons_self)]
    exact ih fun j hj => h j (List.mem_cons_of_mem i hj)

/-- One of the two ends of an element. -/
def endAt (isSource : Bool) (e : Element) : Option Slot := if isSource then e.source else e.target

/-- Detaching clears the ends at the slots, and no other ones. -/
theorem endAt_detachAll (slots : List Slot) (e : Element) (isSource : Bool) (a : Slot) :
    (e.detachAll slots).endAt isSource = some a ↔ e.endAt isSource = some a ∧ a ∉ slots := by
  induction slots generalizing e with
  | nil => simp
  | cons i slots ih =>
    have hone : (e.detach i).endAt isSource = some a ↔ e.endAt isSource = some a ∧ a ≠ i := by
      cases isSource
      · show e.target.filter (· != i) = some a ↔ _
        rw [Option.filter_eq_some_iff, bne_iff_ne]
        rfl
      · show e.source.filter (· != i) = some a ↔ _
        rw [Option.filter_eq_some_iff, bne_iff_ne]
        rfl
    rw [detachAll_cons, ih, hone, List.mem_cons, not_or, and_assoc]

end Element

namespace Diagram

/-- The element in a slot without its ends. -/
def core? (d : Diagram) (i : Slot) : Option Element := (d.get? i).map Element.core

theorem core?_eq_some {d : Diagram} {i : Slot} {x : Element} :
    d.core? i = some x ↔ ∃ e, d.get? i = some e ∧ e.core = x := Option.map_eq_some_iff

theorem core?_of_get? {d : Diagram} {i : Slot} {e : Element} (h : d.get? i = some e) :
    d.core? i = some e.core := by
  rw [core?, h, Option.map_some]

theorem core?_eq_none {d : Diagram} {i : Slot} : d.core? i = none ↔ d.get? i = none :=
  Option.map_eq_none_iff

theorem removable?_eq (d : Diagram) {i : Slot} (hi : i ≠ root) : d.removable? i = d.get? i := by
  rw [removable?, if_neg hi]

@[simp] theorem remove_root (d : Diagram) : d.remove root = d := rfl

/-- Removals of the root do nothing. -/
theorem foldl_remove_filter (d : Diagram) (slots : List Slot) :
    (slots.filter (· != root)).foldl remove d = slots.foldl remove d := by
  induction slots generalizing d with
  | nil => rfl
  | cons i slots ih =>
    by_cases hi : i = root
    · subst hi
      rw [List.filter_cons_of_neg (by simp), List.foldl_cons, remove_root]
      exact ih d
    · rw [List.filter_cons_of_pos (by simpa using hi)]
      exact ih (d.remove i)

/-- **The slots after a run of removals**: those that were removed are empty, and
the others have lost their ends there. -/
theorem get?_foldl_remove {d : Diagram} {slots : List Slot} (hnodup : slots.Nodup)
    (hlive : ∀ i ∈ slots, i ≠ root ∧ (d.get? i).isSome = true) (j : Slot) :
    (slots.foldl remove d).get? j =
      if j ∈ slots then none else (d.get? j).map (Element.detachAll slots) := by
  induction slots generalizing d with
  | nil =>
    have hid : Element.detachAll [] = id := funext Element.detachAll_nil
    simp [hid]
  | cons i slots ih =>
    obtain ⟨hroot, hget⟩ := hlive i List.mem_cons_self
    obtain ⟨hi, hslots⟩ := List.nodup_cons.mp hnodup
    have hremove : ∀ j, (d.remove i).get? j =
        if j = i then none else (d.get? j).map (Element.detach i) :=
      get?_remove (by rw [removable?_eq d hroot]; exact hget)
    have hlive' : ∀ k ∈ slots, k ≠ root ∧ ((d.remove i).get? k).isSome = true := by
      intro k hk
      obtain ⟨hkroot, hkget⟩ := hlive k (List.mem_cons_of_mem i hk)
      refine ⟨hkroot, ?_⟩
      rw [hremove, if_neg (ne_of_mem_of_not_mem hk hi), Option.isSome_map]
      exact hkget
    rw [List.foldl_cons, ih hslots hlive', hremove]
    by_cases hji : j = i
    · subst hji
      rw [if_neg hi, if_pos rfl, if_pos List.mem_cons_self]
      rfl
    · by_cases hj : j ∈ slots
      · rw [if_pos hj, if_pos (List.mem_cons_of_mem i hj)]
      · rw [if_neg hj, if_neg hji, if_neg (by simp [hji, hj]), Option.map_map]
        rfl

/-- Without ends, a run of removals changes nothing but the slots it empties. -/
theorem core?_foldl_remove {d : Diagram} {slots : List Slot} (hnodup : slots.Nodup)
    (hlive : ∀ i ∈ slots, i ≠ root ∧ (d.get? i).isSome = true) (j : Slot) :
    (slots.foldl remove d).core? j = if j ∈ slots then none else d.core? j := by
  rw [core?, get?_foldl_remove hnodup hlive]
  split
  · rfl
  · rw [core?, Option.map_map]
    congr 1
    exact funext fun e => Element.core_detachAll slots e

/-- A removal empties its slot or nothing, but for ends. -/
theorem core?_remove_cases (d : Diagram) (i j : Slot) :
    (d.remove i).core? j = d.core? j ∨ j = i ∧ (d.remove i).core? j = none := by
  cases hremovable : d.removable? i with
  | none => exact .inl (by rw [remove, hremovable])
  | some x =>
    have hget := get?_remove (d := d) (i := i) (by rw [hremovable]; rfl) j
    by_cases hj : j = i
    · exact .inr ⟨hj, by rw [core?, hget, if_pos hj, Option.map_none]⟩
    · refine .inl ?_
      rw [core?, hget, if_neg hj, Option.map_map]
      rfl

/-- A run of removals empties none but listed slots. -/
theorem core?_foldl_remove_cases (slots : List Slot) (d : Diagram) (j : Slot) :
    (slots.foldl remove d).core? j = d.core? j ∨
      j ∈ slots ∧ (slots.foldl remove d).core? j = none := by
  induction slots generalizing d with
  | nil => exact .inl rfl
  | cons i slots ih =>
    rw [List.foldl_cons]
    rcases ih (d.remove i) with hsame | ⟨hmem, hnone⟩
    · rw [hsame]
      rcases core?_remove_cases d i j with hsame | ⟨rfl, hnone⟩
      · exact .inl hsame
      · exact .inr ⟨List.mem_cons_self, hnone⟩
    · exact .inr ⟨List.mem_cons_of_mem i hmem, hnone⟩

/-- What is left after a run of removals is as it was, but for ends. -/
theorem core?_of_foldl_remove {d : Diagram} {slots : List Slot} {j : Slot} {x : Element}
    (h : (slots.foldl remove d).core? j = some x) : d.core? j = some x := by
  rcases core?_foldl_remove_cases slots d j with hsame | ⟨-, hnone⟩
  · exact hsame ▸ h
  · rw [hnone] at h
    cases h

/-! ## Ends after a removal -/

/-- **An end is cleared by a removal if its slot is emptied by it**, and by nothing else. -/
theorem endAt_remove {d : Diagram} {i j a : Slot} {e e' : Element} {isSource : Bool}
    (he : d.get? j = some e) (he' : (d.remove i).get? j = some e') :
    e'.endAt isSource = some a ↔
      e.endAt isSource = some a ∧ (d.isLive a = true → (d.remove i).isLive a = true) := by
  cases hremovable : d.removable? i with
  | none =>
    have hsame : d.remove i = d := by rw [remove, hremovable]
    rw [hsame, he] at he'
    cases he'
    rw [hsame]
    exact (and_iff_left id).symm
  | some x =>
    have hget := get?_remove (d := d) (i := i) (by rw [hremovable]; rfl)
    have hlive : d.isLive i = true := by
      rw [removable?] at hremovable
      split at hremovable
      · cases hremovable
      · rw [isLive, hremovable]
        rfl
    have hstays : (d.isLive a = true → (d.remove i).isLive a = true) ↔ a ≠ i := by
      rw [isLive, isLive, hget]
      by_cases hai : a = i
      · subst hai
        rw [show (d.get? a).isSome = true from hlive]
        simp
      · simp [hai]
    rw [hget, he] at he'
    split at he'
    · cases he'
    · cases he'
      rw [hstays]
      have hone := Element.endAt_detachAll [i] e isSource a
      rwa [List.mem_singleton] at hone

theorem isLive_of_remove {d : Diagram} {i j : Slot} (h : (d.remove i).isLive j = true) :
    d.isLive j = true := by
  cases hremovable : d.removable? i with
  | none => rwa [remove, hremovable] at h
  | some x =>
    rw [isLive, get?_remove (by rw [hremovable]; rfl)] at h
    split at h
    · cases h
    · rwa [Option.isSome_map] at h

theorem isLive_of_foldl_remove {d : Diagram} {slots : List Slot} {j : Slot}
    (h : (slots.foldl remove d).isLive j = true) : d.isLive j = true := by
  induction slots generalizing d with
  | nil => exact h
  | cons i slots ih => exact isLive_of_remove (ih h)

/-- **The ends after a run of removals** are those whose slots were not emptied. -/
theorem endAt_foldl_remove {d : Diagram} {slots : List Slot} {j a : Slot} {e e' : Element}
    {isSource : Bool} (he : d.get? j = some e) (he' : (slots.foldl remove d).get? j = some e') :
    e'.endAt isSource = some a ↔
      e.endAt isSource = some a ∧ (d.isLive a = true → (slots.foldl remove d).isLive a = true) := by
  induction slots generalizing d e with
  | nil =>
    rw [List.foldl_nil, he] at he'
    cases he'
    exact (and_iff_left id).symm
  | cons i slots ih =>
    rw [List.foldl_cons] at he' ⊢
    have hlive : (d.remove i).isLive j = true := isLive_of_foldl_remove (by rw [isLive, he']; rfl)
    obtain ⟨e₁, he₁⟩ := Option.isSome_iff_exists.mp hlive
    rw [ih he₁ he', endAt_remove he he₁, and_assoc]
    constructor
    · rintro ⟨hend, hone, hrest⟩
      exact ⟨hend, fun ha => hrest (hone ha)⟩
    · rintro ⟨hend, hall⟩
      exact ⟨hend, fun ha => isLive_of_foldl_remove (hall ha), fun ha => hall (isLive_of_remove ha)⟩

/-! ## Diagrams with the same slots -/

/-- A diagram is told by its slots. -/
theorem ext_get? {d d' : Diagram} (hbound : d'.bound = d.bound)
    (h : ∀ i, d'.get? i = d.get? i) : d' = d := by
  obtain ⟨slots⟩ := d
  obtain ⟨slots'⟩ := d'
  congr 1
  refine Array.ext hbound fun i hi hi' => ?_
  have hget := h i
  simp only [Diagram.get?] at hget
  rw [Array.getElem?_eq_getElem hi, Array.getElem?_eq_getElem hi'] at hget
  exact hget

/-- Changes that do the same to the element in the slot do the same to the diagram. -/
theorem modify_congr {d : Diagram} {i : Slot} {f g : Element → Element}
    (h : ∀ e, d.get? i = some e → f e = g e) : d.modify i f = d.modify i g := by
  refine ext_get? ((bound_modify d i f).trans (bound_modify d i g).symm) fun j => ?_
  rw [get?_modify, get?_modify]
  split
  · rename_i hij
    subst hij
    exact Option.map_congr h
  · rfl

/-- A change that leaves the element in the slot as it is leaves the diagram as it is. -/
theorem modify_of_eq {d : Diagram} {i : Slot} {f : Element → Element}
    (h : ∀ e, d.get? i = some e → f e = e) : d.modify i f = d := by
  rw [modify_congr (g := id) h]
  refine ext_get? (bound_modify d i id) fun j => ?_
  rw [get?_modify, Option.map_id, id_eq, ite_self]

end Diagram

end Netlist
