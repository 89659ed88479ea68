import Netlist.Assembly.Import
import Netlist.Proofs.Diagram.Subtree

/-!
# Copies of a drawing

Importing a drawing puts a copy of every member of it into new slots of the
diagram, links the copies with each other, and moves their numbers. The passes
work on one slot after the other; together they are described by what a copy
has from its original.

- `copyAll_runs`: copies are in consecutive new slots, in the order of their
  originals.
- `Mirrors`: what a copy has from its original, its role aside.
- `Imprint`: what a diagram is after importing. Everything in a new slot is a copy,
  and nothing else changes, but for ends.
-/

namespace Netlist

open Diagram (root)

variable {d d' : Diagram} {s : Slot}

/-! ## One change at a slot -/

/-- A change at a slot that does not look at the ends. -/
theorem Diagram.core?_modify (d : Diagram) {f : Element → Element} (i j : Slot)
    (hf : ∀ e : Element, (f e).core = (f e.core).core) :
    (d.modify i f).core? j =
      if i = j then (d.core? j).map fun x => (f x).core else d.core? j := by
  rw [Diagram.core?, Diagram.get?_modify]
  split
  · rw [Diagram.core?, Option.map_map, Option.map_map]
    congr 1
    exact funext hf
  · rfl

namespace Assembly

/-! ## Copying -/

/-- What copying a list of elements of a drawing comes to. -/
structure Copies (drawing d d' : Diagram) (order : List Slot) (copies : List (Slot × Slot)) :
    Prop where
  originals : copies.map Prod.fst = order
  slots : copies.map Prod.snd = List.range' d.bound order.length
  bound : d'.bound = d.bound + order.length
  old : ∀ j < d.bound, d'.get? j = d.get? j
  new : ∀ o c, (o, c) ∈ copies → ∃ drawn e, drawing.get? o = some drawn ∧ d'.get? c = some e ∧
    e.role = drawn.role ∧ e.label = drawn.label ∧ e.fields = drawn.fields

theorem copyOne_runs {naming : Naming} {owner : Locator} {table : Substitution} {drawn : Element}
    {r : Slot × Substitution} (h : Edit.Runs (copyOne naming s owner table drawn) d r d') :
    r.1 = d.bound ∧ d'.bound = d.bound + 1 ∧ (∀ j < d.bound, d'.get? j = d.get? j) ∧
      ∃ e, d'.get? d.bound = some e ∧ e.role = drawn.role ∧ e.label = drawn.label ∧
        e.fields = drawn.fields := by
  rw [copyOne, Edit.runs_read_bind] at h
  dsimp only at h
  rw [Edit.runs_bind] at h
  obtain ⟨slot, d₁, hchange, h⟩ := h
  obtain ⟨rfl, rfl⟩ := Edit.runs_pure.mp h
  rw [Edit.runs_change] at hchange
  cases hinsert : d.insert _ with
  | error e =>
    rw [hinsert] at hchange
    cases hchange
  | ok p =>
    obtain ⟨i, d₂⟩ := p
    rw [hinsert] at hchange
    cases hchange
    obtain ⟨rfl, hbound⟩ := Diagram.slot_insert hinsert
    have hget := Diagram.get?_insert hinsert
    refine ⟨rfl, hbound, fun j hj => ?_, _, (hget d.bound).trans (if_pos rfl), rfl, rfl, rfl⟩
    rw [hget, if_neg (Nat.ne_of_lt hj)]

/-- **Copies are in consecutive new slots**, in the order of their originals. -/
theorem copyAll_runs {naming : Naming} {owner : Locator} {drawing : Diagram}
    {table : Substitution} {order : List Slot} {copies : List (Slot × Slot)}
    (h : Edit.Runs (copyAll naming s owner drawing table order) d copies d') :
    Copies drawing d d' order copies := by
  induction order generalizing d table copies with
  | nil =>
    rw [copyAll] at h
    obtain ⟨rfl, rfl⟩ := Edit.runs_pure.mp h
    exact ⟨rfl, rfl, rfl, fun _ _ => rfl, fun _ _ hmem => nomatch hmem⟩
  | cons i order ih =>
    rw [copyAll] at h
    obtain ⟨drawn, hfetch, h⟩ := Edit.runs_check_bind.mp h
    rw [Edit.runs_bind] at h
    obtain ⟨⟨copy, table'⟩, d₁, hone, h⟩ := h
    rw [Edit.runs_bind] at h
    obtain ⟨later, d₂, hlater, h⟩ := h
    obtain ⟨rfl, rfl⟩ := Edit.runs_pure.mp h
    have hdrawn := Diagram.fetch_eq_ok.mp (mapError_eq_ok.mp hfetch)
    obtain ⟨hcopy, hbound₁, hold₁, e, he, hrole, hlabel, hfields⟩ := copyOne_runs hone
    obtain ⟨horiginals, hslots, hbound₂, hold₂, hnew₂⟩ := ih hlater
    dsimp only at hcopy
    subst hcopy
    refine ⟨by rw [List.map_cons, horiginals], ?_, ?_, fun j hj => ?_, fun o c hmem => ?_⟩
    · rw [List.map_cons, hslots, hbound₁, List.length_cons, List.range'_succ]
    · rw [hbound₂, hbound₁, List.length_cons]
      omega
    · rw [hold₂ j (hbound₁ ▸ Nat.lt_succ_of_lt hj), hold₁ j hj]
    · rcases List.mem_cons.mp hmem with heq | hmem
      · cases heq
        refine ⟨drawn, e, hdrawn, ?_, hrole, hlabel, hfields⟩
        rw [hold₂ _ (hbound₁ ▸ Nat.lt_succ_self _), he]
      · exact hnew₂ o c hmem

/-! ## Linking the copies -/

/-- The parent of a copy: the copy of the parent, or the instance. -/
def parentAmong (copies : List (Slot × Slot)) (s : Slot) (drawn : Element) : Slot :=
  (copyOf? copies drawn.parent).getD s

theorem bound_relinkAll (drawing : Diagram) (s : Slot) (copies order : List (Slot × Slot))
    (d : Diagram) : (relinkAll drawing s copies order d).bound = d.bound := by
  rw [relinkAll]
  induction order generalizing d with
  | nil => rfl
  | cons pair order ih =>
    rw [List.foldl_cons, ih, relink]
    split
    · rfl
    · split
      · exact Diagram.bound_remove d _
      · exact Diagram.bound_modify d _ _

/-! ## Moving the numbers -/

/-- The moved label of an element with a role and a label: its number is moved as far as a
word goes. -/
def movedLabel (delta : Int) (role : Role) (label : String) : String :=
  if role.nodeKind?.isSome && !(role == .node .ground) then
    ((Text.readSigned (Text.trim label)).toOption.map fun n =>
      toString (Word.signed (n + delta))).getD label
  else label

theorem shift_eq (delta : Int) (e : Element) :
    shift delta e = { e with label := movedLabel delta e.role e.label } := by
  rw [shift, movedLabel, Element.nodeKind?, Element.isGround, Element.labelNumber?]
  cases hnode : e.role.nodeKind?.isSome && !(e.role == .node .ground) with
  | false => rfl
  | true => cases (Text.readSigned (Text.trim e.label)).toOption <;> rfl

/-- **The label of a node is moved** if it is an integer. -/
theorem label_shift {delta n : Int} {e : Element} (hkind : e.nodeKind?.isSome = true)
    (hground : e.isGround = false) (hn : e.labelNumber? = some n) :
    (shift delta e).label = toString (Word.signed (n + delta)) := by
  have hmoves : (e.nodeKind?.isSome && !e.isGround) = true := by rw [hkind, hground]; rfl
  rw [shift, if_pos hmoves, hn]

theorem bound_shiftAll (delta : Int) (slots : List Slot) (d : Diagram) :
    (shiftAll delta slots d).bound = d.bound := by
  rw [shiftAll]
  induction slots generalizing d with
  | nil => rfl
  | cons i slots ih => rw [List.foldl_cons, ih, Diagram.bound_modify]

/-- The listed elements are moved, each once. -/
theorem core?_shiftAll {delta : Int} {slots : List Slot} (hnodup : slots.Nodup) (j : Slot) :
    (shiftAll delta slots d).core? j =
      if j ∈ slots then (d.core? j).map fun x => (shift delta x).core else d.core? j := by
  induction slots generalizing d with
  | nil => rfl
  | cons i slots ih =>
    obtain ⟨hi, hslots⟩ := List.nodup_cons.mp hnodup
    have hmodify := Diagram.core?_modify (f := shift delta) d i j fun e => by
      rw [shift_eq, shift_eq]
      rfl
    rw [shiftAll, List.foldl_cons]
    rw [← shiftAll, ih hslots, hmodify]
    by_cases hj : j = i
    · subst hj
      rw [if_neg hi, if_pos rfl, if_pos List.mem_cons_self]
    · rw [if_neg (Ne.symm hj)]
      simp only [List.mem_cons, hj, false_or]

/-! ## Importing -/

/-- An element that has from an element of a drawing what a copy has from it,
its role aside. -/
structure Mirrors (copies : List (Slot × Slot)) (s : Slot) (offset : Nat) (drawn e : Element) :
    Prop where
  label : e.label = (shift (Word.signed offset) drawn).label
  fields : e.fields = drawn.fields
  parent : e.parent = some (parentAmong copies s drawn)

/-- What importing the members of a drawing comes to. -/
structure Imprint (drawing : Diagram) (s : Slot) (offset : Nat) (order : List Slot)
    (d d' : Diagram) (copies : List (Slot × Slot)) : Prop where
  originals : copies.map Prod.fst = order
  slots : copies.map Prod.snd = List.range' d.bound order.length
  bound : d'.bound = d.bound + order.length
  old : ∀ j < d.bound, d'.core? j = d.core? j
  new : ∀ o c x, (o, c) ∈ copies → d'.core? c = some x →
    ∃ drawn, drawing.get? o = some drawn ∧ x.role = drawn.role ∧ Mirrors copies s offset drawn x
  made : ∀ o c drawn, (o, c) ∈ copies → drawing.get? o = some drawn →
    isBroken copies drawn = false → ∃ x, d'.core? c = some x

theorem Imprint.exists_original {drawing : Diagram} {offset : Nat} {order : List Slot}
    {copies : List (Slot × Slot)} (h : Imprint drawing s offset order d d' copies) {j : Slot}
    {x : Element} (hj : d.bound ≤ j) (hx : d'.core? j = some x) : ∃ o, (o, j) ∈ copies := by
  have hlt := Diagram.lt_bound_of_core? hx
  have hmem : j ∈ copies.map Prod.snd := by
    rw [h.slots, List.mem_range'_1, ← h.bound]
    exact ⟨hj, hlt⟩
  obtain ⟨⟨o, c⟩, hpair, rfl⟩ := List.mem_map.mp hmem
  exact ⟨o, hpair⟩

theorem Imprint.le_of_mem {drawing : Diagram} {offset : Nat} {order : List Slot}
    {copies : List (Slot × Slot)} (h : Imprint drawing s offset order d d' copies) {o c : Slot}
    (hmem : (o, c) ∈ copies) : d.bound ≤ c ∧ c < d'.bound := by
  have hslot : c ∈ copies.map Prod.snd := List.mem_map_of_mem (f := Prod.snd) hmem
  rw [h.slots, List.mem_range'_1, ← h.bound] at hslot
  exact hslot

/-- What the copy of an end or parent is the copy of. -/
theorem copyOf?_eq_some {copies : List (Slot × Slot)} {parent : Option Slot} {c : Slot}
    (h : copyOf? copies parent = some c) : ∃ o, parent = some o ∧ (o, c) ∈ copies := by
  obtain ⟨o, ho, hlookup⟩ := Option.bind_eq_some_iff.mp h
  refine ⟨o, ho, ?_⟩
  obtain ⟨before, after, rfl, -⟩ := List.lookup_eq_some_iff.mp hlookup
  exact List.mem_append_right _ List.mem_cons_self

end Assembly

end Netlist
