import Mathlib.Data.List.Nodup
import Mathlib.Data.List.Perm.Subperm
import Netlist.Identity
import Netlist.Proofs.Diagram.Inside

/-!
# Identities that nobody has

A proposed identity may be taken. With one more proposal than there are elements one of
them is free, so whatever a naming proposes, a new element always gets an identity.

- `find?_eq_none_iff`: an identity is free if no element has it.
- `find?_fresh`: **a fresh identity is free.**
- `Naming.Novel`: no proposal is taken; then each slot gets its own proposal.
- `exists_insert`: an element with a free identity can be put in.
- `Substitution.get?_add`: what a substitution says with one more stand-in.
-/

namespace Netlist

namespace Diagram

variable {d d' : Diagram} {id : String} {e : Element}

/-- Some element has an identity. -/
def Taken (d : Diagram) (id : String) : Prop := ∃ i e, d.get? i = some e ∧ e.id = id

theorem find?_eq_none_iff : d.find? id = none ↔ ¬ d.Taken id := by
  rw [find?, List.find?_eq_none]
  simp only [List.mem_range, Option.any_eq_true, beq_iff_eq, Taken]
  constructor
  · rintro h ⟨i, e, he, hid⟩
    exact h i (lt_bound_of_get? he) ⟨e, he, hid⟩
  · rintro h i - ⟨e, he, hid⟩
    exact h ⟨i, e, he, hid⟩

/-- An element with a free identity can be put in. -/
theorem exists_insert (h : d.find? e.id = none) : ∃ i d', d.insert e = .ok (i, d') := by
  rw [insert, h]
  exact ⟨_, _, rfl⟩

theorem find?_of_insert {i : Slot} (h : d.insert e = .ok (i, d')) : d.find? e.id = none := by
  rw [insert] at h
  split at h
  · cases h
  · assumption

/-- Putting an element in takes its identity, and no other one. -/
theorem taken_insert {i : Slot} (h : d.insert e = .ok (i, d')) :
    d'.Taken id ↔ d.Taken id ∨ e.id = id := by
  have hget := get?_insert h
  obtain ⟨rfl, -⟩ := slot_insert h
  constructor
  · rintro ⟨j, x, hx, hid⟩
    rw [hget] at hx
    split at hx
    · cases hx
      exact .inr hid
    · exact .inl ⟨j, x, hx, hid⟩
  · rintro (⟨j, x, hx, hid⟩ | hid)
    · refine ⟨j, x, ?_, hid⟩
      rw [hget, if_neg (Nat.ne_of_lt (lt_bound_of_get? hx))]
      exact hx
    · exact ⟨_, _, (hget _).trans (if_pos rfl), hid⟩

end Diagram

namespace Naming

variable {d : Diagram}

theorem stroked_injective (proposal : String) : Function.Injective (stroked proposal) := by
  intro m n h
  have hlength := congrArg (fun s => s.toList.length) h
  simpa [stroked] using hlength

/-- **A fresh identity is free**: there are more proposals than elements. -/
theorem find?_fresh (naming : Naming) (d : Diagram) : d.find? (naming.fresh d) = none := by
  let candidates := (List.range (d.bound + 1)).map (stroked (naming d.bound))
  have hfresh : naming.fresh d =
      (candidates.find? fun id => (d.find? id).isNone).getD (naming d.bound) := rfl
  rw [hfresh]
  cases hfound : candidates.find? fun id => (d.find? id).isNone with
  | some id =>
    have hfree := List.find?_some hfound
    rw [Option.isNone_iff_eq_none] at hfree
    exact hfree
  | none =>
    exfalso
    let ids := (List.range d.bound).filterMap fun i => (d.get? i).map Element.id
    have htaken : candidates ⊆ ids := by
      intro id hid
      have hused := List.find?_eq_none.mp hfound id hid
      rw [Option.isNone_iff_eq_none, Diagram.find?_eq_none_iff, not_not] at hused
      obtain ⟨i, e, he, rfl⟩ := hused
      refine List.mem_filterMap.mpr ⟨i, List.mem_range.mpr (Diagram.lt_bound_of_get? he), ?_⟩
      rw [he, Option.map_some]
    have hnodup : candidates.Nodup := List.nodup_range.map (stroked_injective _)
    have hlength : candidates.length ≤ ids.length := (hnodup.subperm htaken).length_le
    have hids : ids.length ≤ (List.range d.bound).length := List.length_filterMap_le _ _
    rw [List.length_map, List.length_range] at hlength
    rw [List.length_range] at hids
    omega

/-- The naming proposes identities which nobody has, and none for two slots. -/
structure Novel (naming : Naming) (d : Diagram) : Prop where
  unused : ∀ c, d.bound ≤ c → ¬ d.Taken (naming c)
  injective : ∀ c c', d.bound ≤ c → d.bound ≤ c' → naming c = naming c' → c = c'

variable {naming : Naming}

/-- A proposal that nobody has is taken as it is. -/
theorem Novel.fresh (h : Novel naming d) : naming.fresh d = naming d.bound := by
  have hstroked : stroked (naming d.bound) 0 = naming d.bound := by simp [stroked]
  have hfree : (d.find? (naming d.bound)).isNone = true := by
    rw [Option.isNone_iff_eq_none, Diagram.find?_eq_none_iff]
    exact h.unused d.bound (Nat.le_refl _)
  rw [Naming.fresh, List.range_succ_eq_map, List.map_cons, hstroked, List.find?_cons, hfree]
  rfl

/-- The later proposals are still novel when an element has got one. -/
theorem Novel.insert {e : Element} {i : Slot} {d' : Diagram} (h : Novel naming d)
    (hid : e.id = naming d.bound) (hinsert : d.insert e = .ok (i, d')) : Novel naming d' := by
  obtain ⟨-, hbound⟩ := Diagram.slot_insert hinsert
  have hle : ∀ {c}, d'.bound ≤ c → d.bound < c := fun hc => by omega
  refine ⟨fun c hc htaken => ?_, fun c c' hc hc' => h.injective c c' (hle hc).le (hle hc').le⟩
  rcases (Diagram.taken_insert hinsert).mp htaken with htaken | hsame
  · exact h.unused c (hle hc).le htaken
  · have := h.injective d.bound c (Nat.le_refl _) (hle hc).le (hid.symm.trans hsame)
    exact absurd this (hle hc).ne

/-- Strokes are novel where no identity is longer than there are elements. -/
theorem novel_strokes {d : Diagram} (h : ∀ q ∈ d.elements, q.2.id.length < d.bound) :
    Novel (stroked "") d where
  unused := by
    rintro c hc ⟨i, e, he, hid⟩
    have hlength : e.id.length = c := by
      rw [hid]
      simp [stroked]
    exact absurd (h (i, e) (Diagram.mem_elements.mpr he)) (Nat.not_lt.mpr (hlength ▸ hc))
  injective := fun c c' _ _ h => stroked_injective "" h

end Naming

/-! ## Stand-ins -/

namespace Substitution

variable {t : Substitution} {id standIn proposal k : String}

/-- A substitution with one more stand-in. -/
def add (t : Substitution) (id standIn : String) : Substitution := ⟨t.entries ++ [(id, standIn)]⟩

theorem substitute_of_some (h : t.get? id = some standIn) :
    t.substitute id proposal = (standIn, t) := by
  rw [substitute, h]

theorem substitute_of_none (h : t.get? id = none) :
    t.substitute id proposal = (proposal, t.add id proposal) := by
  rw [substitute, h]
  rfl

theorem get?_add : (t.add id standIn).get? k =
    (t.get? k).or (if k = id then some standIn else none) := by
  rw [get?, add, List.lookup_append, get?]
  congr 1
  by_cases hk : k = id
  · rw [if_pos hk, hk, List.lookup_cons_self]
  · rw [if_neg hk, List.lookup_cons, beq_false_of_ne hk, List.lookup_nil]

end Substitution

end Netlist
