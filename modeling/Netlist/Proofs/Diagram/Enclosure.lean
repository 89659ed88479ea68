import Netlist.Proofs.Diagram.Inside

/-!
# What is around an element

The search upwards goes from parent to parent and stops at the root, at a parent that is
gone, or where the parents start over. What it meets is around the element; where the
parents do not loop, it meets everything that is.

- `Encloses`: being around an element, one parent after the other.
- `mem_lineage_iff`: what is around an element is its lineage, unless that loops.
- `nearestAncestor_eq_none_iff`: **nothing is found iff the parents end and nothing around
  the element passes the test.**
- `exists_nearestAncestor`: in a diagram without loops the search succeeds.
-/

namespace Netlist.Diagram

variable {d : Diagram} {a c i p : Slot} {fuel : Nat} {seen : List Slot}

/-- An element is around another one if it is met on the way up, which ends at the root. -/
inductive Encloses (d : Diagram) (a : Slot) : Slot → Prop
  | parent {i : Slot} {e : Element} (parent : d.HasParent i a) (here : d.get? a = some e) :
    Encloses d a i
  | above {i p : Slot} {e : Element} (parent : d.HasParent i p) (here : d.get? p = some e)
      (below : p ≠ root) (above : Encloses d a p) : Encloses d a i

theorem Encloses.live (h : d.Encloses a i) : ∃ e, d.get? a = some e := by
  induction h with
  | parent _ here => exact ⟨_, here⟩
  | above _ _ _ _ ih => exact ih

/-- What is around an element in `c` is `c`, or in `c`, or around `c` too. -/
theorem Encloses.within_or_around (h : d.Encloses a i) (hin : d.Inside i c) :
    a = c ∨ d.Inside a c ∨ c ≠ root ∧ d.Encloses a c := by
  induction h with
  | parent parent _ => exact (hin.step parent).imp_right .inl
  | above parent _ below above ih =>
    rcases hin.step parent with rfl | hin
    · exact .inr (.inr ⟨below, above⟩)
    · exact ih hin

/-- What encloses an element encloses whatever is in it, if the root is not. -/
theorem Encloses.within (h : d.Encloses a c) (hc : c ≠ root) (hlive : ∃ e, d.get? c = some e)
    (hroot : ¬ d.Inside root c) (hin : d.Inside i c) : d.Encloses a i := by
  induction hin using Relation.TransGen.head_induction_on with
  | single hp =>
    obtain ⟨e, he⟩ := hlive
    exact .above hp he hc h
  | @head i p hp hin ih =>
    obtain ⟨e, he⟩ := Inside.live hin
    have hne : p ≠ root := by
      rintro rfl
      exact hroot hin
    exact .above hp he hne ih

/-- Going up from an element starts at its parent. -/
theorem climb_of_hasParent {e : Element} (hp : d.HasParent i p) (he : d.get? p = some e) :
    d.climb (fuel + 1) seen ((d.get? i).bind Element.parent) =
      if seen.contains p then ⟨[], some p⟩
      else if p = root then ⟨[p], none⟩
      else ⟨p :: (d.climb fuel (p :: seen) ((d.get? p).bind Element.parent)).ancestors,
        (d.climb fuel (p :: seen) ((d.get? p).bind Element.parent)).loop⟩ := by
  obtain ⟨ei, hi, hparent⟩ := hp
  rw [hi, Option.bind_some, hparent, climb, he]
  rfl

/-- Where there is nothing above an element the way up ends. -/
theorem climb_of_top (h : ∀ p e, d.HasParent i p → d.get? p = some e → False) :
    d.climb fuel seen ((d.get? i).bind Element.parent) = ⟨[], none⟩ := by
  cases fuel with
  | zero => rfl
  | succ fuel =>
    cases hparent : (d.get? i).bind Element.parent with
    | none => rfl
    | some p =>
      obtain ⟨e, he, hp⟩ := Option.bind_eq_some_iff.mp hparent
      rw [climb]
      cases hget : d.get? p with
      | none => rfl
      | some x => exact (h p x ⟨e, he, hp⟩ hget).elim

/-- The two ways the way up can begin. -/
theorem top_or_parent (d : Diagram) (i : Slot) :
    (∀ p e, d.HasParent i p → d.get? p = some e → False) ∨
      ∃ p e, d.HasParent i p ∧ d.get? p = some e := by
  by_cases h : ∃ p e, d.HasParent i p ∧ d.get? p = some e
  · exact .inr h
  · exact .inl fun p e hp he => h ⟨p, e, hp, he⟩

/-- What is met on the way up is around the element. -/
theorem encloses_of_mem_climb
    (h : a ∈ (d.climb fuel seen ((d.get? i).bind Element.parent)).ancestors) : d.Encloses a i := by
  induction fuel generalizing i seen with
  | zero => cases h
  | succ fuel ih =>
    rcases top_or_parent d i with htop | ⟨p, e, hp, he⟩
    · rw [climb_of_top htop] at h
      cases h
    · rw [climb_of_hasParent hp he] at h
      split_ifs at h with hmem hroot
      · cases h
      · obtain rfl := List.mem_singleton.mp h
        exact .parent hp he
      · rcases List.mem_cons.mp h with rfl | h
        · exact .parent hp he
        · exact .above hp he hroot (ih h)

/-- Everything around the element is met, unless the parents start over. -/
theorem mem_climb_of_encloses (h : d.Encloses a i)
    (hend : (d.climb fuel seen ((d.get? i).bind Element.parent)).loop = none)
    (hnodup : seen.Nodup) (hseen : ∀ j ∈ seen, j < d.bound) (hfuel : d.bound < fuel + seen.length) :
    a ∈ (d.climb fuel seen ((d.get? i).bind Element.parent)).ancestors := by
  induction h generalizing fuel seen with
  | @parent i e hp he =>
    -- The slots seen are distinct, so there cannot be more of them than were issued.
    have := length_le_bound hnodup hseen
    obtain ⟨fuel, rfl⟩ : ∃ k, fuel = k + 1 := ⟨fuel - 1, by omega⟩
    rw [climb_of_hasParent hp he] at hend ⊢
    split_ifs at hend ⊢ with hmem hroot
    · exact List.mem_singleton_self _
    · exact List.mem_cons_self
  | @above i p e hp he hroot _ ih =>
    have := length_le_bound hnodup hseen
    obtain ⟨fuel, rfl⟩ : ∃ k, fuel = k + 1 := ⟨fuel - 1, by omega⟩
    rw [climb_of_hasParent hp he, if_neg hroot] at hend ⊢
    split_ifs at hend ⊢ with hmem
    refine List.mem_cons_of_mem p (ih hend ?_ ?_ ?_)
    · exact List.nodup_cons.mpr ⟨fun h => hmem (by simpa using h), hnodup⟩
    · exact List.forall_mem_cons.mpr ⟨lt_bound_of_get? he, hseen⟩
    · rw [List.length_cons]
      omega

/-- **What is around an element is its lineage**, unless that loops. -/
theorem mem_lineage_iff (hend : (d.lineage i).loop = none) :
    a ∈ (d.lineage i).ancestors ↔ d.Encloses a i :=
  ⟨encloses_of_mem_climb, fun h => mem_climb_of_encloses h hend List.nodup_nil
    (fun _ hj => nomatch hj) (Nat.lt_succ_self d.bound)⟩

/-- Without loops the way up ends. -/
theorem loop_climb (hloop : ∀ i, ¬ d.Inside i i) (hseen : ∀ j ∈ seen, j = i ∨ d.Inside j i) :
    (d.climb fuel seen ((d.get? i).bind Element.parent)).loop = none := by
  induction fuel generalizing i seen with
  | zero => rfl
  | succ fuel ih =>
    rcases top_or_parent d i with htop | ⟨p, e, hp, he⟩
    · rw [climb_of_top htop]
    · have hnew : p ∉ seen := by
        intro hmem
        rcases hseen p hmem with rfl | hin
        · exact hloop p (.single hp)
        · exact hloop p (hin.tail hp)
      rw [climb_of_hasParent hp he, if_neg (by simpa using hnew)]
      split_ifs
      · rfl
      · refine ih (List.forall_mem_cons.mpr ⟨.inl rfl, fun j hj => .inr ?_⟩)
        rcases hseen j hj with rfl | hin
        · exact .single hp
        · exact hin.tail hp

variable {t : Slot → Element → Bool}

/-- **Nothing is found iff the parents end and nothing around the element passes.** -/
theorem nearestAncestor_eq_none_iff : d.nearestAncestor i t = .ok none ↔
    (d.lineage i).loop = none ∧ ∀ a e, d.Encloses a i → d.get? a = some e → t a e = false := by
  rw [nearestAncestor]
  constructor
  · intro h
    split at h
    · cases h
    rename_i hfind
    split at h
    · exact absurd h cycleAt_ne_ok
    rename_i hend
    refine ⟨hend, fun a e ha he => ?_⟩
    have := List.find?_eq_none.mp hfind a ((mem_lineage_iff hend).mpr ha)
    simpa [he] using this
  · rintro ⟨hend, hnone⟩
    have hfind : (d.lineage i).ancestors.find? (fun a => (d.get? a).any (t a)) = none := by
      refine List.find?_eq_none.mpr fun a ha => ?_
      have hencloses := (mem_lineage_iff hend).mp ha
      obtain ⟨e, he⟩ := hencloses.live
      rw [he, Option.any_some, hnone a e hencloses he]
      exact Bool.false_ne_true
    rw [hfind, hend]

/-- What is found is around the element and passes. -/
theorem encloses_of_nearestAncestor (h : d.nearestAncestor i t = .ok (some a)) :
    d.Encloses a i ∧ ∃ e, d.get? a = some e ∧ t a e = true := by
  rw [nearestAncestor] at h
  split at h
  · rename_i a' hfind
    cases h
    exact ⟨encloses_of_mem_climb (List.mem_of_find?_eq_some hfind),
      by simpa [Option.any_eq_true] using List.find?_some hfind⟩
  · split at h
    · exact absurd h cycleAt_ne_ok
    · cases h

/-- **In a diagram without loops the search upwards succeeds.** -/
theorem exists_nearestAncestor (hloop : ∀ i, ¬ d.Inside i i) (i : Slot)
    (t : Slot → Element → Bool) : ∃ o, d.nearestAncestor i t = .ok o := by
  have hend : (d.lineage i).loop = none := loop_climb hloop fun _ hj => nomatch hj
  rw [nearestAncestor, hend]
  dsimp only
  split
  · exact ⟨_, rfl⟩
  · exact ⟨none, rfl⟩

end Netlist.Diagram
