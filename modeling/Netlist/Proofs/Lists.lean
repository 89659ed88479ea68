import Mathlib

/-!
# Corresponding lists

A stage often gives one result for each item of a list. `List.Forall₂` relates
the two lists; what is missing around it in the library stands here, and what is
missing around `List.eraseDups`, for stages that come back to an item.
-/

namespace Netlist

variable {α β : Type} {R : α → β → Prop} {as : List α} {bs : List β}

/-- Every item on the left has its counterpart. -/
theorem forall₂_mem_left (h : List.Forall₂ R as bs) {a : α} (ha : a ∈ as) : ∃ b ∈ bs, R a b := by
  induction h with
  | nil => cases ha
  | @cons a' b as bs hab _ ih =>
    rcases List.mem_cons.mp ha with rfl | ha
    · exact ⟨b, List.mem_cons_self, hab⟩
    · obtain ⟨b', hb', hR⟩ := ih ha
      exact ⟨b', List.mem_cons_of_mem b hb', hR⟩

/-- Every item on the right has its counterpart. -/
theorem forall₂_mem_right (h : List.Forall₂ R as bs) {b : β} (hb : b ∈ bs) : ∃ a ∈ as, R a b :=
  forall₂_mem_left h.flip hb

/-- Counterparts are in the same places. -/
theorem forall₂_getElem? (h : List.Forall₂ R as bs) {k : Nat} {a : α} (ha : as[k]? = some a) :
    ∃ b, bs[k]? = some b ∧ R a b := by
  induction h generalizing k with
  | nil => cases ha
  | @cons a' b as bs hab _ ih =>
    cases k with
    | zero =>
      cases ha
      exact ⟨b, rfl, hab⟩
    | succ k => exact ih ha

/-- A list has counterparts if each of its items has one. -/
theorem exists_forall₂ (h : ∀ a ∈ as, ∃ b, R a b) : ∃ bs, List.Forall₂ R as bs := by
  induction as with
  | nil => exact ⟨[], .nil⟩
  | cons a as ih =>
    obtain ⟨⟨b, hab⟩, hrest⟩ := List.forall_mem_cons.mp h
    obtain ⟨bs, hbs⟩ := ih hrest
    exact ⟨b :: bs, .cons hab hbs⟩

/-- Counterparts stay counterparts under a relation that follows for the items
of the lists. -/
theorem forall₂_imp_mem {S : α → β → Prop} (h : List.Forall₂ R as bs)
    (himp : ∀ a ∈ as, ∀ b ∈ bs, R a b → S a b) : List.Forall₂ S as bs := by
  induction h with
  | nil => exact .nil
  | cons hab _ ih =>
    exact .cons (himp _ List.mem_cons_self _ List.mem_cons_self hab)
      (ih fun a ha b hb => himp a (List.mem_cons_of_mem _ ha) b (List.mem_cons_of_mem _ hb))

/-- Counterparts of counterparts. -/
theorem forall₂_trans {γ : Type} {S : β → γ → Prop} {cs : List γ} (h : List.Forall₂ R as bs)
    (h' : List.Forall₂ S bs cs) : List.Forall₂ (fun a c => ∃ b, R a b ∧ S b c) as cs := by
  induction h generalizing cs with
  | nil =>
    cases h'
    exact .nil
  | cons hab _ ih =>
    cases h' with
    | cons hbc hrest => exact .cons ⟨_, hab, hbc⟩ (ih hrest)

/-- What is picked from corresponding items corresponds. -/
theorem forall₂_filterMap {γ : Type} {g : γ → Option α} {g' : γ → Option β} {cs : List γ}
    (h : ∀ c ∈ cs, ∃ a b, g c = some a ∧ g' c = some b ∧ R a b) :
    List.Forall₂ R (cs.filterMap g) (cs.filterMap g') := by
  induction cs with
  | nil => exact .nil
  | cons c cs ih =>
    obtain ⟨⟨a, b, ha, hb, hab⟩, hrest⟩ := List.forall_mem_cons.mp h
    rw [List.filterMap_cons_some ha, List.filterMap_cons_some hb]
    exact .cons hab (ih hrest)

/-- The same is picked from lists whose items correspond. -/
theorem filterMap_congr_forall₂ {γ : Type} {g : α → Option γ} {g' : β → Option γ}
    (h : List.Forall₂ R as bs) (hg : ∀ a b, R a b → g' b = g a) :
    bs.filterMap g' = as.filterMap g := by
  induction h with
  | nil => rfl
  | cons hab _ ih => rw [List.filterMap_cons, List.filterMap_cons, hg _ _ hab, ih]

/-- What is picked from the first item comes before what is picked from the others. -/
theorem toList_append_filterMap (g : α → Option β) (a : α) (as : List α) :
    (g a).toList ++ as.filterMap g = (a :: as).filterMap g := by
  rw [List.filterMap_cons]
  cases g a <;> rfl

/-- Every pair of a list is found if no key is repeated. -/
theorem lookup_of_mem [BEq α] [LawfulBEq α] {ps : List (α × β)} (hnodup : (ps.map Prod.fst).Nodup)
    {a : α} {b : β} (h : (a, b) ∈ ps) : ps.lookup a = some b := by
  induction ps with
  | nil => cases h
  | cons p ps ih =>
    obtain ⟨a', b'⟩ := p
    obtain ⟨hnot, hnodup⟩ := List.nodup_cons.mp hnodup
    rcases List.mem_cons.mp h with heq | hlater
    · cases heq
      exact List.lookup_cons_self
    · have hne : (a == a') = false := by
        rw [beq_eq_false_iff_ne]
        exact ne_of_mem_of_not_mem (List.mem_map_of_mem (f := Prod.fst) hlater) hnot
      rw [List.lookup_cons, hne]
      exact ih hnodup hlater

theorem lookup_of_notMem [BEq α] [LawfulBEq α] {ps : List (α × β)} {a : α}
    (h : a ∉ ps.map Prod.fst) : ps.lookup a = none := by
  rw [List.lookup_eq_none_iff]
  intro p hp
  rw [bne_iff_ne]
  rintro rfl
  exact h (List.mem_map_of_mem hp)

/-- What stands across from an item of the first list in the second. -/
theorem lookup_zip_of_getElem? [BEq α] [LawfulBEq α] {as : List α} {bs : List β}
    (hnodup : as.Nodup) {j : Nat} {a : α} (ha : as[j]? = some a) :
    (as.zip bs).lookup a = bs[j]? := by
  induction as generalizing bs j with
  | nil => cases ha
  | cons a' as ih =>
    cases bs with
    | nil => rfl
    | cons b bs =>
      obtain ⟨hnot, hnodup⟩ := List.nodup_cons.mp hnodup
      rw [List.zip_cons_cons, List.lookup_cons]
      cases j with
      | zero =>
        cases ha
        rw [beq_self_eq_true]
        rfl
      | succ j =>
        have hne : (a == a') = false := by
          rw [beq_eq_false_iff_ne]
          exact ne_of_mem_of_not_mem (List.mem_of_getElem? (l := as) ha) hnot
        rw [hne]
        exact ih hnodup ha

/-- What stands across from an item comes from the two lists. -/
theorem mem_of_lookup_zip [BEq α] [LawfulBEq α] {as : List α} {bs : List β} {a : α} {b : β}
    (h : (as.zip bs).lookup a = some b) : a ∈ as ∧ b ∈ bs := by
  obtain ⟨l₁, l₂, heq, -⟩ := List.lookup_eq_some_iff.mp h
  exact List.of_mem_zip (by rw [heq]; simp)

/-! ## Without the repetitions -/

section EraseDups

variable [BEq α]

/-- An item's repetitions go before the rest is looked at. -/
@[elab_as_elim]
theorem eraseDups_induction {motive : List α → Prop} (nil : motive [])
    (cons : ∀ a as, motive (as.filter fun b => !b == a) → motive (a :: as)) (as : List α) :
    motive as := by
  induction hlen : as.length using Nat.strongRecOn generalizing as with
  | _ len ih =>
    cases as with
    | nil => exact nil
    | cons a as =>
      refine cons a as (ih _ ?_ _ rfl)
      rw [← hlen]
      exact Nat.lt_succ_of_le (List.length_filter_le _ _)

variable [LawfulBEq α]

/-- A list without the repetitions has no repetitions. -/
theorem nodup_eraseDups (as : List α) : as.eraseDups.Nodup := by
  induction as using eraseDups_induction with
  | nil => simp
  | cons a as ih =>
    rw [List.eraseDups_cons, List.nodup_cons]
    exact ⟨by simp, ih⟩

/-- Items can be dropped before or after the repetitions. -/
theorem filter_eraseDups (p : α → Bool) (as : List α) :
    as.eraseDups.filter p = (as.filter p).eraseDups := by
  induction as using eraseDups_induction with
  | nil => simp
  | cons a as ih =>
    rw [List.eraseDups_cons, List.filter_cons, List.filter_cons, ih, List.filter_comm]
    split
    · rw [List.eraseDups_cons]
    · rename_i hp
      congr 1
      refine List.filter_eq_self.mpr fun b hb => ?_
      have hne : b ≠ a := fun hba => hp (hba ▸ (List.mem_filter.mp hb).2)
      simpa using hne

end EraseDups

end Netlist
