import Netlist.Proofs.Diagram.Inside
import Netlist.Proofs.Diagram.Removal

/-!
# Removing what is inside

A subtree is collected in rounds, and removing it removes its elements one by
one. What is left of a diagram is said here in terms of being inside.

- `mem_subtree`: the subtree of an element is the element and what is inside it.
- `core?_foldl_removeSubtree`: **removing some subtrees empties the slots in and
  inside them**, and leaves all other elements alone, but for their ends.
-/

namespace Netlist.Diagram

variable {d d' : Diagram} {i j c p s : Slot}

theorem lt_bound_of_core? {x : Element} (h : d.core? i = some x) : i < d.bound := by
  obtain ⟨e, he, -⟩ := core?_eq_some.mp h
  exact lt_bound_of_get? he

theorem hasParent_iff_core? : d.HasParent i p ↔ ∃ x, d.core? i = some x ∧ x.parent = some p := by
  constructor
  · rintro ⟨e, he, hp⟩
    exact ⟨e.core, core?_of_get? he, hp⟩
  · rintro ⟨x, hx, hp⟩
    obtain ⟨e, he, rfl⟩ := core?_eq_some.mp hx
    exact ⟨e, he, hp⟩

/-- Parents are read off an element without its ends. -/
theorem HasParent.congr (h : d.HasParent i p) (hcore : d'.core? i = d.core? i) :
    d'.HasParent i p := by
  rw [hasParent_iff_core?, hcore]
  exact hasParent_iff_core?.mp h

/-! ## Subtrees -/

/-- What a round adds: the unmarked elements whose parents are marked. -/
def round (d : Diagram) (marked : List Slot) : List Slot :=
  (d.select fun e => e.parent.any marked.contains).filter (!marked.contains ·)

theorem mem_round {marked : List Slot} :
    j ∈ d.round marked ↔ (∃ p ∈ marked, d.HasParent j p) ∧ j ∉ marked := by
  simp only [round, List.mem_filter, mem_select, Option.any_eq_true, List.contains_iff_mem,
    Bool.not_eq_true', HasParent]
  constructor
  · rintro ⟨⟨e, he, p, hp, hmem⟩, hnot⟩
    exact ⟨⟨p, hmem, e, he, hp⟩, by simpa using hnot⟩
  · rintro ⟨⟨p, hmem, e, he, hp⟩, hnot⟩
    exact ⟨⟨e, he, p, hp, hmem⟩, by simpa using hnot⟩

theorem growSubtree_succ (fuel : Nat) (marked : List Slot) :
    d.growSubtree (fuel + 1) marked =
      if d.round marked = [] then marked else d.growSubtree fuel (marked ++ d.round marked) := by
  rw [growSubtree, round]
  split
  · rename_i hnone
    rw [if_pos hnone]
  · rename_i hsome
    rw [if_neg hsome]

/-- Whatever is marked was marked before or is inside something that was. -/
theorem growSubtree_sound {fuel : Nat} {marked : List Slot} :
    ∀ j ∈ d.growSubtree fuel marked, j ∈ marked ∨ ∃ i ∈ marked, d.Inside j i := by
  induction fuel generalizing marked with
  | zero => exact fun j hj => .inl hj
  | succ fuel ih =>
    intro j hj
    rw [growSubtree_succ] at hj
    split at hj
    · exact .inl hj
    rcases ih j hj with hmem | ⟨i, hi, hin⟩
    · rcases List.mem_append.mp hmem with hmem | hmem
      · exact .inl hmem
      · obtain ⟨⟨p, hp, hparent⟩, -⟩ := mem_round.mp hmem
        exact .inr ⟨p, hp, .single hparent⟩
    · rcases List.mem_append.mp hi with hi | hi
      · exact .inr ⟨i, hi, hin⟩
      · obtain ⟨⟨p, hp, hparent⟩, -⟩ := mem_round.mp hi
        exact .inr ⟨p, hp, hin.tail hparent⟩

/-- A round that adds something leaves fewer slots to mark. -/
theorem card_unseen_round {marked : List Slot} (h : d.round marked ≠ []) :
    (d.unseen (marked ++ d.round marked)).card < (d.unseen marked).card := by
  obtain ⟨k, hk⟩ := List.exists_mem_of_ne_nil _ h
  obtain ⟨⟨-, -, e, he, -⟩, hnot⟩ := mem_round.mp hk
  refine Finset.card_lt_card ⟨fun j hj => ?_, fun hsub => ?_⟩
  · simp only [unseen, Finset.mem_sdiff, Finset.mem_range, List.mem_toFinset, List.mem_append,
      not_or] at hj ⊢
    exact ⟨hj.1, hj.2.1⟩
  · have hunseen : k ∈ d.unseen marked := by
      simp only [unseen, Finset.mem_sdiff, Finset.mem_range, List.mem_toFinset]
      exact ⟨lt_bound_of_get? he, hnot⟩
    have hmem := hsub hunseen
    simp only [unseen, Finset.mem_sdiff, List.mem_toFinset, List.mem_append, not_or] at hmem
    exact hmem.2.2 hk

theorem closed_of_round {marked : List Slot} (h : d.round marked = []) :
    ∀ p ∈ marked, ∀ j, d.HasParent j p → j ∈ marked := by
  intro p hp j hj
  by_contra hnot
  have hmem := mem_round.mpr ⟨⟨p, hp, hj⟩, hnot⟩
  rw [h] at hmem
  cases hmem

/-- With a round for every unmarked slot, nothing is left to mark. -/
theorem growSubtree_closed {fuel : Nat} {marked : List Slot}
    (hfuel : (d.unseen marked).card ≤ fuel) :
    (∀ j ∈ marked, j ∈ d.growSubtree fuel marked) ∧
      ∀ p ∈ d.growSubtree fuel marked, ∀ j, d.HasParent j p → j ∈ d.growSubtree fuel marked := by
  induction fuel generalizing marked with
  | zero =>
    suffices hnil : d.round marked = [] from ⟨fun j hj => hj, closed_of_round hnil⟩
    by_contra hmore
    have := card_unseen_round hmore
    omega
  | succ fuel ih =>
    rw [growSubtree_succ]
    split
    · rename_i hnil
      exact ⟨fun j hj => hj, closed_of_round hnil⟩
    · rename_i hmore
      have hcard := card_unseen_round hmore
      have hfuel' : (d.unseen (marked ++ d.round marked)).card ≤ fuel := by omega
      obtain ⟨hmarked, hclosed⟩ := ih hfuel'
      exact ⟨fun j hj => hmarked j (List.mem_append_left _ hj), hclosed⟩

/-- **The subtree of an element is the element and what is inside it.** -/
theorem mem_subtree {e : Element} (he : d.get? i = some e) :
    j ∈ d.subtree i ↔ j = i ∨ d.Inside j i := by
  have hfuel : (d.unseen [i]).card ≤ d.bound := by
    rw [← Finset.card_range d.bound]
    exact Finset.card_le_card Finset.sdiff_subset
  obtain ⟨hself, hclosed⟩ := growSubtree_closed hfuel
  rw [subtree, List.mem_filter, List.mem_range, List.contains_iff_mem]
  constructor
  · rintro ⟨-, hmem⟩
    rcases growSubtree_sound j hmem with hj | ⟨k, hk, hin⟩
    · exact .inl (List.mem_singleton.mp hj)
    · exact .inr (List.mem_singleton.mp hk ▸ hin)
  · rintro (rfl | hin)
    · exact ⟨lt_bound_of_get? he, hself j (List.mem_singleton_self j)⟩
    · obtain ⟨e', he'⟩ := hin.live
      refine ⟨lt_bound_of_get? he', ?_⟩
      clear he'
      induction hin using Relation.TransGen.head_induction_on with
      | single hp => exact hclosed i (hself i (List.mem_singleton_self i)) _ hp
      | head hp _ ih => exact hclosed _ ih _ hp

/-! ## Removing subtrees -/

/-- The root is in nothing. -/
def Rooted (d : Diagram) : Prop := ∀ p, ¬ d.HasParent root p

theorem Rooted.not_inside (h : d.Rooted) : ¬ d.Inside root c := by
  intro hin
  obtain ⟨p, hp, -⟩ := Relation.TransGen.head'_iff.mp hin
  exact h p hp

theorem bound_foldl_remove (d : Diagram) (slots : List Slot) :
    (slots.foldl remove d).bound = d.bound := by
  induction slots generalizing d with
  | nil => rfl
  | cons i slots ih => rw [List.foldl_cons, ih, bound_remove]

@[simp] theorem bound_removeSubtree (d : Diagram) (i : Slot) :
    (d.removeSubtree i).2.bound = d.bound := by
  rw [removeSubtree]
  split
  · rfl
  · exact bound_foldl_remove d _

/-- Removing a subtree empties it. -/
theorem core?_removeSubtree {e : Element} (hroot : d.Rooted) (hi : i ≠ root)
    (he : d.get? i = some e) (j : Slot) [Decidable (j = i ∨ d.Inside j i)] :
    (d.removeSubtree i).2.core? j = if j = i ∨ d.Inside j i then none else d.core? j := by
  have hnodup : (d.subtree i).Nodup := List.nodup_range.filter _
  rw [removeSubtree, removable?_eq d hi, he]
  dsimp only
  rw [core?_foldl_remove hnodup]
  · simp only [mem_subtree he]
  · intro k hk
    rcases (mem_subtree he).mp hk with rfl | hin
    · exact ⟨hi, by rw [he]; rfl⟩
    · obtain ⟨e', he'⟩ := hin.live
      refine ⟨?_, by rw [he']; rfl⟩
      rintro rfl
      exact hroot.not_inside hin

/-- An element that is one of some elements or inside one. -/
def Below (d : Diagram) (tops : List Slot) (j : Slot) : Prop := ∃ c ∈ tops, j = c ∨ d.Inside j c

/-- Being inside in what is left of a diagram. -/
theorem inside_of_core?_le (hcore : ∀ k x, d'.core? k = some x → d.core? k = some x)
    (h : d'.Inside i c) : d.Inside i c := by
  have hparent : ∀ {a b}, d'.HasParent a b → d.HasParent a b := by
    intro a b hab
    obtain ⟨x, hx, hp⟩ := hasParent_iff_core?.mp hab
    exact hasParent_iff_core?.mpr ⟨x, hcore a x hx, hp⟩
  exact Relation.TransGen.mono (fun _ _ => hparent) _ _ h

open Classical in
/-- Removing one more subtree, after some were removed. -/
theorem core?_removeSubtree_step {dk : Diagram} {gone : List Slot} {e : Element}
    (hroot : d.Rooted) (hc : c ≠ root) (he : d.get? c = some e)
    (hk : ∀ j, dk.core? j = if d.Below gone j then none else d.core? j) (j : Slot) :
    (dk.removeSubtree c).2.core? j = if d.Below (gone ++ [c]) j then none else d.core? j := by
  have hle : ∀ k x, dk.core? k = some x → ¬ d.Below gone k ∧ d.core? k = some x := by
    intro k x hx
    rw [hk] at hx
    split at hx
    · cases hx
    · exact ⟨by assumption, hx⟩
  have hbelow : ∀ {k}, d.Below (gone ++ [c]) k ↔ d.Below gone k ∨ k = c ∨ d.Inside k c := by
    intro k
    simp [Below, or_and_right, exists_or]
  by_cases hgone : d.Below gone c
  · -- What was removed with the earlier subtrees was removed with all that is inside it.
    have hnone : dk.get? c = none := by
      rw [← core?_eq_none, hk, if_pos hgone]
    have hsame : d.Below (gone ++ [c]) j ↔ d.Below gone j := by
      rw [hbelow]
      constructor
      · rintro (h | rfl | hin)
        · exact h
        · exact hgone
        · obtain ⟨t, ht, rfl | htop⟩ := hgone
          · exact ⟨c, ht, .inr hin⟩
          · exact ⟨t, ht, .inr (hin.trans htop)⟩
      · exact .inl
    rw [removeSubtree, removable?_eq dk hc, hnone, hk]
    simp only [hsame]
  · obtain ⟨e', he'⟩ : ∃ e', dk.get? c = some e' := by
      have := hk c
      rw [if_neg hgone, core?_of_get? he] at this
      obtain ⟨e', he', -⟩ := core?_eq_some.mp this
      exact ⟨e', he'⟩
    have hroot' : dk.Rooted := by
      intro p hp
      obtain ⟨x, hx, hp⟩ := hasParent_iff_core?.mp hp
      exact hroot p (hasParent_iff_core?.mpr ⟨x, (hle _ _ hx).2, hp⟩)
    rw [core?_removeSubtree hroot' hc he', hk]
    by_cases hj : d.Below gone j
    · simp only [hbelow, hj, if_true, ite_self, true_or]
    · have hin : dk.Inside j c ↔ d.Inside j c := by
        refine ⟨inside_of_core?_le fun k x hx => (hle k x hx).2, fun hin => ?_⟩
        -- Nothing between `j` and `c` was removed, or `j` would have been removed with it.
        induction hin using Relation.TransGen.head_induction_on with
        | single hp => exact .single (hp.congr (by rw [hk, if_neg hj]))
        | head hp _ ih =>
          refine (ih fun ⟨t, ht, hat⟩ => hj ?_).head (hp.congr (by rw [hk, if_neg hj]))
          rcases hat with rfl | hat
          · exact ⟨_, ht, .inr (.single hp)⟩
          · exact ⟨t, ht, .inr (hat.head hp)⟩
      simp only [hbelow, hj, hin, if_false, false_or]

open Classical in
/-- **Removing some subtrees empties the slots in and inside them.** -/
theorem core?_foldl_removeSubtree {tops : List Slot} (hroot : d.Rooted)
    (htops : ∀ c ∈ tops, c ≠ root ∧ ∃ e, d.get? c = some e) (j : Slot) :
    (tops.foldl (fun d c => (d.removeSubtree c).2) d).core? j =
      if d.Below tops j then none else d.core? j := by
  have hfrom : ∀ (tops gone : List Slot) (dk : Diagram),
      (∀ c ∈ tops, c ≠ root ∧ ∃ e, d.get? c = some e) →
      (∀ j, dk.core? j = if d.Below gone j then none else d.core? j) →
      (tops.foldl (fun d c => (d.removeSubtree c).2) dk).core? j =
        if d.Below (gone ++ tops) j then none else d.core? j := by
    intro tops
    induction tops with
    | nil =>
      intro gone dk _ hk
      rw [List.append_nil]
      exact hk j
    | cons c tops ih =>
      intro gone dk htops hk
      obtain ⟨⟨hc, e, he⟩, hrest⟩ := List.forall_mem_cons.mp htops
      rw [List.foldl_cons, ih (gone ++ [c]) _ hrest (core?_removeSubtree_step hroot hc he hk),
        List.append_assoc]
      rfl
  have hnone : ∀ j, d.core? j = if d.Below [] j then none else d.core? j := by
    intro j
    rw [if_neg]
    rintro ⟨c, hc, -⟩
    cases hc
  exact hfrom tops [] d htops hnone

end Netlist.Diagram
