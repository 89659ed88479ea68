import Netlist.Proofs.Diagram.Loops
import Netlist.Proofs.Diagram.Sweep
import Netlist.Strict.Containment

/-!
# A search with marks finds what is inside

The search of the containment graph keeps one mark for each slot and has no fuel: each slot
gets its mark at most once.

- `Marked`: the marks are those of a list of slots.
- `Found`: what a search adds to the slots that were marked before; `search_eq_ok`: it always
  adds that.
- `descendants_eq`: **the search finds the descendants**, on every diagram.
-/

namespace Netlist.Strict

open Diagram (markAt news mem_news)

variable {d : Diagram} {i c : Slot} {marks : Array Bool} {seen pending slots : List Slot}

/-! ## Marks -/

/-- There is a mark for each slot, and it is set on the listed ones. -/
structure Marked (d : Diagram) (marks : Array Bool) (seen : List Slot) : Prop where
  size : marks.size = d.bound
  marked : ∀ j, marks[j]? = some true ↔ j ∈ seen

theorem marked_nil (d : Diagram) : Marked d (Array.replicate d.bound false) [] := by
  refine ⟨Array.size_replicate, fun j => ?_⟩
  simp [Array.getElem?_replicate]

theorem Marked.cons (h : Marked d marks seen) (hi : i < d.bound) :
    Marked d (marks.setIfInBounds i true) (i :: seen) where
  size := by rw [Array.size_setIfInBounds, h.size]
  marked := by
    intro j
    rw [List.mem_cons, Array.getElem?_setIfInBounds]
    by_cases hj : i = j
    · subst hj
      simp [h.size, hi]
    · rw [if_neg hj, h.marked]
      exact ⟨.inr, fun hmem => hmem.resolve_left (Ne.symm hj)⟩

/-- Marks of a list are marks of its members in any order. -/
theorem Marked.congr (h : Marked d marks seen) (hsame : ∀ j, j ∈ slots ↔ j ∈ seen) :
    Marked d marks slots := ⟨h.size, fun j => (h.marked j).trans (hsame j).symm⟩

/-- The mark of a slot tells whether it is listed. -/
theorem Marked.markAt (h : Marked d marks seen) (hi : i < d.bound) :
    Diagram.markAt marks i = .ok (decide (i ∈ seen)) := by
  rw [markAt_eq_ok]
  have hlt : i < marks.size := h.size ▸ hi
  have hget : marks[i]? = some marks[i] := Array.getElem?_eq_getElem hlt
  have hiff := h.marked i
  rw [hget, Option.some.injEq] at hiff
  rw [hget, Option.some.injEq, Bool.eq_iff_iff, hiff, decide_eq_true_eq]

theorem Marked.unmarked (h : Marked d marks seen) (hlt : ∀ i ∈ slots, i < d.bound) :
    Strict.unmarked marks slots = .ok (slots.filter (!seen.contains ·)) := by
  induction slots with
  | nil => rfl
  | cons i slots ih =>
    obtain ⟨hi, hlt⟩ := List.forall_mem_cons.mp hlt
    rw [Strict.unmarked, h.markAt hi, ih hlt, List.filter_cons]
    show Except.ok _ = Except.ok _
    by_cases hmem : i ∈ seen <;> simp [hmem]

/-- The elements directly inside a slot that have no mark. -/
theorem Marked.unmarked_below (h : Marked d marks seen) (i : Slot) :
    Strict.unmarked marks (below d i) = .ok (d.news i seen) :=
  h.unmarked fun _ hj => by
    obtain ⟨e, he, -⟩ := Diagram.mem_select.mp hj
    exact Diagram.lt_bound_of_get? he

/-! ## The search -/

/-- A slot that was met before is passed over. -/
theorem search_of_mem (h : Marked d marks seen) (hi : i < d.bound) (hmem : i ∈ seen) :
    search d marks (i :: pending) = search d marks pending := by
  have hmark := h.markAt hi
  rw [decide_eq_true hmem] at hmark
  rw [search]
  split
  · rename_i hmark'
    cases hmark.symm.trans hmark'
  · rfl
  · rename_i hmark'
    cases hmark.symm.trans hmark'

/-- A slot that is met for the first time is found, and what is inside it is next. -/
theorem search_of_not_mem (h : Marked d marks seen) (hi : i < d.bound) (hnew : i ∉ seen) :
    search d marks (i :: pending) =
      (search d (marks.setIfInBounds i true) (d.news i (i :: seen) ++ pending)).map (i :: ·) := by
  have hmark := h.markAt hi
  rw [decide_eq_false hnew] at hmark
  rw [search]
  split
  · rename_i hmark'
    cases hmark.symm.trans hmark'
  · rename_i hmark'
    cases hmark.symm.trans hmark'
  · rw [(h.cons hi).unmarked_below]
    rfl

/-- What a search from some slots finds, if others were met before. -/
structure Found (d : Diagram) (seen pending found : List Slot) : Prop where
  nodup : found.Nodup
  fresh : ∀ i ∈ found, i ∉ seen
  complete : ∀ i ∈ pending, i ∈ seen ∨ i ∈ found
  closed : ∀ i, i ∈ seen ∨ i ∈ found → ∀ j, d.HasParent j i → j ∈ seen ∨ j ∈ found
  sound : ∀ i ∈ found, ∃ p ∈ pending, i = p ∨ d.Inside i p

/-- A slot passed over has been met. -/
theorem Found.cons_of_mem {found : List Slot} (h : Found d seen pending found) (hmem : i ∈ seen) :
    Found d seen (i :: pending) found where
  nodup := h.nodup
  fresh := h.fresh
  complete := List.forall_mem_cons.mpr ⟨.inl hmem, h.complete⟩
  closed := h.closed
  sound := by
    intro j hj
    obtain ⟨p, hp, hin⟩ := h.sound j hj
    exact ⟨p, List.mem_cons_of_mem i hp, hin⟩

/-- A slot that is found brings what is inside it. -/
theorem Found.cons_of_not_mem {found : List Slot}
    (h : Found d (i :: seen) (d.news i (i :: seen) ++ pending) found) (hnew : i ∉ seen) :
    Found d seen (i :: pending) (i :: found) where
  nodup := List.nodup_cons.mpr ⟨fun hmem => h.fresh i hmem List.mem_cons_self, h.nodup⟩
  fresh := List.forall_mem_cons.mpr
    ⟨hnew, fun j hj hmem => h.fresh j hj (List.mem_cons_of_mem i hmem)⟩
  complete := by
    refine List.forall_mem_cons.mpr ⟨.inr List.mem_cons_self, fun j hj => ?_⟩
    rw [List.mem_cons, ← or_assoc, or_comm (a := j ∈ seen), ← List.mem_cons]
    exact h.complete j (List.mem_append_right _ hj)
  closed := by
    intro k hk j hj
    rw [List.mem_cons, ← or_assoc, or_comm (a := _ ∈ seen), ← List.mem_cons] at hk ⊢
    exact h.closed k hk j hj
  sound := by
    refine List.forall_mem_cons.mpr ⟨⟨i, List.mem_cons_self, .inl rfl⟩, fun j hj => ?_⟩
    obtain ⟨p, hp, hin⟩ := h.sound j hj
    rcases List.mem_append.mp hp with hp | hp
    · have hparent := (mem_news.mp hp).1
      refine ⟨i, List.mem_cons_self, .inr ?_⟩
      rcases hin with rfl | hin
      · exact .single hparent
      · exact hin.tail hparent
    · exact ⟨p, List.mem_cons_of_mem i hp, hin⟩

/-- **A search ends**, and finds everything that can be met. -/
theorem search_eq_ok (h : Marked d marks seen) (hlt : ∀ i ∈ pending, i < d.bound)
    (hclosed : ∀ i ∈ seen, ∀ j, d.HasParent j i → j ∈ seen ∨ j ∈ pending) :
    ∃ found, search d marks pending = .ok found ∧ Found d seen pending found := by
  induction marks, pending using search.induct generalizing seen with
  | case1 marks =>
    refine ⟨[], by rw [search], List.nodup_nil, fun _ hj => (nomatch hj), fun _ hj => (nomatch hj),
      fun i hi j hj => ?_, fun _ hj => (nomatch hj)⟩
    rcases hi with hi | hi
    · exact hclosed i hi j hj
    · cases hi
  | case2 marks i pending fault hmark =>
    rw [h.markAt (hlt i List.mem_cons_self)] at hmark
    cases hmark
  | case3 marks i pending hmark ih =>
    have hi := hlt i List.mem_cons_self
    -- The slot was met before, and nothing is added for it.
    rw [h.markAt hi, Except.ok.injEq, decide_eq_true_eq] at hmark
    obtain ⟨found, hfound, hspec⟩ := ih h (fun j hj => hlt j (List.mem_cons_of_mem i hj))
      fun k hk j hj => by
        rcases hclosed k hk j hj with hj | hj
        · exact .inl hj
        · rcases List.mem_cons.mp hj with rfl | hj
          · exact .inl hmark
          · exact .inr hj
    exact ⟨found, (search_of_mem h hi hmark).trans hfound, hspec.cons_of_mem hmark⟩
  | case4 marks i pending hmark ih =>
    have hi := hlt i List.mem_cons_self
    -- The slot is new, and what has it as its parent is put before the rest.
    rw [h.markAt hi, Except.ok.injEq, decide_eq_false_iff_not] at hmark
    obtain ⟨found, hfound, hspec⟩ := ih (d.news i (i :: seen)) (h.cons hi)
      (fun j hj => by
        rcases List.mem_append.mp hj with hj | hj
        · obtain ⟨⟨e, he, -⟩, -⟩ := mem_news.mp hj
          exact Diagram.lt_bound_of_get? he
        · exact hlt j (List.mem_cons_of_mem i hj))
      fun k hk j hj => by
        by_cases hmem : j ∈ i :: seen
        · exact .inl hmem
        refine .inr (List.mem_append.mpr ?_)
        rcases List.mem_cons.mp hk with rfl | hk
        · exact .inl (mem_news.mpr ⟨hj, hmem⟩)
        · rcases hclosed k hk j hj with hj | hj
          · exact absurd (List.mem_cons_of_mem i hj) hmem
          · rcases List.mem_cons.mp hj with rfl | hj
            · exact absurd List.mem_cons_self hmem
            · exact .inr hj
    refine ⟨i :: found, ?_, hspec.cons_of_not_mem hmark⟩
    rw [search_of_not_mem h hi hmark, hfound]
    rfl

/-- **The search finds the descendants.** -/
theorem descendants_eq (d : Diagram) (c : Slot) : descendants d c = .ok (d.descendants c) := by
  rw [descendants]
  by_cases hlive : d.isLive c = true
  · rw [if_pos hlive]
    have hc := Diagram.isLive_iff.mp hlive
    obtain ⟨e, he⟩ := hc
    have hlt : ∀ i ∈ [c], i < d.bound :=
      List.forall_mem_singleton.mpr (Diagram.lt_bound_of_get? he)
    obtain ⟨found, hfound, hspec⟩ := search_eq_ok (marked_nil d) hlt (fun _ hj => nomatch hj)
    -- Nothing leads out of what was found, so all that is inside is there.
    have hmem : ∀ j, j ∈ found ↔ j = c ∨ d.Inside j c := by
      intro j
      constructor
      · intro hj
        obtain ⟨p, hp, hin⟩ := hspec.sound j hj
        rwa [List.mem_singleton.mp hp] at hin
      · have htop := (hspec.complete c (List.mem_singleton_self c)).resolve_left List.not_mem_nil
        rintro (rfl | hin)
        · exact htop
        · induction hin using Relation.TransGen.head_induction_on with
          | single hp => exact (hspec.closed c (.inr htop) _ hp).resolve_left List.not_mem_nil
          | head hp _ ih => exact (hspec.closed _ (.inr ih) _ hp).resolve_left List.not_mem_nil
    rw [hfound]
    -- Both lists are sorted and without repetitions, so their members decide.
    refine congrArg Except.ok (List.Perm.eq_of_pairwise
      (fun a b _ _ (h : a ≤ b) (h' : b ≤ a) => Nat.le_antisymm h h') ?_ ?_ ?_)
    · exact List.pairwise_mergeSort' (· ≤ ·) _
    · exact (Diagram.sorted_descendants d c).imp Nat.le_of_lt
    · refine (List.mergeSort_perm _ _).trans ((List.perm_ext_iff_of_nodup ?_ ?_).mpr fun j => ?_)
      · exact hspec.nodup.filter _
      · exact (Diagram.sorted_descendants d c).imp Nat.ne_of_lt
      · rw [List.mem_filter, hmem, Diagram.mem_descendants, bne_iff_ne]
        constructor
        · rintro ⟨heq | hin, hne⟩
          · exact absurd heq hne
          · exact ⟨⟨e, he⟩, hne, hin⟩
        · exact fun ⟨_, hne, hin⟩ => ⟨.inr hin, hne⟩
  · rw [if_neg hlive, Diagram.descendants, if_neg hlive]

end Netlist.Strict
