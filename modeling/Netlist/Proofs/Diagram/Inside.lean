import Mathlib.Data.Finset.Card
import Mathlib.Data.Finset.Range
import Mathlib.Data.List.Find
import Mathlib.Logic.Relation
import Netlist.Diagram.Containment
import Netlist.Proofs.Edit.Runs

/-!
# Being inside an element

An element is inside the elements that are reached from it by going from parent
to parent. The queries of a diagram search for them with fuel; here they are
tied to the relation itself.

- `HasParent`, `Inside`: one step up, and one or more steps up.
- `mem_descendants`: **the descendants of a live element are the elements inside
  it**, whatever the parents look like.
- `Nearest`, `nearestAncestor_eq_some`: the nearest element above that passes a
  test, and what `nearestAncestor` finds.
- `lineage_of_extends`: new elements do not change the lineage of an old one.
-/

namespace Netlist.Diagram

variable {d d' : Diagram} {i j c p q : Slot}

/-! ## One step up -/

/-- The element in a slot has a parent. -/
def HasParent (d : Diagram) (i p : Slot) : Prop := ∃ e, d.get? i = some e ∧ e.parent = some p

/-- An element is inside another one, directly or not. -/
def Inside (d : Diagram) : Slot → Slot → Prop := Relation.TransGen d.HasParent

theorem lt_bound_of_get? {e : Element} (h : d.get? i = some e) : i < d.bound := by
  rw [get?, Option.join_eq_some_iff] at h
  exact (Array.getElem?_eq_some_iff.mp h).1

theorem get?_of_bound_le (h : d.bound ≤ i) : d.get? i = none := by
  cases hget : d.get? i with
  | none => rfl
  | some e => exact absurd (lt_bound_of_get? hget) (Nat.not_lt.mpr h)

theorem isLive_iff : d.isLive i = true ↔ ∃ e, d.get? i = some e := by
  rw [isLive, Option.isSome_iff_exists]

/-- An element has one parent. -/
theorem HasParent.unique (hp : d.HasParent i p) (hq : d.HasParent i q) : p = q := by
  obtain ⟨e, he, hp⟩ := hp
  obtain ⟨e', he', hq⟩ := hq
  rw [he] at he'
  cases he'
  rw [hp] at hq
  exact Option.some.inj hq

/-- What is inside something is live. -/
theorem Inside.live (h : d.Inside i c) : ∃ e, d.get? i = some e := by
  obtain ⟨p, ⟨e, he, -⟩, -⟩ := Relation.TransGen.head'_iff.mp h
  exact ⟨e, he⟩

/-- Being inside something is being directly inside it, or its parent being so. -/
theorem Inside.step (h : d.Inside i c) (hp : d.HasParent i p) : p = c ∨ d.Inside p c := by
  obtain ⟨q, hq, hrest⟩ := Relation.TransGen.head'_iff.mp h
  rw [hp.unique hq]
  rcases Relation.reflTransGen_iff_eq_or_transGen.mp hrest with heq | hin
  · exact .inl heq.symm
  · exact .inr hin

/-- The elements around an element are nested in each other. -/
theorem Inside.nested (hc : d.Inside i c) (hq : d.Inside i q) :
    c = q ∨ d.Inside c q ∨ d.Inside q c := by
  induction hc using Relation.TransGen.head_induction_on with
  | single hp =>
    rcases hq.step hp with heq | hin
    · exact .inl heq
    · exact .inr (.inl hin)
  | head hp hin ih =>
    rcases hq.step hp with rfl | hin'
    · exact .inr (.inr hin)
    · exact ih hin'

/-! ## Searching downwards -/

/-- The slots that a search can still meet. -/
def unseen (d : Diagram) (seen : List Slot) : Finset Slot := Finset.range d.bound \ seen.toFinset

/-- What a search adds when it looks at a slot: the unseen elements directly inside. -/
def news (d : Diagram) (i : Slot) (seen : List Slot) : List Slot :=
  (d.select fun e => e.parent == some i).filter (!seen.contains ·)

theorem mem_news {seen : List Slot} : j ∈ d.news i seen ↔ d.HasParent j i ∧ j ∉ seen := by
  simp [news, mem_select, HasParent]

theorem nodup_select (d : Diagram) (t : Element → Bool) : (d.select t).Nodup :=
  List.nodup_range.filter _

/-- The slots that are met at a step are no longer unseen. -/
theorem card_unseen_news (d : Diagram) (i : Slot) (seen : List Slot) :
    (d.unseen (d.news i seen ++ seen)).card + (d.news i seen).length = (d.unseen seen).card := by
  have hsub : (d.news i seen).toFinset ⊆ d.unseen seen := by
    intro j hj
    obtain ⟨⟨e, he, -⟩, hnot⟩ := mem_news.mp (List.mem_toFinset.mp hj)
    rw [unseen, Finset.mem_sdiff, Finset.mem_range, List.mem_toFinset]
    exact ⟨lt_bound_of_get? he, hnot⟩
  have hcard : (d.news i seen).toFinset.card = (d.news i seen).length :=
    List.toFinset_card_of_nodup ((nodup_select d _).filter _)
  have hsplit : d.unseen (d.news i seen ++ seen) = d.unseen seen \ (d.news i seen).toFinset := by
    ext j
    simp only [unseen, Finset.mem_sdiff, List.mem_toFinset, List.mem_append]
    tauto
  rw [hsplit, ← hcard, Finset.card_sdiff_add_card_eq_card hsub]

/-- Everything that is met is inside a slot the search started from, or was seen before. -/
theorem reach_sound (fuel : Nat) (pending seen : List Slot) :
    ∀ j ∈ d.reach fuel pending seen, j ∈ seen ∨ ∃ i ∈ pending, d.Inside j i := by
  induction fuel generalizing pending seen with
  | zero => exact fun j hj => .inl hj
  | succ fuel ih =>
    cases pending with
    | nil => exact fun j hj => .inl hj
    | cons i pending =>
      intro j hj
      rcases ih (d.news i seen ++ pending) (d.news i seen ++ seen) j hj with hseen | ⟨k, hk, hin⟩
      · rcases List.mem_append.mp hseen with hnew | hseen
        · exact .inr ⟨i, List.mem_cons_self, .single (mem_news.mp hnew).1⟩
        · exact .inl hseen
      · rcases List.mem_append.mp hk with hnew | hk
        · exact .inr ⟨i, List.mem_cons_self, hin.tail (mem_news.mp hnew).1⟩
        · exact .inr ⟨k, List.mem_cons_of_mem i hk, hin⟩

/-- A search with fuel for every pending and every unseen slot ends with a set
of slots that nothing leads out of. -/
theorem reach_closed {fuel : Nat} {pending seen : List Slot}
    (hfuel : pending.length + (d.unseen seen).card ≤ fuel)
    (hdone : ∀ i ∈ seen, i ∉ pending → ∀ j, d.HasParent j i → j ∈ seen) :
    (∀ i ∈ seen, i ∈ d.reach fuel pending seen) ∧
      ∀ i ∈ d.reach fuel pending seen, ∀ j, d.HasParent j i → j ∈ d.reach fuel pending seen := by
  induction fuel generalizing pending seen with
  | zero =>
    have hnil : pending = [] := List.eq_nil_of_length_eq_zero (by omega)
    subst hnil
    exact ⟨fun i hi => hi, fun i hi j hj => hdone i hi List.not_mem_nil j hj⟩
  | succ fuel ih =>
    cases pending with
    | nil => exact ⟨fun i hi => hi, fun i hi j hj => hdone i hi List.not_mem_nil j hj⟩
    | cons i pending =>
      have hcard := card_unseen_news d i seen
      -- One slot leaves the stack, and the new ones were not seen before.
      have hfuel' : (d.news i seen ++ pending).length +
          (d.unseen (d.news i seen ++ seen)).card ≤ fuel := by
        rw [List.length_append]
        rw [List.length_cons] at hfuel
        omega
      obtain ⟨hseen, hclosed⟩ := ih hfuel' (by
        intro k hk hnot j hj
        rw [List.mem_append, not_or] at hnot
        rw [List.mem_append]
        have hk : k ∈ seen := (List.mem_append.mp hk).resolve_left hnot.1
        by_cases hki : k = i
        · subst hki
          by_cases hjs : j ∈ seen
          · exact .inr hjs
          · exact .inl (mem_news.mpr ⟨hj, hjs⟩)
        · exact .inr (hdone k hk (by simp [hki, hnot.2]) j hj))
      exact ⟨fun k hk => hseen k (List.mem_append_right _ hk), hclosed⟩

/-- **The descendants of a live element are the elements inside it.** -/
theorem mem_descendants :
    i ∈ d.descendants c ↔ (∃ e, d.get? c = some e) ∧ i ≠ c ∧ d.Inside i c := by
  rw [descendants]
  by_cases hlive : d.isLive c
  · rw [if_pos hlive]
    obtain ⟨e, he⟩ := isLive_iff.mp hlive
    -- There is fuel for every slot that is not seen yet.
    have hfuel : [c].length + (d.unseen [c]).card ≤ d.bound + 1 := by
      have : (d.unseen [c]).card ≤ d.bound := by
        rw [← Finset.card_range d.bound]
        exact Finset.card_le_card Finset.sdiff_subset
      rw [List.length_singleton]
      omega
    obtain ⟨hseen, hclosed⟩ := reach_closed hfuel (by simp)
    simp only [List.mem_filter, List.mem_range, Bool.and_eq_true, bne_iff_ne,
      List.contains_iff_mem]
    constructor
    · rintro ⟨-, hne, hmem⟩
      refine ⟨⟨e, he⟩, hne, ?_⟩
      rcases reach_sound (d.bound + 1) [c] [c] i hmem with hi | ⟨k, hk, hin⟩
      · exact absurd (List.mem_singleton.mp hi) hne
      · rw [List.mem_singleton] at hk
        exact hk ▸ hin
    · rintro ⟨-, hne, hin⟩
      obtain ⟨e', he'⟩ := hin.live
      refine ⟨lt_bound_of_get? he', hne, ?_⟩
      clear he'
      induction hin using Relation.TransGen.head_induction_on with
      | single hp => exact hclosed c (hseen c (List.mem_singleton_self c)) _ hp
      | @head a b hp hin ih =>
        -- Downwards from the element every step was followed, since what is seen is closed.
        by_cases hb : b = c
        · subst hb
          exact hclosed b (hseen b (List.mem_singleton_self b)) _ hp
        · exact hclosed b (ih hb) _ hp
  · rw [if_neg hlive]
    constructor
    · intro h
      cases h
    · rintro ⟨hc, -, -⟩
      exact absurd (isLive_iff.mpr hc) hlive

theorem sorted_descendants (d : Diagram) (container : Slot) :
    (d.descendants container).Pairwise (· < ·) := by
  rw [descendants]
  split
  · exact List.pairwise_lt_range.filter _
  · exact .nil

/-! ## The nearest element above -/

/-- The nearest element above a slot that passes a test. -/
inductive Nearest (d : Diagram) (t : Slot → Element → Bool) : Slot → Slot → Prop
  | hit {i a : Slot} {e : Element} (parent : d.HasParent i a) (here : d.get? a = some e)
      (passes : t a e = true) : Nearest d t i a
  | skip {i a r : Slot} {e : Element} (parent : d.HasParent i a) (here : d.get? a = some e)
      (fails : t a e = false) (above : Nearest d t a r) : Nearest d t i r

theorem Nearest.inside {t : Slot → Element → Bool} (h : d.Nearest t i c) : d.Inside i c := by
  induction h with
  | hit parent _ _ => exact .single parent
  | skip parent _ _ _ ih => exact ih.head parent

theorem Nearest.passes {t : Slot → Element → Bool} (h : d.Nearest t i c) :
    ∃ e, d.get? c = some e ∧ t c e = true := by
  induction h with
  | hit _ here passes => exact ⟨_, here, passes⟩
  | skip _ _ _ _ ih => exact ih

/-- There is one nearest ancestor at most. -/
theorem Nearest.unique {t : Slot → Element → Bool} {c' : Slot} (h : d.Nearest t i c)
    (h' : d.Nearest t i c') : c = c' := by
  have hparent : ∀ {i a a' e e'}, d.HasParent i a → d.get? a = some e → d.HasParent i a' →
      d.get? a' = some e' → a = a' ∧ t a e = t a' e' := by
    intro i a a' e e' ha he ha' he'
    obtain rfl := ha.unique ha'
    rw [he] at he'
    cases he'
    exact ⟨rfl, rfl⟩
  induction h with
  | hit parent here passes =>
    cases h' with
    | hit parent' here' _ => exact (hparent parent here parent' here').1
    | skip parent' here' fails _ =>
      have hsame := (hparent parent here parent' here').2
      rw [passes, fails] at hsame
      cases hsame
  | skip parent here fails _ ih =>
    cases h' with
    | hit parent' here' passes =>
      have hsame := (hparent parent here parent' here').2
      rw [passes, fails] at hsame
      cases hsame
    | skip parent' here' _ above' =>
      obtain ⟨rfl, -⟩ := hparent parent here parent' here'
      exact ih above'

/-- Whatever passes the test above an element is the nearest, or around it. -/
theorem Nearest.least {t : Slot → Element → Bool} {e : Element} (h : d.Nearest t i c)
    (hin : d.Inside i q) (hq : d.get? q = some e) (ht : t q e = true) :
    q = c ∨ d.Inside c q := by
  induction h with
  | hit parent _ _ =>
    rcases hin.step parent with heq | hin
    · exact .inl heq.symm
    · exact .inr hin
  | @skip i a r e' parent here fails _ ih =>
    rcases hin.step parent with rfl | hin
    · rw [here] at hq
      cases hq
      rw [fails] at ht
      cases ht
    · exact ih hin

/-- A search upwards finds the nearest element that passes the test. -/
theorem climb_find? {t : Slot → Element → Bool} {fuel : Nat} {seen : List Slot}
    (hfind : (d.climb fuel seen ((d.get? i).bind Element.parent)).ancestors.find?
      (fun a => (d.get? a).any (t a)) = some c) : d.Nearest t i c := by
  induction fuel generalizing i seen with
  | zero =>
    rw [climb] at hfind
    cases hfind
  | succ fuel ih =>
    cases hparent : (d.get? i).bind Element.parent with
    | none =>
      rw [hparent, climb] at hfind
      · cases hfind
      · exact fun h => nomatch h
    | some a =>
      have hp : d.HasParent i a := by
        obtain ⟨e, he, hpar⟩ := Option.bind_eq_some_iff.mp hparent
        exact ⟨e, he, hpar⟩
      rw [hparent, climb] at hfind
      cases ha : d.get? a with
      | none =>
        rw [ha] at hfind
        cases hfind
      | some e =>
        simp only [ha] at hfind
        -- The first element above either passes the test or is passed over.
        cases hpass : t a e with
        | true =>
          split_ifs at hfind
          · cases hfind
          · rw [List.find?_cons_of_pos (by rw [ha]; exact hpass)] at hfind
            cases hfind
            exact .hit hp ha hpass
          · rw [List.find?_cons_of_pos (by rw [ha]; exact hpass)] at hfind
            cases hfind
            exact .hit hp ha hpass
        | false =>
          split_ifs at hfind
          · cases hfind
          · rw [List.find?_cons_of_neg (by rw [ha, Option.any_some, hpass]; decide)] at hfind
            cases hfind
          · rw [List.find?_cons_of_neg (by rw [ha, Option.any_some, hpass]; decide)] at hfind
            have habove : (d.climb fuel (a :: seen) ((d.get? a).bind Element.parent)).ancestors.find?
                (fun a => (d.get? a).any (t a)) = some c := by
              rw [ha]
              exact hfind
            exact .skip hp ha hpass (ih habove)

/-- A loop is never passed over. -/
theorem cycleAt_ne_ok {α : Type} {a : α} : d.cycleAt i ≠ .ok a := by
  rw [cycleAt]
  cases d.fetch i <;> exact fun h => nomatch h

/-- **What `nearestAncestor` finds is the nearest element above.** -/
theorem nearestAncestor_eq_some {t : Slot → Element → Bool}
    (h : d.nearestAncestor i t = .ok (some c)) : d.Nearest t i c := by
  rw [nearestAncestor] at h
  split at h
  · rename_i a hfind
    cases h
    exact climb_find? hfind
  · split at h
    · exact absurd h cycleAt_ne_ok
    · cases h

/-! ## More slots -/

/-- Every parent is a slot that was issued. -/
def Issued (d : Diagram) : Prop := ∀ i p, d.HasParent i p → p < d.bound

/-- A diagram that has the elements of another one in their slots, and new slots. -/
structure Extends (d d' : Diagram) : Prop where
  bound : d.bound ≤ d'.bound
  same : ∀ i < d.bound, d'.get? i = d.get? i

theorem length_le_bound {seen : List Slot} (hnodup : seen.Nodup) (hseen : ∀ j ∈ seen, j < d.bound) :
    seen.length ≤ d.bound := by
  rw [← List.toFinset_card_of_nodup hnodup, ← Finset.card_range d.bound]
  refine Finset.card_le_card fun j hj => ?_
  rw [Finset.mem_range]
  exact hseen j (List.mem_toFinset.mp hj)

/-- Climbing over old slots with enough fuel is not changed by new slots. -/
theorem climb_of_extends (h : Extends d d') (hissued : d.Issued) {fuel fuel' : Nat}
    {seen : List Slot} {o : Option Slot} (hnodup : seen.Nodup)
    (hseen : ∀ j ∈ seen, j < d.bound) (hfuel : d.bound < fuel + seen.length)
    (hle : fuel ≤ fuel') (ho : ∀ i, o = some i → i < d.bound) :
    d'.climb fuel' seen o = d.climb fuel seen o := by
  induction fuel generalizing fuel' seen o with
  | zero =>
    -- The slots seen are distinct, so there cannot be more of them than were issued.
    have := length_le_bound hnodup hseen
    omega
  | succ fuel ih =>
    obtain ⟨fuel', rfl⟩ : ∃ k, fuel' = k + 1 := ⟨fuel' - 1, by omega⟩
    cases o with
    | none => rw [climb, climb] <;> exact fun h => nomatch h
    | some i =>
      have hi := ho i rfl
      rw [climb, climb, h.same i hi]
      cases he : d.get? i with
      | none => rfl
      | some e =>
        dsimp only
        by_cases hmem : i ∈ seen
        · rw [if_pos (by simpa using hmem), if_pos (by simpa using hmem)]
        · have hup : d'.climb fuel' (i :: seen) e.parent = d.climb fuel (i :: seen) e.parent := by
            refine ih (List.nodup_cons.mpr ⟨hmem, hnodup⟩) (List.forall_mem_cons.mpr ⟨hi, hseen⟩)
              ?_ (by omega) fun p hp => hissued i p ⟨e, he, hp⟩
            rw [List.length_cons]
            omega
          rw [hup]

/-- **New slots do not change what is above an old one.** -/
theorem lineage_of_extends (h : Extends d d') (hissued : d.Issued) (hi : i < d.bound) :
    d'.lineage i = d.lineage i := by
  rw [lineage, lineage, h.same i hi]
  refine climb_of_extends h hissued List.nodup_nil (fun _ hj => nomatch hj) ?_
    (Nat.succ_le_succ h.bound) fun p hp => ?_
  · exact Nat.lt_succ_self d.bound
  · obtain ⟨e, he, hp⟩ := Option.bind_eq_some_iff.mp hp
    exact hissued i p ⟨e, he, hp⟩

/-- What is met on the way up from an old slot is an old slot. -/
theorem climb_lt_bound (hissued : d.Issued) {fuel : Nat} {seen : List Slot} {o : Option Slot}
    (ho : ∀ i, o = some i → i < d.bound) :
    ∀ a ∈ (d.climb fuel seen o).ancestors, a < d.bound := by
  induction fuel generalizing seen o with
  | zero =>
    rw [climb]
    exact fun _ hmem => nomatch hmem
  | succ fuel ih =>
    cases o with
    | none =>
      rw [climb]
      · exact fun _ hmem => nomatch hmem
      · exact fun h => nomatch h
    | some i =>
      rw [climb]
      cases he : d.get? i with
      | none => exact fun _ hmem => nomatch hmem
      | some e =>
        dsimp only
        split_ifs with hmem hroot
        · exact fun _ hmem => nomatch hmem
        · exact List.forall_mem_singleton.mpr (ho i rfl)
        · exact List.forall_mem_cons.mpr ⟨ho i rfl, ih fun p hp => hissued i p ⟨e, he, hp⟩⟩

/-- **New slots do not change the nearest element above an old one.** -/
theorem nearestAncestor_of_extends {t : Slot → Element → Bool} (h : Extends d d')
    (hissued : d.Issued) (hi : i < d.bound) (hnear : d.nearestAncestor i t = .ok (some c)) :
    d'.nearestAncestor i t = .ok (some c) := by
  have hfind : (d'.lineage i).ancestors.find? (fun a => (d'.get? a).any (t a)) =
      (d.lineage i).ancestors.find? fun a => (d.get? a).any (t a) := by
    rw [lineage_of_extends h hissued hi]
    refine List.find?_congr fun a ha => ?_
    rw [h.same a]
    refine climb_lt_bound hissued (fun p hp => ?_) a ha
    obtain ⟨e, he, hp⟩ := Option.bind_eq_some_iff.mp hp
    exact hissued i p ⟨e, he, hp⟩
  rw [nearestAncestor] at hnear ⊢
  rw [hfind]
  split at hnear
  · exact hnear
  · split at hnear
    · exact absurd hnear cycleAt_ne_ok
    · cases hnear

end Netlist.Diagram
