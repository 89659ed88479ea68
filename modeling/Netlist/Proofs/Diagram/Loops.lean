import Mathlib.Data.Nat.Find
import Netlist.Proofs.Diagram.Subtree

/-!
# A checked diagram has no loops

The check of a document looks for one witness of a loop. Here it is shown not to
miss any: the lowest element of a loop is found by going up from it, since a
loop has no more elements than there are slots.

- `exists_lap`: going up from an element of a loop leads back to it within as
  many steps as there are slots.
- `not_inside_self`, `validate_of_not_inside`: **a diagram passes the check iff no
  element is inside itself.**
- `nearestAncestor_eq_ok`: **in a diagram without loops the search upwards succeeds**,
  and what it finds is the nearest element.
-/

namespace Netlist.Diagram

variable {d : Diagram} {i j c p : Slot}

/-! ## Going up step by step -/

/-- The element some number of steps above a slot. -/
def ancestor? (d : Diagram) : Nat → Slot → Option Slot
  | 0, i => some i
  | n + 1, i => ((d.get? i).bind Element.parent).bind (ancestor? d n)

theorem bind_parent_eq_some : (d.get? i).bind Element.parent = some p ↔ d.HasParent i p :=
  Option.bind_eq_some_iff

theorem ancestor?_succ {n : Nat} :
    d.ancestor? (n + 1) i = some c ↔ ∃ p, d.HasParent i p ∧ d.ancestor? n p = some c := by
  rw [ancestor?, Option.bind_eq_some_iff]
  simp only [bind_parent_eq_some]

theorem ancestor?_add (m n : Nat) (i : Slot) :
    d.ancestor? (m + n) i = (d.ancestor? m i).bind (d.ancestor? n) := by
  induction m generalizing i with
  | zero =>
    rw [Nat.zero_add]
    rfl
  | succ m ih =>
    rw [Nat.succ_add, ancestor?, ancestor?, Option.bind_assoc ((d.get? i).bind Element.parent)]
    exact congrArg _ (funext ih)

/-- Being inside something is being some steps below it. -/
theorem inside_iff : d.Inside i c ↔ ∃ n, d.ancestor? (n + 1) i = some c := by
  constructor
  · intro h
    induction h using Relation.TransGen.head_induction_on with
    | single hp => exact ⟨0, ancestor?_succ.mpr ⟨c, hp, rfl⟩⟩
    | head hp _ ih =>
      obtain ⟨n, hn⟩ := ih
      exact ⟨n + 1, ancestor?_succ.mpr ⟨_, hp, hn⟩⟩
  · rintro ⟨n, hn⟩
    induction n generalizing i with
    | zero =>
      obtain ⟨p, hp, heq⟩ := ancestor?_succ.mp hn
      cases heq
      exact .single hp
    | succ n ih =>
      obtain ⟨p, hp, hn⟩ := ancestor?_succ.mp hn
      exact (ih hn).head hp

/-- Whatever is above an element of a loop leads back to it. -/
theorem Inside.returns (hloop : d.Inside i i) (h : d.Inside i j) : d.Inside j i := by
  have hup : ∀ {b p}, d.Inside b i → d.HasParent b p → d.Inside p i := by
    intro b p hb hp
    rcases hb.step hp with rfl | hin
    · exact hloop
    · exact hin
  induction h with
  | single hp => exact hup hloop hp
  | tail _ hp ih => exact hup ih hp

/-- **A lap of a loop has at most as many steps as there are slots.** -/
theorem exists_lap (h : d.Inside i i) : ∃ n < d.bound, d.ancestor? (n + 1) i = some i := by
  have hex := inside_iff.mp h
  classical
  -- A shortest lap meets no slot twice.
  let n := Nat.find hex
  have hn : d.ancestor? (n + 1) i = some i := Nat.find_spec hex
  have hrest : ∀ k ≤ n, ∃ a, d.ancestor? k i = some a ∧ d.ancestor? (n - k + 1) a = some i := by
    intro k hk
    rw [show n + 1 = k + (n - k + 1) by omega, ancestor?_add, Option.bind_eq_some_iff] at hn
    exact hn
  choose! f hf hback using hrest
  have hlive : ∀ k ≤ n, f k < d.bound := by
    intro k hk
    obtain ⟨p, ⟨e, he, -⟩, -⟩ := ancestor?_succ.mp (hback k hk)
    exact lt_bound_of_get? he
  have hdistinct : ∀ a b, a < b → b ≤ n → f a ≠ f b := by
    intro a b hab hb heq
    refine Nat.find_min hex (m := a + (n - b)) (by omega) ?_
    rw [show a + (n - b) + 1 = a + (n - b + 1) by omega, ancestor?_add, hf a (by omega), heq]
    exact hback b hb
  have hinj : Set.InjOn f (Finset.range (n + 1)) := by
    intro a ha b hb heq
    rw [Finset.coe_range, Set.mem_Iio] at ha hb
    rcases Nat.lt_trichotomy a b with hab | hab | hab
    · exact absurd heq (hdistinct a b hab (by omega))
    · exact hab
    · exact absurd heq.symm (hdistinct b a hab (by omega))
  have hcard : (Finset.range (n + 1)).card ≤ (Finset.range d.bound).card := by
    refine Finset.card_le_card_of_injOn f (fun k hk => ?_) hinj
    rw [Finset.coe_range, Set.mem_Iio] at hk ⊢
    exact hlive k (by omega)
  rw [Finset.card_range, Finset.card_range] at hcard
  exact ⟨n, hcard, hn⟩

/-! ## The check -/

theorem inside_of_mem_ascend {count : Nat} (h : c ∈ d.ascend count i) : d.Inside i c := by
  induction count generalizing i with
  | zero => cases h
  | succ count ih =>
    rw [ascend] at h
    split at h
    · rename_i p hp
      rw [bind_parent_eq_some] at hp
      split at h
      · rcases List.mem_cons.mp h with rfl | h
        · exact .single hp
        · exact (ih h).head hp
      · cases h
    · cases h

theorem mem_ascend {count n : Nat} (h : d.ancestor? (n + 1) i = some c) (hc : d.isLive c = true)
    (hn : n < count) : c ∈ d.ascend count i := by
  induction count generalizing n i with
  | zero => omega
  | succ count ih =>
    obtain ⟨p, hp, hrest⟩ := ancestor?_succ.mp h
    rw [ascend, bind_parent_eq_some.mpr hp]
    cases n with
    | zero =>
      cases hrest
      simp [hc]
    | succ n =>
      have hlive : d.isLive p = true := by
        obtain ⟨-, ⟨e, he, -⟩, -⟩ := ancestor?_succ.mp hrest
        exact isLive_iff.mpr ⟨e, he⟩
      simp only [hlive, if_true]
      exact List.mem_cons_of_mem p (ih hrest (by omega))

/-- The loop through an element is found. -/
theorem loopThrough?_of_inside (h : d.Inside i i) :
    d.loopThrough? i = some ((d.ascend d.bound i).takeWhile (· != i) ++ [i]) := by
  obtain ⟨n, hn, hlap⟩ := exists_lap h
  have hmem := mem_ascend hlap (isLive_iff.mpr h.live) hn
  rw [loopThrough?]
  exact if_pos (by simpa using hmem)

theorem inside_of_loopThrough? {loop : List Slot} (h : d.loopThrough? i = some loop) :
    d.Inside i i := by
  rw [loopThrough?] at h
  simp only [Option.ite_none_right_eq_some] at h
  exact inside_of_mem_ascend (by simpa using h.1)

/-- A diagram with a loop has a witness of one. -/
theorem loopWitness?_of_inside (h : d.Inside i i) : ∃ w, d.loopWitness? = some w := by
  classical
  have hex : ∃ j, d.Inside i j := ⟨i, h⟩
  -- The lowest element above `i` is the lowest of its loop.
  let m := Nat.find hex
  have him : d.Inside i m := Nat.find_spec hex
  have hmm : d.Inside m m := (h.returns him).trans him
  have hmin : ∀ j, d.Inside m j → m ≤ j := fun j hj => Nat.find_min' hex (him.trans hj)
  rw [loopWitness?]
  dsimp only
  split
  · exact ⟨_, rfl⟩
  have hlowest : m ∈ (d.select fun _ => true).filter fun i =>
      (d.loopThrough? i).any fun loop => loop.all (i ≤ ·) := by
    rw [List.mem_filter, mem_select, loopThrough?_of_inside hmm]
    obtain ⟨e, he⟩ := hmm.live
    refine ⟨⟨e, he, rfl⟩, ?_⟩
    simp only [Option.any_some, List.all_append, List.all_eq_true, decide_eq_true_eq,
      Bool.and_eq_true, List.all_cons, List.all_nil, Nat.le_refl, decide_true, and_true]
    exact fun j hj => hmin j (inside_of_mem_ascend (List.takeWhile_subset _ hj))
  obtain ⟨k, hk⟩ := Option.isSome_iff_exists.mp
    (List.getLast?_isSome.mpr (List.ne_nil_of_mem hlowest))
  have hmem := List.mem_of_getLast? hk
  rw [List.mem_filter, Option.any_eq_true] at hmem
  obtain ⟨-, loop, hloop, -⟩ := hmem
  obtain ⟨p, hp, -⟩ := Relation.TransGen.head'_iff.mp (inside_of_loopThrough? hloop)
  exact ⟨p, by rw [hk]; exact bind_parent_eq_some.mpr hp⟩

/-- **In a diagram that passes the check no element is inside itself.** -/
theorem not_inside_self (h : d.validate = .ok ()) : ¬ d.Inside i i := by
  intro hloop
  obtain ⟨w, hw⟩ := loopWitness?_of_inside hloop
  rw [validate, hw] at h
  exact cycleAt_ne_ok h

/-- **A diagram in which no element is inside itself passes the check.** -/
theorem validate_of_not_inside (h : ∀ i, ¬ d.Inside i i) : d.validate = .ok () := by
  have hnone : d.loopWitness? = none := by
    rw [loopWitness?]
    dsimp only
    split
    · rename_i i hfound
      have hself := List.find?_some hfound
      rw [Option.any_eq_true] at hself
      obtain ⟨e, he, hparent⟩ := hself
      exact absurd (.single ⟨e, he, beq_iff_eq.mp hparent⟩) (h i)
    · rw [List.filter_eq_nil_iff.mpr fun i _ hloop => ?_]
      · rfl
      · obtain ⟨loop, hloop, -⟩ := Option.any_eq_true _ _ |>.mp hloop
        exact h i (inside_of_loopThrough? hloop)
  rw [validate, hnone]

/-! ## Searching upwards -/

/-- Going up from an element of a diagram without loops ends, and meets the nearest
element that passes a test. -/
theorem find?_climb {t : Slot → Element → Bool} (hroot : d.Rooted)
    (hloop : ∀ i, ¬ d.Inside i i) {fuel : Nat} {seen : List Slot} (hnodup : seen.Nodup)
    (hseen : ∀ j ∈ seen, j < d.bound ∧ (j = i ∨ d.Inside j i)) (hfuel : d.bound < fuel + seen.length) :
    (d.climb fuel seen ((d.get? i).bind Element.parent)).loop = none ∧
      ∀ c, d.Nearest t i c → (d.climb fuel seen ((d.get? i).bind Element.parent)).ancestors.find?
        (fun a => (d.get? a).any (t a)) = some c := by
  induction fuel generalizing i seen with
  | zero =>
    -- The slots seen are distinct, so there cannot be more of them than were issued.
    have := length_le_bound hnodup fun j hj => (hseen j hj).1
    omega
  | succ fuel ih =>
    cases hparent : (d.get? i).bind Element.parent with
    | none =>
      rw [climb]
      · refine ⟨rfl, fun c hc => ?_⟩
        have hno : ∀ p, ¬ d.HasParent i p := fun p hp => by
          rw [bind_parent_eq_some.mpr hp] at hparent
          cases hparent
        cases hc with
        | hit hp _ _ => exact absurd hp (hno _)
        | skip hp _ _ _ => exact absurd hp (hno _)
      · intro h
        cases h
    | some a =>
      have hp : d.HasParent i a := bind_parent_eq_some.mp hparent
      rw [climb]
      cases ha : d.get? a with
      | none =>
        refine ⟨rfl, fun c hc => ?_⟩
        cases hc with
        | hit hp' here _ =>
          rw [hp.unique hp', here] at ha
          cases ha
        | skip hp' here _ _ =>
          rw [hp.unique hp', here] at ha
          cases ha
      | some e =>
        dsimp only
        have hnew : a ∉ seen := by
          intro hmem
          rcases (hseen a hmem).2 with rfl | hin
          · exact hloop a (.single hp)
          · exact hloop a (hin.tail hp)
        rw [if_neg (by simpa using hnew)]
        obtain ⟨hup, habove⟩ := ih (i := a) (List.nodup_cons.mpr ⟨hnew, hnodup⟩)
          (List.forall_mem_cons.mpr ⟨⟨lt_bound_of_get? ha, .inl rfl⟩, fun j hj => by
            obtain ⟨hlt, rfl | hin⟩ := hseen j hj
            · exact ⟨hlt, .inr (.single hp)⟩
            · exact ⟨hlt, .inr (hin.tail hp)⟩⟩)
          (by rw [List.length_cons]; omega)
        rw [ha, Option.bind_some] at hup habove
        have hhead : ∀ (above : List Slot), t a e = true →
            (a :: above).find? (fun a => (d.get? a).any (t a)) = some a := fun above ht =>
          List.find?_cons_of_pos (by rw [ha]; exact ht)
        refine ⟨by split <;> [rfl; exact hup], fun c hc => ?_⟩
        cases hc with
        | hit hp' here passes =>
          obtain rfl := hp.unique hp'
          rw [ha] at here
          cases here
          split <;> exact hhead _ passes
        | skip hp' here fails above =>
          obtain rfl := hp.unique hp'
          rw [ha] at here
          cases here
          rw [if_neg]
          · rw [List.find?_cons_of_neg (by rw [ha, Option.any_some, fails]; exact Bool.false_ne_true)]
            exact habove c above
          · rintro rfl
            cases above with
            | hit hp _ _ => exact hroot _ hp
            | skip hp _ _ _ => exact hroot _ hp

/-- **In a diagram without loops the search upwards succeeds, and finds the nearest element
that passes the test.** -/
theorem nearestAncestor_eq_ok {t : Slot → Element → Bool} (hroot : d.Rooted)
    (hloop : ∀ i, ¬ d.Inside i i) (i : Slot) :
    (∃ o, d.nearestAncestor i t = .ok o) ∧
      ∀ c, d.nearestAncestor i t = .ok (some c) ↔ d.Nearest t i c := by
  obtain ⟨hend, hfind⟩ := find?_climb (t := t) (i := i) hroot hloop List.nodup_nil
    (fun _ hj => nomatch hj) (Nat.lt_succ_self d.bound)
  refine ⟨?_, fun c => ⟨nearestAncestor_eq_some, fun hc => ?_⟩⟩
  · rw [nearestAncestor, lineage, hend]
    dsimp only
    split
    · exact ⟨_, rfl⟩
    · exact ⟨none, rfl⟩
  · rw [nearestAncestor, lineage, hfind c hc]

/-- The nearest element above another one is the same if the elements above it are. -/
theorem Nearest.congr {d' : Diagram} {t : Slot → Element → Bool} (h : d.Nearest t i c)
    (hsame : ∀ j e, j = i ∨ d.Inside i j → d.get? j = some e →
      ∃ e', d'.get? j = some e' ∧ e'.parent = e.parent ∧ t j e' = t j e) : d'.Nearest t i c := by
  induction h with
  | @hit i a e parent here passes =>
    obtain ⟨ei, hi, hparent⟩ := id parent
    obtain ⟨ei', hi', hparent', -⟩ := hsame i ei (.inl rfl) hi
    obtain ⟨e', he', -, ht⟩ := hsame a e (.inr (.single parent)) here
    exact .hit ⟨ei', hi', hparent'.trans hparent⟩ he' (ht.trans passes)
  | @skip i a r e parent here fails above ih =>
    obtain ⟨ei, hi, hparent⟩ := id parent
    obtain ⟨ei', hi', hparent', -⟩ := hsame i ei (.inl rfl) hi
    obtain ⟨e', he', -, ht⟩ := hsame a e (.inr (.single parent)) here
    refine .skip ⟨ei', hi', hparent'.trans hparent⟩ he' (ht.trans fails) (ih fun j e hj he => ?_)
    refine hsame j e (.inr ?_) he
    rcases hj with rfl | hj
    · exact .single parent
    · exact hj.head parent

/-- **The search upwards comes out the same in two diagrams without loops if the same
elements are nearest.** -/
theorem nearestAncestor_congr {d' : Diagram} {t : Slot → Element → Bool}
    (hroot : d.Rooted) (hroot' : d'.Rooted)
    (hloop : ∀ i, ¬ d.Inside i i) (hloop' : ∀ i, ¬ d'.Inside i i)
    (h : ∀ c, d'.Nearest t i c ↔ d.Nearest t i c) :
    d'.nearestAncestor i t = d.nearestAncestor i t := by
  obtain ⟨⟨o, ho⟩, hiff⟩ := nearestAncestor_eq_ok (t := t) hroot hloop i
  obtain ⟨⟨o', ho'⟩, hiff'⟩ := nearestAncestor_eq_ok (t := t) hroot' hloop' i
  have hsame : ∀ c, o' = some c ↔ o = some c := by
    intro c
    have := (hiff' c).trans ((h c).trans (hiff c).symm)
    simpa only [ho, ho', Except.ok.injEq] using this
  rw [ho, ho', Option.ext hsame]

end Netlist.Diagram
