import Netlist.Proofs.Diagram.Endless
import Netlist.Proofs.Strict.Lookup
import Netlist.Proofs.Strict.Sorting

/-!
# The queries of containment agree

Three searches answer questions about containment: a walk upwards with marks, a search
downwards and a sorting of all elements. Here they are tied to one notion, what lies above
an element, on every diagram whose root has no parent.

- `Above`: what the parents of an element lead to.
- `exists_nearest_iff_above`: looking for one element upwards finds it iff it lies above.
- `isDescendant_eq_true_iff`, `isDescendant_eq_false_iff`, `isDescendant_eq_error_iff`: the
  three answers to whether an element lies above another one.
- `queries_agree`: **the three searches say the same about every diagram**, and each of them
  fails only on a loop, of which it names an element.
-/

namespace Netlist.Strict

variable {d : Diagram} {c i : Slot} {f : Fault}

/-- Following parents from `i` through live elements leads to `c`. -/
def Above (d : Diagram) (c i : Slot) : Prop := d.Inside i c ∧ ∃ e, d.get? c = some e

/-! ## Looking for one element -/

theorem nearest_iff_above {a : Slot} :
    d.Nearest (fun b _ => b == c) i a ↔ a = c ∧ Above d c i := by
  constructor
  · intro h
    obtain ⟨e, he, hpasses⟩ := h.passes
    obtain rfl : a = c := beq_iff_eq.mp hpasses
    exact ⟨rfl, h.inside, e, he⟩
  · rintro ⟨rfl, hin, e, he⟩
    induction hin using Relation.TransGen.head_induction_on with
    | single hp => exact .hit hp he (beq_self_eq_true a)
    | @head j p hp hin ih =>
      obtain ⟨e', he'⟩ := Diagram.Inside.live hin
      by_cases hpa : p = a
      · subst hpa
        exact .hit hp he (beq_self_eq_true p)
      · exact .skip hp he' (beq_false_of_ne hpa) ih

theorem exists_nearest_iff_above :
    (∃ a, d.Nearest (fun b _ => b == c) i a) ↔ Above d c i := by
  simp only [nearest_iff_above, exists_eq_left]

/-- The answer is read off the search upwards. -/
theorem isDescendant_eq (d : Diagram) (i c : Slot) :
    isDescendant d i c = (d.nearestAncestor i fun a _ => a == c).map Option.isSome := by
  rw [isDescendant, nearestAncestor_eq]

theorem isDescendant_eq_true_iff (hroot : d.Rooted) :
    isDescendant d i c = .ok true ↔ Above d c i := by
  rw [isDescendant_eq, ← exists_nearest_iff_above]
  constructor
  · intro h
    cases hsearch : d.nearestAncestor i fun a _ => a == c with
    | error f =>
      rw [hsearch] at h
      cases h
    | ok found =>
      cases found with
      | none =>
        rw [hsearch] at h
        cases h
      | some a => exact ⟨a, (Diagram.nearestAncestor_eq_some_iff hroot).mp hsearch⟩
  · rintro ⟨a, ha⟩
    rw [(Diagram.nearestAncestor_eq_some_iff hroot).mpr ha]
    rfl

theorem isDescendant_eq_error (h : isDescendant d i c = .error f) :
    (d.nearestAncestor i fun a _ => a == c) = .error f := by
  rw [isDescendant_eq] at h
  cases hsearch : d.nearestAncestor i fun a _ => a == c with
  | error g =>
    rw [hsearch] at h
    cases h
    rfl
  | ok found =>
    rw [hsearch] at h
    cases h

/-- **The question fails iff the parents never end and do not lead there.** -/
theorem isDescendant_eq_error_iff (hroot : d.Rooted) :
    (∃ f, isDescendant d i c = .error f) ↔ d.Endless i ∧ ¬ Above d c i := by
  rw [← exists_nearest_iff_above, not_exists, ← Diagram.nearestAncestor_eq_error_iff hroot]
  constructor
  · rintro ⟨f, h⟩
    exact ⟨f, isDescendant_eq_error h⟩
  · rintro ⟨f, h⟩
    refine ⟨f, ?_⟩
    rw [isDescendant_eq, h]
    rfl

theorem isDescendant_eq_false_iff (hroot : d.Rooted) :
    isDescendant d i c = .ok false ↔ ¬ d.Endless i ∧ ¬ Above d c i := by
  rw [← isDescendant_eq_true_iff hroot]
  have herror := isDescendant_eq_error_iff (c := c) (i := i) hroot
  rw [← isDescendant_eq_true_iff hroot] at herror
  constructor
  · intro h
    refine ⟨fun hend => ?_, fun hyes => ?_⟩
    · obtain ⟨f, hf⟩ := herror.mpr ⟨hend, fun hyes => by cases h.symm.trans hyes⟩
      cases h.symm.trans hf
    · cases h.symm.trans hyes
  · rintro ⟨hend, hno⟩
    cases hanswer : isDescendant d i c with
    | error f => exact absurd (herror.mp ⟨f, hanswer⟩).1 hend
    | ok answer =>
      cases answer with
      | true => exact absurd hanswer hno
      | false => rfl

/-! ## All queries -/

/-- What the queries of a diagram say about each other. -/
structure Agreement (d : Diagram) : Prop where
  /-- Exactly what lies under an element is found inside it, in increasing order. -/
  descendants : ∀ c, ∃ found, Strict.descendants d c = .ok found ∧ found.Pairwise (· < ·) ∧
    ∀ i, i ≠ c → (i ∈ found ↔ Above d c i)
  /-- The answer is yes where an element lies above. -/
  yes : ∀ i c, isDescendant d i c = .ok true ↔ Above d c i
  /-- There is no answer where the parents go on for ever elsewhere. -/
  failure : ∀ i c, (∃ f, isDescendant d i c = .error f) ↔ d.Endless i ∧ ¬ Above d c i
  /-- The answer is no where the parents end elsewhere. -/
  no : ∀ i c, isDescendant d i c = .ok false ↔ ¬ d.Endless i ∧ ¬ Above d c i
  /-- A search upwards finds the first element that passes its test. -/
  nearest : ∀ i t c, nearestAncestor d i t = .ok (some c) ↔ d.Nearest t i c
  /-- A diagram passes the check where no parents go on for ever. -/
  check : validate d = .ok () ↔ ∀ i, d.isLive i = true → ¬ d.Endless i
  /-- After the check, every search has an answer. -/
  checked : validate d = .ok () →
    (∀ i t, ∃ found, nearestAncestor d i t = .ok found) ∧
      ∀ i c, ∃ answer, isDescendant d i c = .ok answer
  /-- Whatever fails names an element of a loop. -/
  named : ∀ f, (validate d = .error f ∨ (∃ i t, nearestAncestor d i t = .error f) ∨
    ∃ i c, isDescendant d i c = .error f) → d.NamesLoop f

/-- Only what is live can have endless parents. -/
theorem endless_live (h : d.Endless i) : d.isLive i = true := by
  obtain ⟨a, ha⟩ := h 1
  obtain ⟨p, ⟨e, he, -⟩, -⟩ := Diagram.ancestor?_succ.mp ha
  exact Diagram.isLive_iff.mpr ⟨e, he⟩

theorem validate_eq_ok_iff (hroot : d.Rooted) :
    validate d = .ok () ↔ ∀ i, d.isLive i = true → ¬ d.Endless i := by
  rw [validate_eq, Diagram.validate_eq_ok_iff hroot]
  exact ⟨fun h i _ => h i, fun h i hend => h i (endless_live hend) hend⟩

/-- **The queries agree with each other**, whether containment loops or not. -/
theorem queries_agree (hroot : d.Rooted) : Agreement d where
  descendants := by
    intro c
    refine ⟨d.descendants c, descendants_eq d c, Diagram.sorted_descendants d c, fun i hne => ?_⟩
    rw [Diagram.mem_descendants, Above]
    exact ⟨fun ⟨hc, _, hin⟩ => ⟨hin, hc⟩, fun ⟨hin, hc⟩ => ⟨hc, hne, hin⟩⟩
  yes := fun _ _ => isDescendant_eq_true_iff hroot
  failure := fun _ _ => isDescendant_eq_error_iff hroot
  no := fun _ _ => isDescendant_eq_false_iff hroot
  nearest := by
    intro i t c
    rw [nearestAncestor_eq]
    exact Diagram.nearestAncestor_eq_some_iff hroot
  check := validate_eq_ok_iff hroot
  checked := by
    intro h
    -- Once checked no way up is endless, so no query can run into a loop.
    have hend : ∀ i, ¬ d.Endless i := fun i hi =>
      (validate_eq_ok_iff hroot).mp h i (endless_live hi) hi
    constructor
    · intro i t
      rw [nearestAncestor_eq]
      cases hsearch : d.nearestAncestor i t with
      | ok found => exact ⟨found, rfl⟩
      | error f =>
        exact absurd ((Diagram.nearestAncestor_eq_error_iff hroot).mp ⟨f, hsearch⟩).1 (hend i)
    · intro i c
      cases hanswer : isDescendant d i c with
      | ok answer => exact ⟨answer, rfl⟩
      | error f => exact absurd ((isDescendant_eq_error_iff hroot).mp ⟨f, hanswer⟩).1 (hend i)
  named := by
    rintro f (h | ⟨i, t, h⟩ | ⟨i, c, h⟩)
    · rw [validate_eq] at h
      exact Diagram.namesLoop_of_validate h
    · rw [nearestAncestor_eq] at h
      exact Diagram.namesLoop_of_nearestAncestor h
    · exact Diagram.namesLoop_of_nearestAncestor (isDescendant_eq_error h)

/-! ## A loop with a tail -/

/-- Two networks inside each other, and a node inside one of them. -/
def tailed : Diagram :=
  let elements : List Element :=
    [{ id := "root", role := .root },
      { id := "left", role := .network .sub, label := "Left", parent := some 2 },
      { id := "right", role := .network .sub, label := "Right", parent := some 1 },
      { id := "node", role := .node .basic, label := "0", parent := some 2 }]
  ⟨(elements.map some).toArray⟩

theorem rooted_tailed : tailed.Rooted := by
  rintro p ⟨e, he, hp⟩
  cases he
  cases hp

/-- The node is inside both networks, and whether it is inside the root has no answer. -/
theorem queries_agree_tailed : tailed.Rooted ∧
    Above tailed 1 3 ∧ tailed.Endless 3 ∧ ¬ Above tailed Diagram.root 3 ∧
    (∃ f, validate tailed = .error f ∧ tailed.NamesLoop f) := by
  have hagree := queries_agree rooted_tailed
  have habove : Above tailed 1 3 := (hagree.yes 3 1).mp (by cbv)
  have hfails : ∃ f, isDescendant tailed 3 Diagram.root = .error f := ⟨_, by cbv⟩
  obtain ⟨hend, hnot⟩ := (hagree.failure 3 Diagram.root).mp hfails
  obtain ⟨f, hf⟩ : ∃ f, validate tailed = .error f := ⟨_, by cbv⟩
  exact ⟨rooted_tailed, habove, hend, hnot, f, hf, hagree.named f (.inl hf)⟩

end Netlist.Strict
