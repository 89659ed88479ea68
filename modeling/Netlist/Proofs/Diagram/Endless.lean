import Netlist.Proofs.Diagram.Enclosure
import Netlist.Proofs.Diagram.Loops

/-!
# Parents without an end

The parents above an element may run into a loop that the element is no part of. The search
upwards then goes once round the loop, and so it meets everything above the element before
it fails.

- `Endless`: the parents above an element never end.
- `exists_loop_of_endless`: **they run into a loop.**
- `nearestAncestor_eq_some_iff`: the search upwards finds what is nearest, loop or no loop.
- `nearestAncestor_eq_none_iff_nearest`, `nearestAncestor_eq_error_iff`: **where nothing
  passes, it fails iff the parents never end**, and it fails at an element of a loop.
-/

namespace Netlist.Diagram

variable {d : Diagram} {a c i j p : Slot} {fuel n : Nat} {seen : List Slot}
  {t : Slot → Element → Bool}

/-! ## Endless parents -/

/-- The parents above an element never end. -/
def Endless (d : Diagram) (i : Slot) : Prop := ∀ n, ∃ a, d.ancestor? n i = some a

/-- An element has as many parents above it as its parent, and one more. -/
theorem endless_iff_of_hasParent (hp : d.HasParent i p) : d.Endless i ↔ d.Endless p := by
  have hstep : ∀ n, d.ancestor? (n + 1) i = d.ancestor? n p := fun n => by
    rw [ancestor?, bind_parent_eq_some.mpr hp, Option.bind_some]
  constructor
  · intro h n
    rw [← hstep]
    exact h (n + 1)
  · intro h n
    cases n with
    | zero => exact ⟨i, rfl⟩
    | succ n =>
      rw [hstep]
      exact h n

/-- An element without a parent ends its line. -/
theorem not_endless_of_top (h : ∀ p, ¬ d.HasParent i p) : ¬ d.Endless i := by
  intro hend
  obtain ⟨a, ha⟩ := hend 1
  obtain ⟨p, hp, -⟩ := ancestor?_succ.mp ha
  exact h p hp

/-- Where every element of a set has a parent in it, no line ends. -/
theorem endless_of_closed (hclosed : ∀ j ∈ seen, ∃ p ∈ seen, d.HasParent j p) (hi : i ∈ seen) :
    d.Endless i := by
  intro n
  induction n generalizing i with
  | zero => exact ⟨i, rfl⟩
  | succ n ih =>
    obtain ⟨p, hp, hparent⟩ := hclosed i hi
    obtain ⟨a, ha⟩ := ih hp
    exact ⟨a, ancestor?_succ.mpr ⟨p, hparent, ha⟩⟩

/-- Above an element of a loop there is no end. -/
theorem Inside.endless (h : d.Inside i i) : d.Endless i := by
  have hup : ∀ n j, d.Inside j i → ∃ a, d.ancestor? n j = some a := by
    intro n
    induction n with
    | zero => exact fun j _ => ⟨j, rfl⟩
    | succ n ih =>
      intro j hj
      obtain ⟨p, hp, -⟩ := Relation.TransGen.head'_iff.mp hj
      have hin : d.Inside p i := by
        rcases hj.step hp with rfl | hin
        · exact h
        · exact hin
      obtain ⟨a, ha⟩ := ih p hin
      exact ⟨a, ancestor?_succ.mpr ⟨p, hp, ha⟩⟩
  exact fun n => hup n i h

/-! ## The way up -/

/-- The slots that a way up has gone through before it came to `i`: each has the next for
its parent. -/
structure Trail (d : Diagram) (i : Slot) (seen : List Slot) : Prop where
  nodup : seen.Nodup
  lt_bound : ∀ j ∈ seen, j < d.bound
  inside : ∀ j ∈ seen, j = i ∨ d.Inside j i
  next : ∀ j ∈ seen, j = i ∨ ∃ p ∈ seen, d.HasParent j p

theorem Trail.nil : Trail d i [] :=
  ⟨List.nodup_nil, fun _ hj => (nomatch hj), fun _ hj => (nomatch hj), fun _ hj => (nomatch hj)⟩

/-- A way up that goes on. -/
theorem Trail.cons {e : Element} (h : Trail d i seen) (hp : d.HasParent i p)
    (he : d.get? p = some e) (hnew : p ∉ seen) : Trail d p (p :: seen) where
  nodup := List.nodup_cons.mpr ⟨hnew, h.nodup⟩
  lt_bound := List.forall_mem_cons.mpr ⟨lt_bound_of_get? he, h.lt_bound⟩
  inside := by
    refine List.forall_mem_cons.mpr ⟨.inl rfl, fun j hj => .inr ?_⟩
    rcases h.inside j hj with rfl | hin
    · exact .single hp
    · exact hin.tail hp
  next := by
    refine List.forall_mem_cons.mpr ⟨.inl rfl, fun j hj => .inr ?_⟩
    rcases h.next j hj with rfl | ⟨q, hq, hparent⟩
    · exact ⟨p, List.mem_cons_self, hp⟩
    · exact ⟨q, List.mem_cons_of_mem p hq, hparent⟩

/-- A way up that comes back to itself goes on for ever. -/
theorem Trail.closed (h : Trail d i seen) (hp : d.HasParent i p) (hmem : p ∈ seen) :
    ∀ j ∈ seen, ∃ q ∈ seen, d.HasParent j q := by
  intro j hj
  rcases h.next j hj with rfl | hnext
  · exact ⟨p, hmem, hp⟩
  · exact hnext

theorem Trail.length_le (h : Trail d i seen) : seen.length ≤ d.bound :=
  length_le_bound h.nodup h.lt_bound

/-- The way up starts over at an element of a loop. -/
theorem Trail.inside_of_loop (h : Trail d i seen)
    (hloop : (d.climb fuel seen ((d.get? i).bind Element.parent)).loop = some a) :
    d.Inside a a := by
  induction fuel generalizing i seen with
  | zero => cases hloop
  | succ fuel ih =>
    rcases top_or_parent d i with htop | ⟨p, e, hp, he⟩
    · rw [climb_of_top htop] at hloop
      cases hloop
    · rw [climb_of_hasParent hp he] at hloop
      split_ifs at hloop with hmem hroot
      · cases hloop
        rcases h.inside a (List.contains_iff_mem.mp hmem) with rfl | hin
        · exact .single hp
        · exact hin.tail hp
      · exact ih (h.cons hp he (mt List.contains_iff_mem.mpr hmem)) hloop

/-- **The way up ends iff the parents do.** -/
theorem Trail.loop_eq_none_iff (h : Trail d i seen) (hroot : d.Rooted)
    (hfuel : d.bound < fuel + seen.length) :
    (d.climb fuel seen ((d.get? i).bind Element.parent)).loop = none ↔ ¬ d.Endless i := by
  induction fuel generalizing i seen with
  | zero =>
    have := h.length_le
    omega
  | succ fuel ih =>
    rcases top_or_parent d i with htop | ⟨p, e, hp, he⟩
    · rw [climb_of_top htop]
      refine ⟨fun _ hend => ?_, fun _ => rfl⟩
      -- Two steps up, there would have to be an element.
      obtain ⟨b, hb⟩ := hend 2
      obtain ⟨q, hq, hb⟩ := ancestor?_succ.mp hb
      obtain ⟨_, ⟨e, he, -⟩, -⟩ := ancestor?_succ.mp hb
      exact htop q e hq he
    · rw [climb_of_hasParent hp he, endless_iff_of_hasParent hp]
      split_ifs with hmem htop
      · have hmem := List.contains_iff_mem.mp hmem
        exact ⟨fun h => (nomatch h), fun hend => absurd (endless_of_closed (h.closed hp hmem) hmem) hend⟩
      · subst htop
        exact ⟨fun _ => not_endless_of_top hroot, fun _ => rfl⟩
      · refine ih (h.cons hp he (mt List.contains_iff_mem.mpr hmem)) ?_
        rw [List.length_cons]
        omega

/-- **The way up meets the nearest element that passes a test**, even if it never ends. -/
theorem Trail.find?_climb (h : Trail d i seen) (hroot : d.Rooted)
    (hfails : ∀ j ∈ seen, ∀ e, d.get? j = some e → t j e = false)
    (hfuel : d.bound < fuel + seen.length) (hc : d.Nearest t i c) :
    (d.climb fuel seen ((d.get? i).bind Element.parent)).ancestors.find?
      (fun a => (d.get? a).any (t a)) = some c := by
  induction fuel generalizing i seen with
  | zero =>
    have := h.length_le
    omega
  | succ fuel ih =>
    -- The nearest element is further up, so there is a parent to go to.
    obtain ⟨p, e, hp, he⟩ : ∃ p e, d.HasParent i p ∧ d.get? p = some e := by
      cases hc with
      | hit hp here _ => exact ⟨_, _, hp, here⟩
      | skip hp here _ _ => exact ⟨_, _, hp, here⟩
    rw [climb_of_hasParent hp he]
    by_cases hmem : p ∈ seen
    · -- Everything further up was seen, and failed the test.
      exfalso
      have hclosed := h.closed hp hmem
      have habove : ∀ q, d.Inside i q → q ∈ seen := by
        intro q hq
        induction hq with
        | single hq => exact hp.unique hq ▸ hmem
        | tail _ hq ih =>
          obtain ⟨r, hr, hparent⟩ := hclosed _ ih
          exact hparent.unique hq ▸ hr
      obtain ⟨e', he', hpasses⟩ := hc.passes
      rw [hfails c (habove c hc.inside) e' he'] at hpasses
      cases hpasses
    · rw [if_neg (mt List.contains_iff_mem.mp hmem)]
      cases hc with
      | hit hp' here passes =>
        obtain rfl := hp.unique hp'
        split_ifs <;> exact List.find?_cons_of_pos (by rw [here]; exact passes)
      | skip hp' here fails above =>
        obtain rfl := hp.unique hp'
        have hne : p ≠ root := by
          rintro rfl
          exact hroot.not_inside above.inside
        rw [if_neg hne, List.find?_cons_of_neg
          (by rw [here, Option.any_some, fails]; exact Bool.false_ne_true)]
        refine ih (h.cons hp he hmem) (List.forall_mem_cons.mpr ⟨fun e' he' => ?_, hfails⟩) ?_ above
        · cases here.symm.trans he'
          exact fails
        · rw [List.length_cons]
          omega

/-- **Parents that never end run into a loop.** -/
theorem exists_loop_of_endless (hroot : d.Rooted) (h : d.Endless i) :
    ∃ a, (d.lineage i).loop = some a ∧ d.Inside a a := by
  cases hloop : (d.lineage i).loop with
  | none => exact absurd h ((Trail.nil.loop_eq_none_iff hroot (Nat.lt_succ_self _)).mp hloop)
  | some a => exact ⟨a, rfl, Trail.nil.inside_of_loop hloop⟩

/-! ## The search upwards -/

/-- **The search upwards finds the nearest element that passes a test**, if there is one. -/
theorem nearestAncestor_eq_some_iff (hroot : d.Rooted) :
    d.nearestAncestor i t = .ok (some c) ↔ d.Nearest t i c := by
  refine ⟨nearestAncestor_eq_some, fun hc => ?_⟩
  rw [nearestAncestor, lineage,
    Trail.nil.find?_climb hroot (List.forall_mem_nil _) (Nat.lt_succ_self _) hc]

/-- What the search upwards comes to where no element passes. -/
theorem nearestAncestor_of_not_nearest (h : ∀ c, ¬ d.Nearest t i c) :
    d.nearestAncestor i t = match (d.lineage i).loop with
      | some a => d.cycleAt a
      | none => .ok none := by
  rw [nearestAncestor]
  split
  · rename_i a hfind
    exact absurd (climb_find? hfind) (h a)
  · rfl

/-- **Nothing is found iff the parents end and no element above passes.** -/
theorem nearestAncestor_eq_none_iff_nearest (hroot : d.Rooted) :
    d.nearestAncestor i t = .ok none ↔ ¬ d.Endless i ∧ ∀ c, ¬ d.Nearest t i c := by
  have hend := Trail.nil.loop_eq_none_iff (i := i) hroot (Nat.lt_succ_self d.bound)
  constructor
  · intro h
    have hnone : ∀ c, ¬ d.Nearest t i c := fun c hc => by
      rw [(nearestAncestor_eq_some_iff hroot).mpr hc] at h
      cases h
    rw [nearestAncestor_of_not_nearest hnone] at h
    split at h
    · exact absurd h cycleAt_ne_ok
    · rename_i hloop
      exact ⟨hend.mp hloop, hnone⟩
  · rintro ⟨hloop, hnone⟩
    rw [nearestAncestor_of_not_nearest hnone, lineage, hend.mpr hloop]

/-- **The search upwards fails iff the parents never end and no element above passes.** -/
theorem nearestAncestor_eq_error_iff (hroot : d.Rooted) :
    (∃ f, d.nearestAncestor i t = .error f) ↔ d.Endless i ∧ ∀ c, ¬ d.Nearest t i c := by
  constructor
  · rintro ⟨f, h⟩
    have hnone : ∀ c, ¬ d.Nearest t i c := fun c hc => by
      rw [(nearestAncestor_eq_some_iff hroot).mpr hc] at h
      cases h
    refine ⟨?_, hnone⟩
    by_contra hend
    rw [(nearestAncestor_eq_none_iff_nearest hroot).mpr ⟨hend, hnone⟩] at h
    cases h
  · rintro ⟨hend, hnone⟩
    cases hresult : d.nearestAncestor i t with
    | error f => exact ⟨f, rfl⟩
    | ok o =>
      cases o with
      | none => exact absurd hend ((nearestAncestor_eq_none_iff_nearest hroot).mp hresult).1
      | some c => exact absurd ((nearestAncestor_eq_some_iff hroot).mp hresult) (hnone c)

/-! ## Reports of loops -/

/-- A fault that names an element of a loop. -/
def NamesLoop (d : Diagram) (f : Fault) : Prop :=
  ∃ i e, d.get? i = some e ∧ d.Inside i i ∧ f = .violation (.cyclicContainment e.locator)

theorem namesLoop_of_cycleAt {α : Type} {f : Fault} (hloop : d.Inside i i)
    (h : (d.cycleAt i : Except Fault α) = .error f) : d.NamesLoop f := by
  obtain ⟨e, he⟩ := hloop.live
  rw [cycleAt, fetch_eq_ok.mpr he] at h
  cases h
  exact ⟨i, e, he, hloop, rfl⟩

/-- **A search upwards that fails names an element of a loop.** -/
theorem namesLoop_of_nearestAncestor {f : Fault} (h : d.nearestAncestor i t = .error f) :
    d.NamesLoop f := by
  rw [nearestAncestor] at h
  split at h
  · cases h
  · split at h
    · rename_i hloop
      exact namesLoop_of_cycleAt (Trail.nil.inside_of_loop hloop) h
    · cases h

/-- The witness of a loop is an element of one. -/
theorem inside_of_loopWitness? (h : d.loopWitness? = some i) : d.Inside i i := by
  rw [loopWitness?] at h
  dsimp only at h
  split at h
  · rename_i j hfound
    cases h
    have hself := List.find?_some hfound
    rw [Option.any_eq_true] at hself
    obtain ⟨e, he, hparent⟩ := hself
    exact .single ⟨e, he, beq_iff_eq.mp hparent⟩
  · obtain ⟨j, hlast, hparent⟩ := Option.bind_eq_some_iff.mp h
    obtain ⟨-, hloop⟩ := List.mem_filter.mp (List.mem_of_getLast? hlast)
    obtain ⟨loop, hloop, -⟩ := (Option.any_eq_true _ _).mp hloop
    have hself := inside_of_loopThrough? hloop
    have hp : d.HasParent j i := bind_parent_eq_some.mp hparent
    exact (hself.returns (.single hp)).tail hp

/-- **A check that fails names an element of a loop.** -/
theorem namesLoop_of_validate {f : Fault} (h : d.validate = .error f) : d.NamesLoop f := by
  rw [validate] at h
  split at h
  · rename_i i hwitness
    exact namesLoop_of_cycleAt (inside_of_loopWitness? hwitness) h
  · cases h

/-- **A diagram passes the check iff the parents above every element end.** -/
theorem validate_eq_ok_iff (hroot : d.Rooted) : d.validate = .ok () ↔ ∀ i, ¬ d.Endless i := by
  constructor
  · intro h i hend
    obtain ⟨a, -, hloop⟩ := exists_loop_of_endless hroot hend
    exact not_inside_self h hloop
  · exact fun h => validate_of_not_inside fun i hloop => h i hloop.endless

end Netlist.Diagram
