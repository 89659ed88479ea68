import Netlist.Proofs.Assembly.Settled

/-!
# The turns of all instances

Instances have their turns in document order, and each one that is refreshed gets its
copies into slots that are newer than all slots before. So after all turns the new
elements of the super-network lie in the refreshed instances, in blocks that follow each
other as the instances do.

- `Blocks`: the new elements in blocks; `Blocks.turn`: **one turn adds one block.**
- `placeAll_settles`: **after all turns every instance is settled, and the new elements
  are in blocks.**
-/

namespace Netlist.Assembly

open Diagram (proper?_eq_some)

variable {x : Context} {d d₁ d' : Diagram} {s t i j q top base offset : Slot}
  {instances rest : List Slot} {e e' : Element} {p r : Placed} {done placed : List Placed}

/-! ## One turn -/

namespace Turned

variable (h : Turned x top s offset d p d₁) (hd : Orderly top instances d) (hs : s ∈ instances)

include h hd hs

theorem orderly : Orderly top instances d₁ :=
  hd.frame h.frame fun _ ht => Option.some.inj ht ▸ hs

/-- A new element of the super-network is in the instance whose turn it was. -/
theorem inside_of_new (he : d₁.proper? j = some e) (hj : d.bound ≤ j) (hin : d₁.Inside j top) :
    d₁.Inside j s := by
  have hd₁ := h.orderly hd hs
  have hup : ∀ {j k e}, d₁.proper? j = some e → d.bound ≤ j → d₁.HasParent j k →
      k = s ∨ d.bound ≤ k := by
    rintro j k e he hj ⟨e₀, he₀, hk⟩
    rw [(proper?_eq_some.mp he).1] at he₀
    cases he₀
    obtain ⟨-, k', hk', -, hnew⟩ := h.frame.new j e hj (proper?_eq_some.mp he).1
    rw [hk, Option.some.injEq] at hk'
    subst hk'
    exact (hnew (proper?_eq_some.mp he).2).imp (fun hmem => (Option.some.inj hmem).symm) id
  induction hin using Relation.TransGen.head_induction_on generalizing e with
  | single hp =>
    exfalso
    obtain ⟨y, hy, -⟩ := hd.top_live
    rcases hup he hj hp with rfl | hle
    · exact hd.loopless _ (hd.inside_top hs)
    · exact Nat.not_lt.mpr hle (Diagram.lt_bound_of_proper? hy)
  | head hp hin ih =>
    rcases hup he hj hp with rfl | hle
    · exact .single hp
    · obtain ⟨y, hy⟩ := Diagram.Inside.live hin
      exact (ih (proper?_eq_some.mpr ⟨hy, hd₁.bare _ _ y hp hy⟩) hle).head hp

omit hd hs in
/-- If the instance was kept, there are no new elements. -/
theorem wasRefreshed_of_new (he : d₁.proper? j = some e) (hj : d.bound ≤ j) :
    p.wasRefreshed = true := by
  by_contra hwas
  rw [Bool.not_eq_true] at hwas
  have hlt := Diagram.lt_bound_of_proper? he
  rw [h.kept hwas] at hlt
  exact Nat.not_lt.mpr hj hlt

/-- If the instance was refreshed, everything in it is new. -/
theorem new_of_inside (hwas : p.wasRefreshed = true) (he : d₁.proper? j = some e)
    (hin : d₁.Inside j s) : d.bound ≤ j := by
  obtain ⟨name, m, -, -, -, hfilled, -⟩ := h.refreshed hwas
  exact (hfilled.mem_block_iff.mp (hfilled.mem_of_inside (h.orderly hd hs).bare he hin)).1

/-- What is in another instance was there before. -/
theorem old_of_inside (ht : t ∈ instances) (hne : t ≠ s) (he : d₁.proper? j = some e)
    (hin : d₁.Inside j t) : d.Inside j t ∧ ∃ e, d.proper? j = some e := by
  have hd₁ := h.orderly hd hs
  have hj : j < d.bound := by
    by_contra hj
    have hnew := h.inside_of_new hd hs he (Nat.le_of_not_lt hj) (hin.trans (hd₁.inside_top ht))
    exact hd₁.apart ht hs hne hin hnew
  obtain ⟨e, he, -⟩ := h.frame.proper_old hj he
  exact ⟨h.frame.inside_old hd.issued hj hin, e, he⟩

/-- What was in another instance is still in it. -/
theorem inside_other (ht : t ∈ instances) (hne : t ≠ s) (he : d.proper? j = some e)
    (hin : d.Inside j t) : d₁.Inside j t := by
  refine h.frame.inside hd.bare (fun s' hs' hin' => ?_) he hin
  rw [Option.mem_def, Option.some.injEq] at hs'
  subst hs'
  exact hd.apart ht hs hne hin hin'

end Turned

/-! ## Blocks -/

/-- The elements of a super-network from some slot on are in the refreshed instances among
some, in one block after the other. -/
structure Blocks (base top : Slot) (done : List Placed) (d : Diagram) : Prop where
  within : ∀ j e, base ≤ j → d.proper? j = some e → d.Inside j top →
    ∃ p ∈ done, p.wasRefreshed = true ∧ d.Inside j p.slot
  above : ∀ p ∈ done, p.wasRefreshed = true → ∀ j e, d.proper? j = some e →
    d.Inside j p.slot → base ≤ j
  ordered : ∀ p ∈ done, ∀ r ∈ done, p.slot < r.slot → ∀ i j e e', base ≤ i → base ≤ j →
    d.proper? i = some e → d.proper? j = some e' → d.Inside i p.slot → d.Inside j r.slot → i < j

theorem Blocks.nil (top : Slot) (d : Diagram) : Blocks d.bound top [] d where
  within := fun _ _ hj he => absurd (Diagram.lt_bound_of_proper? he) (Nat.not_lt.mpr hj)
  above := fun _ hp => nomatch hp
  ordered := fun _ hp => nomatch hp

/-- **One turn adds one block.** -/
theorem Blocks.turn (h : Blocks base top done d) (hturn : Turned x top s offset d p d₁)
    (hd : Orderly top instances d) (hs : s ∈ instances) (hbase : base ≤ d.bound)
    (hdone : ∀ r ∈ done, r.slot ∈ instances ∧ r.slot < s) : Blocks base top (done ++ [p]) d₁ := by
  have hd₁ := hturn.orderly hd hs
  have hslot := hturn.slot
  have hne : ∀ {r}, r ∈ done → r.slot ≠ s := fun hr => Nat.ne_of_lt (hdone _ hr).2
  have hcases : ∀ {r}, r ∈ done ++ [p] → r ∈ done ∨ r = p := fun hr => by simpa using hr
  constructor
  case within =>
    intro j e hj he hin
    -- New elements belong to this turn, and old ones to the turns before.
    by_cases hnew : d.bound ≤ j
    · refine ⟨p, by simp, hturn.wasRefreshed_of_new he hnew, ?_⟩
      rw [hslot]
      exact hturn.inside_of_new hd hs he hnew hin
    · have hlt := Nat.lt_of_not_le hnew
      obtain ⟨e₀, he₀, -⟩ := hturn.frame.proper_old hlt he
      obtain ⟨r, hr, hwas, hinr⟩ := h.within j e₀ hj he₀ (hturn.frame.inside_old hd.issued hlt hin)
      exact ⟨r, List.mem_append_left _ hr, hwas,
        hturn.inside_other hd hs (hdone r hr).1 (hne hr) he₀ hinr⟩
  case above =>
    intro r hr hwas j e he hin
    rcases hcases hr with hr | rfl
    · obtain ⟨hin₀, e₀, he₀⟩ := hturn.old_of_inside hd hs (hdone r hr).1 (hne hr) he hin
      exact h.above r hr hwas j e₀ he₀ hin₀
    · exact Nat.le_trans hbase (hturn.new_of_inside hd hs hwas he (hslot ▸ hin))
  case ordered =>
    intro r hr r' hr' hlt i j e e' hi hj he he' hin hin'
    rcases hcases hr with hr | rfl
    · obtain ⟨hin₀, e₀, he₀⟩ := hturn.old_of_inside hd hs (hdone r hr).1 (hne hr) he hin
      rcases hcases hr' with hr' | rfl
      · -- Both instances had their turns before.
        obtain ⟨hin₀', e₀', he₀'⟩ := hturn.old_of_inside hd hs (hdone r' hr').1 (hne hr') he' hin'
        exact h.ordered r hr r' hr' hlt i j e₀ e₀' hi hj he₀ he₀' hin₀ hin₀'
      · rw [hslot] at hin'
        by_cases hnew : d.bound ≤ j
        · exact Nat.lt_of_lt_of_le (Diagram.lt_bound_of_proper? he₀) hnew
        · -- An old element from `base` on is in an instance that had its turn before.
          exfalso
          have hold := Nat.lt_of_not_le hnew
          obtain ⟨e₀', he₀', -⟩ := hturn.frame.proper_old hold he'
          have hin₀' := hturn.frame.inside_old hd.issued hold hin'
          obtain ⟨k, hk, -, hink⟩ := h.within j e₀' hj he₀' (hin₀'.trans (hd.inside_top hs))
          exact hd.apart (hdone k hk).1 hs (hne hk) hink hin₀'
    · rw [hslot] at hlt
      rcases hcases hr' with hr' | rfl
      · exact absurd hlt (Nat.lt_asymm (hdone r' hr').2)
      · exact absurd hlt (hslot ▸ Nat.lt_irrefl _)

/-- Blocks stay when a step that is nobody's turn adds nothing but super-ports. -/
theorem Blocks.frame (h : Blocks base top done d) (hframe : Frame none d d') (hissued : d.Issued)
    (hbare : d.BarePorts)
    (hnew : ∀ j e', d.bound ≤ j → d'.get? j = some e' → e'.role.isSuperPort = true) :
    Blocks base top done d' := by
  have hold : ∀ {j e'}, d'.proper? j = some e' → (∃ e, d.proper? j = some e) ∧
      ∀ q, d'.Inside j q ↔ d.Inside j q := by
    intro j e' he'
    obtain ⟨hget', hport'⟩ := proper?_eq_some.mp he'
    have hj : j < d.bound := by
      by_contra hj
      rw [hnew j e' (Nat.le_of_not_lt hj) hget'] at hport'
      cases hport'
    obtain ⟨e, he, -⟩ := hframe.proper_old hj he'
    exact ⟨⟨e, he⟩, fun q => ⟨hframe.inside_old hissued hj,
      hframe.inside hbare (clear_none d j) he⟩⟩
  constructor
  case within =>
    intro j e' hj he' hin
    obtain ⟨⟨e, he⟩, hsame⟩ := hold he'
    obtain ⟨p, hp, hwas, hinp⟩ := h.within j e hj he ((hsame top).mp hin)
    exact ⟨p, hp, hwas, (hsame p.slot).mpr hinp⟩
  case above =>
    intro p hp hwas j e' he' hin
    obtain ⟨⟨e, he⟩, hsame⟩ := hold he'
    exact h.above p hp hwas j e he ((hsame p.slot).mp hin)
  case ordered =>
    intro p hp r hr hlt i j e e' hi hj he he' hin hin'
    obtain ⟨⟨e₀, he₀⟩, hsame⟩ := hold he
    obtain ⟨⟨e₀', he₀'⟩, hsame'⟩ := hold he'
    exact h.ordered p hp r hr hlt i j e₀ e₀' hi hj he₀ he₀' ((hsame p.slot).mp hin)
      ((hsame' r.slot).mp hin')

/-! ## All turns -/

/-- What all turns do, from the turn of some instance on. -/
structure Finished (x : Context) (base top : Slot) (instances rest : List Slot)
    (done placed : List Placed) (d d' : Diagram) : Prop where
  orderly : Orderly top instances d'
  bound : d.bound ≤ d'.bound
  slots : placed.map Placed.slot = rest
  settled : ∀ p ∈ placed, Settled x top p d'
  blocks : Blocks base top (done ++ placed) d'
  others : ∀ p : Placed, p.slot ∈ instances → p.slot ∉ rest → Settled x top p d → Settled x top p d'
  apart : ∀ j e, d.proper? j = some e → (∀ s ∈ instances, ¬ d.Inside j s) →
    ∃ e', d'.proper? j = some e' ∧ Stays e e'

/-- **After all turns every instance is settled**, and the new elements are in blocks. -/
theorem placeAll_settles (hd : Orderly top instances d) (hshelf : Docked x.shelf)
    (hrest : ∀ s ∈ rest, s ∈ instances) (hsorted : rest.Pairwise (· < ·))
    (hdone : ∀ r ∈ done, r.slot ∈ instances ∧ ∀ s ∈ rest, r.slot < s) (hbase : base ≤ d.bound)
    (hblocks : Blocks base top done d) (h : Edit.Runs (placeAll x offset rest) d placed d') :
    Finished x base top instances rest done placed d d' := by
  induction rest generalizing d offset placed done with
  | nil =>
    obtain ⟨rfl, rfl⟩ := Edit.runs_pure.mp h
    rw [← List.append_nil done] at hblocks
    exact ⟨hd, Nat.le_refl _, rfl, fun p hp => (List.not_mem_nil hp).elim, hblocks,
      fun _ _ _ hp => hp, fun _ e he _ => ⟨e, he, ⟨rfl, rfl, rfl, rfl⟩⟩⟩
  | cons s rest ih =>
    obtain ⟨p, later, d₁, rfl, hplace, hlater⟩ := placeAll_runs_cons.mp h
    obtain ⟨hs, hrest⟩ := List.forall_mem_cons.mp hrest
    obtain ⟨hfirst, hsorted⟩ := List.pairwise_cons.mp hsorted
    have hturn := place_turned hd hs hshelf hplace
    have hd₁ := hturn.orderly hd hs
    have hblocks₁ := hblocks.turn hturn hd hs hbase fun r hr =>
      ⟨(hdone r hr).1, (hdone r hr).2 s List.mem_cons_self⟩
    have hdone₁ : ∀ r ∈ done ++ [p], r.slot ∈ instances ∧ ∀ t ∈ rest, r.slot < t := by
      intro r hr
      rcases List.mem_append.mp hr with hr | hr
      · exact ⟨(hdone r hr).1, fun t ht => (hdone r hr).2 t (List.mem_cons_of_mem s ht)⟩
      · obtain rfl := List.mem_singleton.mp hr
        rw [hturn.slot]
        exact ⟨hs, hfirst⟩
    have hrun := ih hd₁ hrest hsorted hdone₁ (Nat.le_trans hbase hturn.frame.bound) hblocks₁ hlater
    -- Later turns are those of instances further on, so they leave this one settled.
    have hslot : p.slot ∉ rest := fun hmem => Nat.lt_irrefl _ (hfirst _ (hturn.slot ▸ hmem))
    refine ⟨hrun.orderly, Nat.le_trans hturn.frame.bound hrun.bound, ?_, ?_, ?_, ?_, ?_⟩
    · rw [List.map_cons, hrun.slots, hturn.slot]
    · refine List.forall_mem_cons.mpr ⟨?_, hrun.settled⟩
      exact hrun.others p (hturn.slot ▸ hs) hslot hturn.settled
    · rw [List.append_cons]
      exact hrun.blocks
    · intro r hr hnot hsettled
      rw [List.mem_cons, not_or] at hnot
      refine hrun.others r hr hnot.2 (hsettled.frame hturn.frame hd hd₁ (fun t ht => ?_) hr)
      rw [Option.mem_def, Option.some.injEq] at ht
      exact ht ▸ ⟨hs, Ne.symm hnot.1⟩
    · intro j e he hout
      obtain ⟨e₁, he₁, hstays, -⟩ := hturn.frame.kept j e
        (fun t ht => hout t (Option.some.inj ht ▸ hs)) he
      obtain ⟨e', he', hstays'⟩ := hrun.apart j e₁ he₁ fun t ht hin => hout t ht
        (hturn.frame.inside_old hd.issued (Diagram.lt_bound_of_proper? he) hin)
      exact ⟨e', he', hstays.trans hstays'⟩

end Netlist.Assembly
