import Netlist.Proofs.Assembly.Copying
import Netlist.Proofs.Identity

/-!
# When a drawing can be copied

Every copy gets a new identity, and the same one as an earlier copy if the originals
have the same. So copying succeeds if the originals are there and have identities of
their own, and only then. Which slots the copies get and what the naming proposes does
not matter for this.

- `Copyable`: originals that are there, with distinct identities.
- `copyAll_succeeds_iff`: **copying succeeds iff the originals are copyable.**
-/

namespace Netlist.Assembly

variable {d d' drawing : Diagram} {s : Slot} {naming : Naming} {owner : Locator}
  {table : Substitution} {order : List Slot} {drawn : Element}

/-- Originals that are there, with distinct identities. -/
structure Copyable (drawing : Diagram) (order : List Slot) : Prop where
  drawn : ∀ i ∈ order, ∃ e, drawing.get? i = some e
  distinct : order.Pairwise fun i j => ∀ e e', drawing.get? i = some e → drawing.get? j = some e' →
    e.id ≠ e'.id

/-- None of the listed originals has an identity with a stand-in. -/
def Unseen (table : Substitution) (drawing : Diagram) (order : List Slot) : Prop :=
  ∀ i ∈ order, ∀ e, drawing.get? i = some e → table.get? e.id = none

/-- Every stand-in is the identity of an element. -/
def StandsIn (table : Substitution) (d : Diagram) : Prop :=
  ∀ id standIn, table.get? id = some standIn → d.Taken standIn

/-! ## One copy -/

/-- The copy of an element before it is linked. -/
def looseCopy (s : Slot) (id : String) (drawn : Element) : Element :=
  { drawn with id := id, parent := some s, source := none, target := none, span := none }

theorem copyOne_runs_iff {r : Slot × Substitution} :
    Edit.Runs (copyOne naming s owner table drawn) d r d' ↔ ∃ id,
      table.substitute drawn.id (naming.fresh d) = (id, r.2) ∧
      d.insert (looseCopy s id drawn) = .ok (r.1, d') := by
  rw [copyOne, Edit.runs_read_bind]
  dsimp only
  rw [Edit.runs_bind]
  constructor
  · rintro ⟨slot, d₁, hchange, h⟩
    obtain ⟨rfl, rfl⟩ := Edit.runs_pure.mp h
    rw [Edit.runs_change, mapError_eq_ok] at hchange
    exact ⟨_, rfl, hchange⟩
  · rintro ⟨id, hsubstitute, hinsert⟩
    refine ⟨r.1, d', ?_, ?_⟩
    · rw [Edit.runs_change, mapError_eq_ok, hsubstitute]
      exact hinsert
    · rw [Edit.runs_pure, hsubstitute]
      exact ⟨rfl, rfl⟩

/-- An element whose identity has a stand-in cannot be copied: the stand-in is taken. -/
theorem unseen_of_copyOne {r : Slot × Substitution} (htable : StandsIn table d)
    (h : Edit.Runs (copyOne naming s owner table drawn) d r d') :
    table.get? drawn.id = none ∧ r.2 = table.add drawn.id (naming.fresh d) ∧ StandsIn r.2 d' := by
  obtain ⟨id, hsubstitute, hinsert⟩ := copyOne_runs_iff.mp h
  have hfree := Diagram.find?_of_insert hinsert
  rw [Diagram.find?_eq_none_iff] at hfree
  have hnone : table.get? drawn.id = none := by
    by_contra hsome
    obtain ⟨standIn, hstandIn⟩ := Option.ne_none_iff_exists'.mp hsome
    rw [Substitution.substitute_of_some hstandIn] at hsubstitute
    obtain ⟨rfl, -⟩ := Prod.mk.inj hsubstitute
    exact hfree (htable _ _ hstandIn)
  rw [Substitution.substitute_of_none hnone] at hsubstitute
  obtain ⟨rfl, htable'⟩ := Prod.mk.inj hsubstitute
  refine ⟨hnone, htable'.symm, fun k standIn hk => ?_⟩
  rw [Diagram.taken_insert hinsert]
  rw [← htable', Substitution.get?_add, Option.or_eq_some_iff] at hk
  rcases hk with hk | ⟨-, hk⟩
  · exact .inl (htable _ _ hk)
  · split at hk
    · cases hk
      exact .inr rfl
    · cases hk

/-- An element whose identity has no stand-in can be copied. -/
theorem exists_copyOne (h : table.get? drawn.id = none) : ∃ slot d',
    Edit.Runs (copyOne naming s owner table drawn) d
      (slot, table.add drawn.id (naming.fresh d)) d' := by
  have hfree : d.find? (looseCopy s (naming.fresh d) drawn).id = none := Naming.find?_fresh naming d
  obtain ⟨slot, d', hinsert⟩ := Diagram.exists_insert hfree
  exact ⟨slot, d', copyOne_runs_iff.mpr ⟨_, Substitution.substitute_of_none h, hinsert⟩⟩

/-! ## All copies -/

theorem copyAll_runs_cons {i : Slot} {copies : List (Slot × Slot)} :
    Edit.Runs (copyAll naming s owner drawing table (i :: order)) d copies d' ↔
      ∃ drawn copy table' later d₁, drawing.get? i = some drawn ∧
        Edit.Runs (copyOne naming s owner table drawn) d (copy, table') d₁ ∧
        Edit.Runs (copyAll naming s owner drawing table' order) d₁ later d' ∧
        copies = (i, copy) :: later := by
  rw [copyAll, Edit.runs_check_bind]
  constructor
  · rintro ⟨drawn, hfetch, h⟩
    rw [Edit.runs_bind] at h
    obtain ⟨⟨copy, table'⟩, d₁, hone, h⟩ := h
    rw [Edit.runs_bind] at h
    obtain ⟨later, d₂, hlater, h⟩ := h
    obtain ⟨rfl, rfl⟩ := Edit.runs_pure.mp h
    exact ⟨drawn, copy, table', later, d₁, Diagram.fetch_eq_ok.mp (mapError_eq_ok.mp hfetch), hone,
      hlater, rfl⟩
  · rintro ⟨drawn, copy, table', later, d₁, hdrawn, hone, hlater, rfl⟩
    refine ⟨drawn, mapError_eq_ok.mpr (Diagram.fetch_eq_ok.mpr hdrawn), ?_⟩
    rw [Edit.runs_bind]
    refine ⟨(copy, table'), d₁, hone, ?_⟩
    rw [Edit.runs_bind]
    exact ⟨later, d', hlater, Edit.runs_pure.mpr ⟨rfl, rfl⟩⟩

theorem copyable_of_copyAll {copies : List (Slot × Slot)} (htable : StandsIn table d)
    (h : Edit.Runs (copyAll naming s owner drawing table order) d copies d') :
    Copyable drawing order ∧ Unseen table drawing order := by
  induction order generalizing d table copies with
  | nil => exact ⟨⟨fun _ hi => (List.not_mem_nil hi).elim, .nil⟩, fun _ hi => (List.not_mem_nil hi).elim⟩
  | cons i order ih =>
    obtain ⟨drawn, copy, table', later, d₁, hdrawn, hone, hlater, rfl⟩ := copyAll_runs_cons.mp h
    obtain ⟨hnone, hadd, htable'⟩ := unseen_of_copyOne htable hone
    dsimp only at hadd htable'
    obtain ⟨⟨hlive, hdistinct⟩, hunseen⟩ := ih htable' hlater
    have hlater : ∀ j ∈ order, ∀ e, drawing.get? j = some e →
        table.get? e.id = none ∧ e.id ≠ drawn.id := by
      intro j hj e he
      have := hunseen j hj e he
      rw [hadd, Substitution.get?_add, Option.or_eq_none_iff] at this
      exact ⟨this.1, by simpa using this.2⟩
    refine ⟨⟨List.forall_mem_cons.mpr ⟨⟨drawn, hdrawn⟩, hlive⟩, List.pairwise_cons.mpr ⟨?_, hdistinct⟩⟩,
      List.forall_mem_cons.mpr ⟨fun e he => ?_, fun j hj e he => (hlater j hj e he).1⟩⟩
    · intro j hj e e' he he'
      rw [hdrawn] at he
      cases he
      exact (hlater j hj e' he').2.symm
    · rw [hdrawn] at he
      cases he
      exact hnone

theorem exists_copyAll (hcopyable : Copyable drawing order) (hunseen : Unseen table drawing order) :
    ∃ copies d', Edit.Runs (copyAll naming s owner drawing table order) d copies d' := by
  induction order generalizing d table with
  | nil => exact ⟨[], d, Edit.runs_pure.mpr ⟨rfl, rfl⟩⟩
  | cons i order ih =>
    obtain ⟨⟨⟨drawn, hdrawn⟩, hlive⟩, hdistinct⟩ :=
      And.intro (List.forall_mem_cons.mp hcopyable.drawn) (List.pairwise_cons.mp hcopyable.distinct)
    obtain ⟨hfirst, hunseen⟩ := List.forall_mem_cons.mp hunseen
    obtain ⟨copy, d₁, hone⟩ : ∃ copy d₁, Edit.Runs (copyOne naming s owner table drawn) d
        (copy, table.add drawn.id (naming.fresh d)) d₁ := exists_copyOne (hfirst drawn hdrawn)
    have hunseen' : Unseen (table.add drawn.id (naming.fresh d)) drawing order := by
      intro j hj e he
      rw [Substitution.get?_add, hunseen j hj e he,
        if_neg fun heq => hdistinct.1 j hj drawn e hdrawn he heq.symm]
      rfl
    obtain ⟨later, d', hlater⟩ := ih (d := d₁) ⟨hlive, hdistinct.2⟩ hunseen'
    exact ⟨(i, copy) :: later, d',
      copyAll_runs_cons.mpr ⟨drawn, copy, _, later, d₁, hdrawn, hone, hlater, rfl⟩⟩

/-- **Copying succeeds iff the originals are there and have distinct identities**, whatever
the naming proposes. -/
theorem copyAll_succeeds_iff (naming : Naming) (s : Slot) (owner : Locator) (d : Diagram) :
    (∃ copies d', Edit.Runs (copyAll naming s owner drawing .empty order) d copies d') ↔
      Copyable drawing order := by
  constructor
  · rintro ⟨copies, d', h⟩
    refine (copyable_of_copyAll (fun id standIn hnone => ?_) h).1
    have hempty : Substitution.empty.get? id = none := rfl
    rw [hempty] at hnone
    cases hnone
  · exact fun h => exists_copyAll h fun _ _ _ _ => rfl

end Netlist.Assembly
