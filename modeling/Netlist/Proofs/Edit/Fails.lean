import Netlist.Proofs.Edit.Runs

/-!
# Edits that fail

An edit that fails stops at its first failure, and leaves the diagram as far as the work
had come. What it leaves is said in the same way as for edits that succeed.

- `Edit.Fails m d f d'`: the edit `m` fails on `d` with the failure `f` and leaves `d'`.
  One lemma for each way to build an edit says when it fails.
- `Edit.runs_or_fails`: **every edit comes out in one of the two ways.**
- `Edit.Leaves R m`: either way, what `m` leaves is in the relation `R` to what it began
  with; `Edit.Leaves.bind`: so it is for chains.
-/

namespace Netlist.Edit

variable {ε δ α β : Type} {d d' : Diagram} {f : ε}

/-- An edit fails on `d` and leaves `d'`. -/
def Fails (m : Edit ε α) (d : Diagram) (f : ε) (d' : Diagram) : Prop :=
  (m.run d).result = .error f ∧ (m.run d).diagram = d'

/-- **Every edit succeeds or fails.** -/
theorem runs_or_fails (m : Edit ε α) (d : Diagram) :
    (∃ a d', Runs m d a d') ∨ ∃ f d', Fails m d f d' := by
  cases h : (m.run d).result with
  | ok a => exact .inl ⟨a, _, h, rfl⟩
  | error f => exact .inr ⟨f, _, h, rfl⟩

theorem Runs.not_fails {m : Edit ε α} {a : α} {d'' : Diagram} (h : Runs m d a d') :
    ¬ Fails m d f d'' := by
  intro hfails
  cases h.1.symm.trans hfails.1

theorem fails_pure {a : α} : ¬ Fails (Pure.pure a : Edit ε α) d f d' := by
  simp [Fails]

/-- A chain of two edits fails with the first failure. -/
theorem fails_bind {m : Edit ε α} {next : α → Edit ε β} {d'' : Diagram} :
    Fails (m >>= next) d f d'' ↔
      Fails m d f d'' ∨ ∃ a d', Runs m d a d' ∧ Fails (next a) d' f d'' := by
  simp only [Fails, Runs, run_bind]
  cases hm : m.run d with
  | mk result d' warnings =>
    cases result with
    | error e => simp
    | ok a =>
      constructor
      · intro h
        exact .inr ⟨a, d', ⟨rfl, rfl⟩, h⟩
      · rintro (⟨h, -⟩ | ⟨_, _, ⟨ha, rfl⟩, h⟩)
        · cases h
        · cases ha
          exact h

theorem fails_read {g : Diagram → α} : ¬ Fails (read g : Edit ε α) d f d' := by
  simp [Fails]

theorem fails_check {g : Diagram → Except ε α} : Fails (check g) d f d' ↔ g d = .error f ∧ d = d' := by
  simp [Fails]

theorem fails_update {g : Diagram → Diagram} : ¬ Fails (update g : Edit ε Unit) d f d' := by
  simp [Fails]

theorem fails_warn {w : Warning} : ¬ Fails (warn w : Edit ε Unit) d f d' := by
  simp [Fails, warn, run]

/-- A change that fails leaves the diagram as it is. -/
theorem fails_change {g : Diagram → Except ε (α × Diagram)} :
    Fails (change g) d f d' ↔ g d = .error f ∧ d = d' := by
  simp only [Fails, change, run]
  cases g d <;> simp

theorem fails_mapError {g : δ → ε} {m : Edit δ α} :
    Fails (mapError g m) d f d' ↔ ∃ e, Fails m d e d' ∧ g e = f := by
  simp only [Fails, mapError, run]
  cases (m d).result with
  | ok a => simp [Except.mapError]
  | error e =>
    simp only [Except.mapError, Except.error.injEq]
    constructor
    · rintro ⟨he, hd⟩
      exact ⟨e, ⟨rfl, hd⟩, he⟩
    · rintro ⟨e, ⟨rfl, hd⟩, he⟩
      exact ⟨he, hd⟩

/-- Work elsewhere leaves the diagram here as it is, failures included. -/
theorem fails_elsewhere {m : Edit ε α} {there : Diagram} :
    Fails (elsewhere m there) d f d' ↔ (∃ d'', Fails m there f d'') ∧ d = d' := by
  simp only [Fails, elsewhere, run]
  cases (m there).result <;> simp [Except.map]

/-! ## First steps -/

theorem fails_check_bind {g : Diagram → Except ε α} {next : α → Edit ε β} :
    Fails (check g >>= next) d f d' ↔
      (g d = .error f ∧ d = d') ∨ ∃ a, g d = .ok a ∧ Fails (next a) d f d' := by
  rw [fails_bind, fails_check]
  constructor
  · rintro (h | ⟨a, d₁, hrun, h⟩)
    · exact .inl h
    · obtain ⟨ha, rfl⟩ := runs_check.mp hrun
      exact .inr ⟨a, ha, h⟩
  · rintro (h | ⟨a, ha, h⟩)
    · exact .inl h
    · exact .inr ⟨a, d, runs_check.mpr ⟨ha, rfl⟩, h⟩

theorem fails_read_bind {g : Diagram → α} {next : α → Edit ε β} :
    Fails (read g >>= next) d f d' ↔ Fails (next (g d)) d f d' := by
  constructor
  · intro h
    obtain h | ⟨a, d₁, hrun, h⟩ := fails_bind.mp h
    · exact absurd h fails_read
    · obtain ⟨rfl, rfl⟩ := runs_read.mp hrun
      exact h
  · exact fun h => fails_bind.mpr (.inr ⟨g d, d, runs_read.mpr ⟨rfl, rfl⟩, h⟩)

theorem fails_update_bind {g : Diagram → Diagram} {next : Unit → Edit ε β} :
    Fails (update g >>= next) d f d' ↔ Fails (next ()) (g d) f d' := by
  constructor
  · intro h
    obtain h | ⟨_, d₁, hrun, h⟩ := fails_bind.mp h
    · exact absurd h fails_update
    · rw [runs_update.mp hrun]
      exact h
  · exact fun h => fails_bind.mpr (.inr ⟨(), g d, runs_update.mpr rfl, h⟩)

theorem fails_mapError_check_bind {g : Diagram → Except δ α} {k : δ → ε} {next : α → Edit ε β} :
    Fails (mapError k (check g) >>= next) d f d' ↔
      (∃ e, g d = .error e ∧ k e = f ∧ d = d') ∨ ∃ a, g d = .ok a ∧ Fails (next a) d f d' := by
  rw [fails_bind]
  constructor
  · rintro (h | ⟨a, d₁, hrun, h⟩)
    · obtain ⟨e, hcheck, hk⟩ := fails_mapError.mp h
      obtain ⟨he, hd⟩ := fails_check.mp hcheck
      exact .inl ⟨e, he, hk, hd⟩
    · obtain ⟨ha, rfl⟩ := runs_check.mp (runs_mapError.mp hrun)
      exact .inr ⟨a, ha, h⟩
  · rintro (⟨e, he, hk, hd⟩ | ⟨a, ha, h⟩)
    · exact .inl (fails_mapError.mpr ⟨e, fails_check.mpr ⟨he, hd⟩, hk⟩)
    · exact .inr ⟨a, d, runs_mapError.mpr (runs_check.mpr ⟨ha, rfl⟩), h⟩

/-! ## Either way -/

/-- Whichever way an edit comes out, what it leaves is related to what it began with. -/
def Leaves (R : Diagram → Diagram → Prop) (m : Edit ε α) : Prop := ∀ d, R d (m.run d).diagram

theorem leaves_iff {R : Diagram → Diagram → Prop} {m : Edit ε α} : Leaves R m ↔
    (∀ d a d', Runs m d a d' → R d d') ∧ ∀ d f d', Fails m d f d' → R d d' := by
  constructor
  · intro h
    constructor
    · rintro d a d' ⟨-, rfl⟩
      exact h d
    · rintro d f d' ⟨-, rfl⟩
      exact h d
  · rintro ⟨hruns, hfails⟩ d
    obtain ⟨a, d', h⟩ | ⟨f, d', h⟩ := runs_or_fails m d
    · rw [h.2]
      exact hruns d a d' h
    · rw [h.2]
      exact hfails d f d' h

/-- **A chain of edits leaves what each of them leaves.** -/
theorem Leaves.bind {R : Diagram → Diagram → Prop} {m : Edit ε α} {next : α → Edit ε β}
    (hm : Leaves R m) (htrans : ∀ d d₁ d', R d d₁ → R d₁ d' → R d d')
    (hnext : ∀ a, Leaves R (next a)) : Leaves R (m >>= next) := by
  obtain ⟨hruns, hfails⟩ := leaves_iff.mp hm
  refine leaves_iff.mpr ⟨fun d b d' h => ?_, fun d f d' h => ?_⟩
  · obtain ⟨a, d₁, hrun, h⟩ := runs_bind.mp h
    exact htrans d d₁ d' (hruns d a d₁ hrun) ((leaves_iff.mp (hnext a)).1 d₁ b d' h)
  · obtain h | ⟨a, d₁, hrun, h⟩ := fails_bind.mp h
    · exact hfails d f d' h
    · exact htrans d d₁ d' (hruns d a d₁ hrun) ((leaves_iff.mp (hnext a)).2 d₁ f d' h)

/-- What a chain leaves is left by its first edit, or by what comes after it. -/
theorem diagram_bind {P : Diagram → Prop} {m : Edit ε α} {next : α → Edit ε β}
    (h : P (m.run d).diagram) (hnext : ∀ a d₁, Runs m d a d₁ → P ((next a).run d₁).diagram) :
    P ((m >>= next).run d).diagram := by
  obtain ⟨b, d', hrun⟩ | ⟨f, d', hfails⟩ := runs_or_fails (m >>= next) d
  · obtain ⟨a, d₁, ha, hb⟩ := runs_bind.mp hrun
    rw [hrun.2, ← hb.2]
    exact hnext a d₁ ha
  · rw [hfails.2]
    obtain hm | ⟨a, d₁, ha, hb⟩ := fails_bind.mp hfails
    · exact hm.2 ▸ h
    · exact hb.2 ▸ hnext a d₁ ha

/-- Putting a result in another way leaves the diagram alone. -/
theorem diagram_bind_pure {P : Diagram → Prop} {m : Edit ε α} {f : α → β} (h : P (m.run d).diagram) :
    P ((m >>= fun a => Pure.pure (f a)).run d).diagram :=
  diagram_bind h fun _ _ hrun => hrun.2 ▸ h

/-- A change that fails leaves what there was. -/
theorem leaves_change {R : Diagram → Diagram → Prop} {g : Diagram → Except ε (α × Diagram)}
    (hrefl : ∀ d, R d d) (h : ∀ d a d', g d = .ok (a, d') → R d d') : Leaves R (change g) := by
  refine leaves_iff.mpr ⟨fun d a d' hrun => h d a d' (runs_change.mp hrun), fun d f d' hfails => ?_⟩
  obtain ⟨-, rfl⟩ := fails_change.mp hfails
  exact hrefl d

/-- **A loop leaves what its items leave.** -/
theorem leaves_forEach {R : Diagram → Diagram → Prop} {g : β → Edit ε α} {bs : List β}
    (hrefl : ∀ d, R d d) (htrans : ∀ d d₁ d', R d d₁ → R d₁ d' → R d d')
    (h : ∀ b ∈ bs, Leaves R (g b)) : Leaves R (forEach g bs) := by
  induction bs with
  | nil => exact hrefl
  | cons b bs ih =>
    refine Leaves.bind (h b List.mem_cons_self) htrans fun a => ?_
    exact Leaves.bind (ih fun c hc => h c (List.mem_cons_of_mem b hc)) htrans fun _ => hrefl

end Netlist.Edit
