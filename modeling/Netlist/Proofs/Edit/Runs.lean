import Mathlib
import Netlist.Edit
import Netlist.Violation

/-!
# Runs of checks and edits

The stages are chains of checks (`Except`) and of edits (`Edit`). Reasoning
about a stage that succeeded starts by taking such a chain apart, which is what
the lemmas here do.

- `bind_eq_ok`, `bind_eq_error`: how a chain of two checks comes out.
- `Edit.Runs m d a d'`: the edit `m` succeeds on `d` with the value `a` and
  leaves `d'`. One lemma for each way to build an edit says when it runs.
- `Edit.Runs.forEach_invariant`: what every item of a loop preserves, the loop
  preserves.
-/

namespace Netlist

variable {ε δ α β : Type}

/-- A chain of two checks succeeds iff both do. -/
theorem bind_eq_ok {x : Except ε α} {next : α → Except ε β} {b : β} :
    (x >>= next) = .ok b ↔ ∃ a, x = .ok a ∧ next a = .ok b := by
  cases x with
  | error e =>
    constructor
    · intro h
      cases h
    · rintro ⟨_, h, -⟩
      cases h
  | ok a =>
    constructor
    · intro h
      exact ⟨a, rfl, h⟩
    · rintro ⟨a', ha, h⟩
      cases ha
      exact h

/-- A check that succeeds leaves the rest to do. -/
theorem ok_bind {a : α} {next : α → Except ε β} : (Except.ok a >>= next) = next a := rfl

/-- A chain of two checks fails with the first failure. -/
theorem bind_eq_error {x : Except ε α} {next : α → Except ε β} {e : ε} :
    (x >>= next) = .error e ↔ x = .error e ∨ ∃ a, x = .ok a ∧ next a = .error e := by
  cases x with
  | error e' =>
    constructor
    · intro h
      cases h
      exact .inl rfl
    · rintro (h | ⟨_, h, -⟩)
      · cases h
        rfl
      · cases h
  | ok a =>
    constructor
    · intro h
      exact .inr ⟨a, rfl, h⟩
    · rintro (h | ⟨a', ha, h⟩)
      · cases h
      · cases ha
        exact h

theorem map_bind_except {γ : Type} {x : Except ε α} {next : α → Except ε β} {f : β → γ} :
    (x >>= next).map f = x >>= fun a => (next a).map f := by
  cases x <;> rfl

/-- What follows on a check is the same if it only looks at what the checks agree on. -/
theorem bind_congr_map {γ : Type} {x x' : Except ε α} {f : α → γ} {next next' : α → Except ε β}
    (h : x'.map f = x.map f) (hnext : ∀ a a', f a' = f a → next' a' = next a) :
    (x' >>= next') = (x >>= next) := by
  cases x with
  | error e =>
    cases x' with
    | error e' => exact congrArg Except.error (Except.error.inj h)
    | ok a' => cases h
  | ok a =>
    cases x' with
    | error e' => cases h
    | ok a' => exact hnext a a' (Except.ok.inj h)

/-- Putting failures differently does not change successes. -/
theorem mapError_eq_ok {f : ε → δ} {x : Except ε α} {a : α} : x.mapError f = .ok a ↔ x = .ok a := by
  cases x <;> simp [Except.mapError]

theorem map_eq_ok {f : α → β} {x : Except ε α} {b : β} :
    x.map f = .ok b ↔ ∃ a, x = .ok a ∧ f a = b := by
  cases x <;> simp [Except.map]

theorem toOption_eq_some {x : Except ε α} {a : α} : x.toOption = some a ↔ x = .ok a := by
  cases x <;> simp [Except.toOption]

/-- A success whose value passes a test. -/
theorem exists_eq_ok {x : Except ε α} {p : α → Bool} (h : x.toOption.any p = true) :
    ∃ a, x = .ok a ∧ p a = true := by
  obtain ⟨a, ha, hp⟩ := Option.any_eq_true _ _ |>.mp h
  exact ⟨a, toOption_eq_some.mp ha, hp⟩

/-- A fetched element is the one in the slot. -/
theorem Diagram.fetch_eq_ok {d : Diagram} {i : Slot} {e : Element} :
    d.fetch i = .ok e ↔ d.get? i = some e := by
  rw [fetch]
  cases d.get? i <;> simp

namespace Edit

/-- An edit succeeds on `d` with a value and leaves `d'`. -/
def Runs (m : Edit ε α) (d : Diagram) (a : α) (d' : Diagram) : Prop :=
  (m.run d).result = .ok a ∧ (m.run d).diagram = d'

/-- An edit has one outcome. -/
theorem Runs.unique {m : Edit ε α} {d d₁ d₂ : Diagram} {a b : α} (h₁ : Runs m d a d₁)
    (h₂ : Runs m d b d₂) : a = b ∧ d₁ = d₂ :=
  ⟨Except.ok.inj (h₁.1.symm.trans h₂.1), h₁.2.symm.trans h₂.2⟩

/-- A run whose value passes a test. -/
theorem exists_runs {m : Edit ε α} {d : Diagram} {p : α → Bool}
    (h : (m.run d).result.toOption.any p = true) :
    ∃ a, p a = true ∧ Runs m d a (m.run d).diagram := by
  obtain ⟨a, ha, hp⟩ := exists_eq_ok h
  exact ⟨a, hp, ha, rfl⟩

theorem runs_pure {a b : α} {d d' : Diagram} :
    Runs (Pure.pure a : Edit ε α) d b d' ↔ a = b ∧ d = d' := by
  simp [Runs]

theorem runs_bind {m : Edit ε α} {next : α → Edit ε β} {d d'' : Diagram} {b : β} :
    Runs (m >>= next) d b d'' ↔ ∃ a d', Runs m d a d' ∧ Runs (next a) d' b d'' := by
  simp only [Runs, run_bind]
  cases hm : m.run d with
  | mk result d' warnings =>
    cases result with
    | error e => simp
    | ok a =>
      constructor
      · intro h
        exact ⟨a, d', ⟨rfl, rfl⟩, h⟩
      · rintro ⟨_, _, ⟨ha, rfl⟩, h⟩
        cases ha
        exact h

theorem runs_read {f : Diagram → α} {d d' : Diagram} {a : α} :
    Runs (read f : Edit ε α) d a d' ↔ f d = a ∧ d = d' := by
  simp [Runs]

theorem runs_check {f : Diagram → Except ε α} {d d' : Diagram} {a : α} :
    Runs (check f) d a d' ↔ f d = .ok a ∧ d = d' := by
  simp [Runs]

theorem runs_update {f : Diagram → Diagram} {d d' : Diagram} {u : Unit} :
    Runs (update f : Edit ε Unit) d u d' ↔ f d = d' := by
  simp [Runs]

theorem runs_warn {w : Warning} {d d' : Diagram} {u : Unit} :
    Runs (warn w : Edit ε Unit) d u d' ↔ d = d' := by
  simp [Runs, warn, run]

theorem runs_change {f : Diagram → Except ε (α × Diagram)} {d d' : Diagram} {a : α} :
    Runs (change f) d a d' ↔ f d = .ok (a, d') := by
  simp only [Runs, change, run]
  cases f d <;> simp [Prod.ext_iff]

theorem runs_mapError {f : ε → δ} {m : Edit ε α} {d d' : Diagram} {a : α} :
    Runs (mapError f m) d a d' ↔ Runs m d a d' := by
  simp only [Runs, mapError, run]
  cases (m d).result <;> simp [Except.mapError]

theorem runs_elsewhere {m : Edit ε α} {there d d' : Diagram} {r : α × Diagram} :
    Runs (elsewhere m there) d r d' ↔ Runs m there r.1 r.2 ∧ d = d' := by
  simp only [Runs, elsewhere, run]
  cases (m there).result <;> simp [Except.map, Prod.ext_iff]

/-! ### First steps -/

theorem runs_check_bind {f : Diagram → Except ε α} {next : α → Edit ε β} {d d' : Diagram} {b : β} :
    Runs (check f >>= next) d b d' ↔ ∃ a, f d = .ok a ∧ Runs (next a) d b d' := by
  rw [runs_bind]
  constructor
  · rintro ⟨a, d₁, hcheck, h⟩
    obtain ⟨ha, rfl⟩ := runs_check.mp hcheck
    exact ⟨a, ha, h⟩
  · rintro ⟨a, ha, h⟩
    exact ⟨a, d, runs_check.mpr ⟨ha, rfl⟩, h⟩

theorem runs_mapError_check_bind {f : Diagram → Except δ α} {g : δ → ε} {next : α → Edit ε β}
    {d d' : Diagram} {b : β} :
    Runs (mapError g (check f) >>= next) d b d' ↔ ∃ a, f d = .ok a ∧ Runs (next a) d b d' := by
  rw [runs_bind]
  constructor
  · rintro ⟨a, d₁, hcheck, h⟩
    obtain ⟨ha, rfl⟩ := runs_check.mp (runs_mapError.mp hcheck)
    exact ⟨a, ha, h⟩
  · rintro ⟨a, ha, h⟩
    exact ⟨a, d, runs_mapError.mpr (runs_check.mpr ⟨ha, rfl⟩), h⟩

theorem runs_read_bind {f : Diagram → α} {next : α → Edit ε β} {d d' : Diagram} {b : β} :
    Runs (read f >>= next) d b d' ↔ Runs (next (f d)) d b d' := by
  rw [runs_bind]
  constructor
  · rintro ⟨a, d₁, hread, h⟩
    obtain ⟨rfl, rfl⟩ := runs_read.mp hread
    exact h
  · exact fun h => ⟨f d, d, runs_read.mpr ⟨rfl, rfl⟩, h⟩

theorem runs_update_bind {f : Diagram → Diagram} {next : Unit → Edit ε β} {d d' : Diagram}
    {b : β} : Runs (update f >>= next) d b d' ↔ Runs (next ()) (f d) b d' := by
  rw [runs_bind]
  constructor
  · rintro ⟨_, d₁, hupdate, h⟩
    rw [runs_update.mp hupdate]
    exact h
  · exact fun h => ⟨(), f d, runs_update.mpr rfl, h⟩

theorem runs_warn_bind {w : Warning} {next : Unit → Edit ε β} {d d' : Diagram} {b : β} :
    Runs (warn w >>= next) d b d' ↔ Runs (next ()) d b d' := by
  rw [runs_bind]
  constructor
  · rintro ⟨_, d₁, hwarn, h⟩
    rw [runs_warn.mp hwarn]
    exact h
  · exact fun h => ⟨(), d, runs_warn.mpr rfl, h⟩

/-! ### Loops -/

theorem runs_forEach_nil {f : β → Edit ε α} {d d' : Diagram} {as : List α} :
    Runs (forEach f []) d as d' ↔ as = [] ∧ d = d' := by
  show Runs (Pure.pure []) d as d' ↔ _
  rw [runs_pure, eq_comm]

theorem runs_forEach_cons {f : β → Edit ε α} {b : β} {bs : List β} {d d'' : Diagram}
    {as : List α} :
    Runs (forEach f (b :: bs)) d as d'' ↔
      ∃ a d' rest, Runs (f b) d a d' ∧ Runs (forEach f bs) d' rest d'' ∧ as = a :: rest := by
  show Runs (f b >>= fun a => forEach f bs >>= fun rest => Pure.pure (a :: rest)) d as d'' ↔ _
  simp only [runs_bind, runs_pure]
  constructor
  · rintro ⟨a, d', ha, rest, d₁, hrest, rfl, rfl⟩
    exact ⟨a, d', rest, ha, hrest, rfl⟩
  · rintro ⟨a, d', rest, ha, hrest, rfl⟩
    exact ⟨a, d', ha, rest, d'', hrest, rfl, rfl⟩

/-- **What every item of a loop preserves, the loop preserves.** -/
theorem Runs.forEach_invariant {f : β → Edit ε α} {bs : List β} {d d' : Diagram} {as : List α}
    (P : Diagram → Prop) (h : Runs (forEach f bs) d as d')
    (hstep : ∀ b ∈ bs, ∀ d a d', P d → Runs (f b) d a d' → P d') (hd : P d) : P d' := by
  induction bs generalizing d as with
  | nil =>
    obtain ⟨-, rfl⟩ := runs_forEach_nil.mp h
    exact hd
  | cons b bs ih =>
    obtain ⟨a, d₁, rest, hb, hrest, -⟩ := runs_forEach_cons.mp h
    exact ih hrest (fun c hc => hstep c (List.mem_cons_of_mem b hc))
      (hstep b List.mem_cons_self d a d₁ hd hb)

end Edit

end Netlist
