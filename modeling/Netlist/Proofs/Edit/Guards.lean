import Netlist.Proofs.Edit.Fails

/-!
# Edits that check more than others

An edit with more checks than another one does the same as long as its checks pass. So
that the checks can be seen to pass step by step, the two edits are compared on one
diagram, and the diagrams that come next are those the edit leaves.

- `Never bad x`: a check that does not fail in the ways that `bad` names.
- `Edit.Guards bad d strict m`: on `d` the edit `strict` does what `m` does, and that does
  not fail in the ways that `bad` names.
- `Edit.Guards.bind`: **chains of edits are compared step by step.**
-/

namespace Netlist

variable {ε δ α β γ : Type} {bad : ε → Bool} {d : Diagram}

/-- A check that fails in no way that `bad` names. -/
def Never (bad : ε → Bool) (x : Except ε α) : Prop := ∀ f, x = .error f → bad f = false

theorem never_ok {a : α} : Never bad (.ok a : Except ε α) := fun _ h => nomatch h

theorem never_error {f : ε} (h : bad f = false) : Never bad (.error f : Except ε α) := by
  intro f' heq
  cases heq
  exact h

theorem Never.bind {x : Except ε α} {next : α → Except ε β} (h : Never bad x)
    (hnext : ∀ a, x = .ok a → Never bad (next a)) : Never bad (x >>= next) := by
  intro f hf
  rcases bind_eq_error.mp hf with hx | ⟨a, ha, hx⟩
  · exact h f hx
  · exact hnext a ha f hx

theorem Never.map {x : Except ε α} {g : α → β} (h : Never bad x) : Never bad (x.map g) := by
  cases x with
  | error f => exact never_error (h f rfl)
  | ok a => exact never_ok

/-- Failures may be put in a way that `worse` does not name. -/
theorem never_mapError {x : Except ε α} {worse : δ → Bool} {g : ε → δ}
    (hg : ∀ f, worse (g f) = false) : Never worse (x.mapError g) := by
  cases x with
  | error f => exact never_error (hg f)
  | ok a => exact never_ok

theorem Never.mapError {x : Except ε α} {worse : δ → Bool} {g : ε → δ} (h : Never bad x)
    (hg : ∀ f, bad f = false → worse (g f) = false) : Never worse (x.mapError g) := by
  cases x with
  | error f => exact never_error (hg f (h f rfl))
  | ok a => exact never_ok

/-- Two chains with the same first check are the same if they are from there on. -/
theorem bind_congr_ok {x : Except ε α} {next next' : α → Except ε β}
    (h : ∀ a, x = .ok a → next' a = next a) : (x >>= next') = x >>= next := by
  cases x with
  | error f => rfl
  | ok a => exact h a rfl

namespace Edit

/-- On `d` an edit does what `m` does, and that fails in no way that `bad` names. -/
structure Guards (bad : ε → Bool) (d : Diagram) (strict m : Edit ε α) : Prop where
  same : strict.run d = m.run d
  never : Never bad (m.run d).result

theorem guards_self {m : Edit ε α} (h : ∀ f d', Fails m d f d' → bad f = false) :
    Guards bad d m m :=
  ⟨rfl, fun f hf => h f _ ⟨hf, rfl⟩⟩

theorem guards_pure {a : α} : Guards bad d (Pure.pure a : Edit ε α) (Pure.pure a) :=
  ⟨rfl, never_ok⟩

/-- An edit that succeeds fails in no way. -/
theorem guards_of_runs {m : Edit ε α} {a : α} {d' : Diagram} (h : Runs m d a d') :
    Guards bad d m m := guards_self fun _ _ hfails => absurd hfails h.not_fails

/-- **Chains of edits are compared step by step.** -/
theorem Guards.bind {strict m : Edit ε α} {next next' : α → Edit ε β} (h : Guards bad d strict m)
    (hnext : ∀ a d', Runs m d a d' → Guards bad d' (next' a) (next a)) :
    Guards bad d (strict >>= next') (m >>= next) := by
  have hstep : ∀ a, (m.run d).result = .ok a → Guards bad (m.run d).diagram (next' a) (next a) :=
    fun a ha => hnext a _ ⟨ha, rfl⟩
  obtain ⟨hsame, hnever⟩ := h
  constructor
  · rw [run_bind, run_bind, hsame]
    revert hstep
    rcases m.run d with ⟨f | a, d', warnings⟩
    · exact fun _ => rfl
    · intro hstep
      dsimp only
      rw [(hstep a rfl).same]
  · rw [run_bind]
    revert hstep hnever
    rcases m.run d with ⟨f | a, d', warnings⟩
    · intro _ hnever f' hf'
      cases hf'
      exact hnever f rfl
    · exact fun hstep _ => (hstep a rfl).never

/-- Results may be put in another way. -/
theorem Guards.bind_pure {strict m : Edit ε α} {f : α → β} (h : Guards bad d strict m) :
    Guards bad d (strict >>= fun a => Pure.pure (f a)) (m >>= fun a => Pure.pure (f a)) :=
  h.bind fun _ _ _ => guards_pure

/-- Checks that come out alike can be followed by edits that are compared on the same diagram. -/
theorem Guards.check_bind {g g' : Diagram → Except ε α} {next next' : α → Edit ε β}
    (hsame : g' d = g d) (hnever : Never bad (g d))
    (hnext : ∀ a, g d = .ok a → Guards bad d (next' a) (next a)) :
    Guards bad d (check g' >>= next') (check g >>= next) := by
  refine .bind ⟨by rw [run_check, run_check, hsame], hnever⟩ fun a d' hrun => ?_
  obtain ⟨ha, rfl⟩ := runs_check.mp hrun
  exact hnext a ha

theorem guards_change {g g' : Diagram → Except ε (α × Diagram)} (hsame : g' d = g d)
    (hnever : Never bad (g d)) : Guards bad d (change g') (change g) := by
  constructor
  · simp only [change, run, hsame]
  · intro f hf
    simp only [change, run] at hf
    cases hg : g d with
    | ok r =>
      rw [hg] at hf
      cases hf
    | error f' =>
      rw [hg] at hf
      cases hf
      exact hnever f hg

/-- A further step that passes and does nothing is in nobody's way. -/
theorem Guards.idle_bind {step : Edit ε α} {next : α → Edit ε β} {m : Edit ε β} {a : α}
    (hstep : step.run d = ⟨.ok a, d, []⟩) (h : Guards bad d (next a) m) :
    Guards bad d (step >>= next) m := by
  refine ⟨?_, h.never⟩
  rw [run_bind, hstep]
  exact h.same

theorem Guards.idle_check_bind {g : Diagram → Except ε α} {next : α → Edit ε β} {m : Edit ε β}
    {a : α} (hg : g d = .ok a) (h : Guards bad d (next a) m) :
    Guards bad d (check g >>= next) m :=
  .idle_bind (by rw [run_check, hg]) h

theorem Guards.read_bind {g : Diagram → α} {next next' : α → Edit ε β}
    (h : Guards bad d (next' (g d)) (next (g d))) :
    Guards bad d (read g >>= next') (read g >>= next) := by
  refine .bind ⟨rfl, never_ok⟩ fun a d' hrun => ?_
  obtain ⟨rfl, rfl⟩ := runs_read.mp hrun
  exact h

theorem guards_update {g : Diagram → Diagram} : Guards bad d (update g) (update g) :=
  ⟨rfl, never_ok⟩

theorem Guards.update_bind {g : Diagram → Diagram} {next next' : Unit → Edit ε β}
    (h : Guards bad (g d) (next' ()) (next ())) :
    Guards bad d (update g >>= next') (update g >>= next) := by
  refine .bind ⟨rfl, never_ok⟩ fun _ d' hrun => ?_
  rw [← runs_update.mp hrun]
  exact h

theorem Guards.warn_bind {w : Warning} {next next' : Unit → Edit ε β}
    (h : Guards bad d (next' ()) (next ())) :
    Guards bad d (warn w >>= next') (warn w >>= next) := by
  refine .bind ⟨rfl, never_ok⟩ fun _ d' hrun => ?_
  rw [← runs_warn.mp hrun]
  exact h

theorem Guards.mapError {strict m : Edit ε α} {worse : δ → Bool} {g : ε → δ}
    (h : Guards bad d strict m) (hg : ∀ f, bad f = false → worse (g f) = false) :
    Guards worse d (mapError g strict) (mapError g m) := by
  constructor
  · show Outcome.mk ((strict.run d).result.mapError g) (strict.run d).diagram
      (strict.run d).warnings = ⟨(m.run d).result.mapError g, (m.run d).diagram, (m.run d).warnings⟩
    rw [h.same]
  · exact Never.mapError h.never hg

theorem Guards.elsewhere {strict m : Edit ε α} {there : Diagram} (h : Guards bad there strict m) :
    Guards bad d (elsewhere strict there) (elsewhere m there) := by
  constructor
  · show Outcome.mk ((strict.run there).result.map fun a => (a, (strict.run there).diagram)) d
      (strict.run there).warnings =
        ⟨(m.run there).result.map fun a => (a, (m.run there).diagram), d, (m.run there).warnings⟩
    rw [h.same]
  · exact Never.map h.never

/-- Loops are compared item by item. -/
theorem guards_forEach {g g' : β → Edit ε α} {bs : List β} (P : Diagram → Prop)
    (h : ∀ b ∈ bs, ∀ d, P d → Guards bad d (g' b) (g b))
    (hstep : ∀ b ∈ bs, ∀ d a d', P d → Runs (g b) d a d' → P d') (hd : P d) :
    Guards bad d (forEach g' bs) (forEach g bs) := by
  induction bs generalizing d with
  | nil => exact guards_pure
  | cons b bs ih =>
    refine Guards.bind (h b List.mem_cons_self d hd) fun a d₁ hrun => ?_
    exact .bind_pure (ih (fun c hc => h c (List.mem_cons_of_mem b hc))
      (fun c hc => hstep c (List.mem_cons_of_mem b hc)) (hstep b List.mem_cons_self d a d₁ hd hrun))

end Edit

end Netlist
