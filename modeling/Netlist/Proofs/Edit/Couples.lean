import Netlist.Proofs.Edit.Fails

/-!
# Two edits side by side

Two edits are compared by running them on two diagrams that are related. They go together
if they come out alike: both fail, and with the same failure, or both succeed, and then
their values and the diagrams they leave are related again.

- `Edit.Couples`: two edits that go together.
- `couples_bind`, `couples_forEach`: **chains and loops go together if their steps do.**
-/

namespace Netlist.Edit

variable {ε α α' β β' γ : Type} {before : Diagram → Diagram → Prop}

/-- From diagrams related by `before`, two edits both fail with the same failure, or both
succeed with values and diagrams related by `R`. -/
def Couples (before : Diagram → Diagram → Prop) (m : Edit ε α) (m' : Edit ε α')
    (R : α → α' → Diagram → Diagram → Prop) : Prop :=
  ∀ d d', before d d' →
    (∃ f e e', Fails m d f e ∧ Fails m' d' f e') ∨
      ∃ a a' e e', Runs m d a e ∧ Runs m' d' a' e' ∧ R a a' e e'

variable {m : Edit ε α} {m' : Edit ε α'} {R : α → α' → Diagram → Diagram → Prop}

/-- Edits that always succeed go together if their outcomes are related. -/
theorem couples_of_runs
    (h : ∀ d d', before d d' → ∃ a a' e e', Runs m d a e ∧ Runs m' d' a' e' ∧ R a a' e e') :
    Couples before m m' R := fun d d' hbefore => .inr (h d d' hbefore)

theorem couples_pure {a : α} {a' : α'} (h : ∀ d d', before d d' → R a a' d d') :
    Couples before (Pure.pure a : Edit ε α) (Pure.pure a') R :=
  couples_of_runs fun d d' hbefore =>
    ⟨a, a', d, d', runs_pure.mpr ⟨rfl, rfl⟩, runs_pure.mpr ⟨rfl, rfl⟩, h d d' hbefore⟩

/-- **Chains go together if their steps do.** -/
theorem couples_bind {next : α → Edit ε β} {next' : α' → Edit ε β'}
    {finally_ : β → β' → Diagram → Diagram → Prop} (h : Couples before m m' R)
    (hnext : ∀ a a', Couples (R a a') (next a) (next' a') finally_) :
    Couples before (m >>= next) (m' >>= next') finally_ := by
  intro d d' hbefore
  rcases h d d' hbefore with ⟨f, e, e', hfails, hfails'⟩ | ⟨a, a', e, e', hruns, hruns', hafter⟩
  · exact .inl ⟨f, e, e', fails_bind.mpr (.inl hfails), fails_bind.mpr (.inl hfails')⟩
  rcases hnext a a' e e' hafter with ⟨f, u, u', hfails, hfails'⟩ | ⟨b, b', u, u', hb, hb', hlast⟩
  · exact .inl ⟨f, u, u', fails_bind.mpr (.inr ⟨a, e, hruns, hfails⟩),
      fails_bind.mpr (.inr ⟨a', e', hruns', hfails'⟩)⟩
  · exact .inr ⟨b, b', u, u', runs_bind.mpr ⟨a, e, hruns, hb⟩, runs_bind.mpr ⟨a', e', hruns', hb'⟩,
      hlast⟩

/-- Checks go together if they come out alike. -/
theorem couples_check {g : Diagram → Except ε α} {g' : Diagram → Except ε α'}
    (h : ∀ d d', before d d' → (∃ f, g d = .error f ∧ g' d' = .error f) ∨
      ∃ a a', g d = .ok a ∧ g' d' = .ok a' ∧ R a a' d d') :
    Couples before (check g) (check g') R := by
  intro d d' hbefore
  rcases h d d' hbefore with ⟨f, hf, hf'⟩ | ⟨a, a', ha, ha', hafter⟩
  · exact .inl ⟨f, d, d', fails_check.mpr ⟨hf, rfl⟩, fails_check.mpr ⟨hf', rfl⟩⟩
  · exact .inr ⟨a, a', d, d', runs_check.mpr ⟨ha, rfl⟩, runs_check.mpr ⟨ha', rfl⟩, hafter⟩

/-- Changes go together if they come out alike. -/
theorem couples_change {g : Diagram → Except ε (α × Diagram)}
    {g' : Diagram → Except ε (α' × Diagram)}
    (h : ∀ d d', before d d' → (∃ f, g d = .error f ∧ g' d' = .error f) ∨
      ∃ a a' e e', g d = .ok (a, e) ∧ g' d' = .ok (a', e') ∧ R a a' e e') :
    Couples before (change g) (change g') R := by
  intro d d' hbefore
  rcases h d d' hbefore with ⟨f, hf, hf'⟩ | ⟨a, a', e, e', ha, ha', hafter⟩
  · exact .inl ⟨f, d, d', fails_change.mpr ⟨hf, rfl⟩, fails_change.mpr ⟨hf', rfl⟩⟩
  · exact .inr ⟨a, a', e, e', runs_change.mpr ha, runs_change.mpr ha', hafter⟩

/-- **Loops go together if their items do.** -/
theorem couples_forEach {g : γ → Edit ε α} {g' : γ → Edit ε α} {cs : List γ}
    (h : ∀ c ∈ cs, Couples before (g c) (g' c) fun a a' d d' => a' = a ∧ before d d') :
    Couples before (forEach g cs) (forEach g' cs) fun as as' d d' => as' = as ∧ before d d' := by
  induction cs with
  | nil => exact couples_pure fun d d' hbefore => ⟨rfl, hbefore⟩
  | cons c cs ih =>
    refine couples_bind (h c List.mem_cons_self) fun a a' => couples_bind
      (R := fun as as' d d' => (a' = a ∧ as' = as) ∧ before d d') ?_ fun as as' =>
        couples_pure fun d d' hafter => ⟨by rw [hafter.1.1, hafter.1.2], hafter.2⟩
    rintro d d' ⟨rfl, hbefore⟩
    refine (ih (fun b hb => h b (List.mem_cons_of_mem c hb)) d d' hbefore).imp_right ?_
    rintro ⟨as, as', e, e', hruns, hruns', hsame, hafter⟩
    exact ⟨as, as', e, e', hruns, hruns', ⟨rfl, hsame⟩, hafter⟩

end Netlist.Edit
