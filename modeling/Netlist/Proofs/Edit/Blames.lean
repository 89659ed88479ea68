import Netlist.Proofs.Edit.Fails

/-!
# Edits and what they blame

What is known of the failures of an edit often rests on an invariant of the diagrams it
goes through. The two are followed together, from one step to the next.

- `Blames E x`: if a check fails, `E` holds of its failure.
- `Edit.Within P E d m`: on `d` the edit `m` leaves a diagram that has `P`, whichever way it
  comes out, and if it fails, `E` holds of its failure.
- `Edit.Within.bind`: **chains of edits are followed step by step.**
-/

namespace Netlist

variable {ε δ α β : Type} {E : ε → Prop} {P : Diagram → Prop} {d : Diagram}

/-- A check with no failures but those that `E` holds of. -/
def Blames (E : ε → Prop) (x : Except ε α) : Prop := ∀ f, x = .error f → E f

theorem blames_ok {a : α} : Blames E (.ok a : Except ε α) := by
  intro f h
  cases h

theorem blames_error {f : ε} (h : E f) : Blames E (.error f : Except ε α) := by
  intro f' heq
  cases heq
  exact h

theorem Blames.bind {x : Except ε α} {next : α → Except ε β} (h : Blames E x)
    (hnext : ∀ a, x = .ok a → Blames E (next a)) : Blames E (x >>= next) := by
  intro f hf
  rcases bind_eq_error.mp hf with hx | ⟨a, ha, hx⟩
  · exact h f hx
  · exact hnext a ha f hx

theorem Blames.map {x : Except ε α} {g : α → β} (h : Blames E x) : Blames E (x.map g) := by
  cases x with
  | error f => exact blames_error (h f rfl)
  | ok a => exact blames_ok

/-- Failures may be put differently. -/
theorem Blames.mapError {x : Except ε α} {g : ε → δ} {E' : δ → Prop} (h : Blames E x)
    (hg : ∀ f, E f → E' (g f)) : Blames E' (x.mapError g) := by
  cases x with
  | error f => exact blames_error (hg f (h f rfl))
  | ok a => exact blames_ok

namespace Edit

/-- On `d` an edit leaves a diagram that has `P`, and `E` holds of its failures. -/
structure Within (P : Diagram → Prop) (E : ε → Prop) (d : Diagram) (m : Edit ε α) : Prop where
  leaves : P (m.run d).diagram
  blames : Blames E (m.run d).result

theorem within_pure {a : α} (hd : P d) : Within P E d (Pure.pure a : Edit ε α) := ⟨hd, blames_ok⟩

theorem within_check {g : Diagram → Except ε α} (hd : P d) (hg : Blames E (g d)) :
    Within P E d (check g) := ⟨hd, hg⟩

theorem within_update {g : Diagram → Diagram} (hg : P (g d)) :
    Within P E d (update g : Edit ε Unit) := ⟨hg, blames_ok⟩

/-- A change that fails leaves the diagram as it is. -/
theorem within_change {g : Diagram → Except ε (α × Diagram)} (hd : P d) (hg : Blames E (g d))
    (hP : ∀ a d', g d = .ok (a, d') → P d') : Within P E d (change g) := by
  obtain ⟨a, d', hrun⟩ | ⟨f, d', hfails⟩ := runs_or_fails (change g) d
  · refine ⟨hrun.2 ▸ hP a d' (runs_change.mp hrun), fun f hf => ?_⟩
    cases hrun.1.symm.trans hf
  · obtain ⟨hf, rfl⟩ := fails_change.mp hfails
    refine ⟨hfails.2.symm ▸ hd, fun f' hf' => ?_⟩
    cases hfails.1.symm.trans hf'
    exact hg f hf

/-- **Chains of edits are followed step by step.** -/
theorem Within.bind {m : Edit ε α} {next : α → Edit ε β} (h : Within P E d m)
    (hnext : ∀ a d', Runs m d a d' → P d' → Within P E d' (next a)) : Within P E d (m >>= next) := by
  refine ⟨diagram_bind h.leaves fun a d' hrun => (hnext a d' hrun (hrun.2 ▸ h.leaves)).leaves,
    fun f hf => ?_⟩
  rcases fails_bind.mp ⟨hf, rfl⟩ with hm | ⟨a, d', hrun, hlater⟩
  · exact h.blames f hm.1
  · exact (hnext a d' hrun (hrun.2 ▸ h.leaves)).blames f hlater.1

theorem Within.check_bind {g : Diagram → Except ε α} {next : α → Edit ε β} (hd : P d)
    (hg : Blames E (g d)) (hnext : ∀ a, g d = .ok a → Within P E d (next a)) :
    Within P E d (check g >>= next) :=
  (within_check hd hg).bind fun a _ hrun _ => by
    obtain ⟨ha, rfl⟩ := runs_check.mp hrun
    exact hnext a ha

theorem Within.read_bind {g : Diagram → α} {next : α → Edit ε β}
    (hnext : Within P E d (next (g d))) : Within P E d (read g >>= next) :=
  ⟨hnext.leaves, hnext.blames⟩

theorem Within.update_bind {g : Diagram → Diagram} {next : Unit → Edit ε β}
    (hnext : Within P E (g d) (next ())) : Within P E d (update g >>= next) :=
  ⟨hnext.leaves, hnext.blames⟩

theorem Within.warn_bind {w : Warning} {next : Unit → Edit ε β} (hnext : Within P E d (next ())) :
    Within P E d (warn w >>= next) := ⟨hnext.leaves, hnext.blames⟩

/-- Putting a result in another way changes nothing. -/
theorem Within.bind_pure {m : Edit ε α} {g : α → β} (h : Within P E d m) :
    Within P E d (m >>= fun a => Pure.pure (g a)) :=
  h.bind fun _ _ _ hd => within_pure hd

/-- Failures may be put differently. -/
theorem Within.mapError {m : Edit ε α} {g : ε → δ} {E' : δ → Prop} (h : Within P E d m)
    (hg : ∀ f, E f → E' (g f)) : Within P E' d (mapError g m) :=
  ⟨h.leaves, h.blames.mapError hg⟩

/-- Work elsewhere leaves the diagram here as it is. -/
theorem within_elsewhere {m : Edit ε α} {there : Diagram} (hd : P d)
    (h : Blames E (m.run there).result) : Within P E d (elsewhere m there) := ⟨hd, h.map⟩

/-- **A loop stays within what its items stay within.** -/
theorem within_forEach {g : β → Edit ε α} {bs : List β} (hd : P d)
    (h : ∀ b ∈ bs, ∀ d, P d → Within P E d (g b)) : Within P E d (forEach g bs) := by
  induction bs generalizing d with
  | nil => exact within_pure hd
  | cons b bs ih =>
    refine Within.bind (h b List.mem_cons_self d hd) fun a d₁ _ hd₁ => ?_
    exact (ih hd₁ fun c hc => h c (List.mem_cons_of_mem b hc)).bind_pure

end Edit

end Netlist
