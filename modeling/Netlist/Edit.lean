import Netlist.Diagram
import Netlist.Warning

/-!
# Edits of a diagram

The later stages of a build work on the diagram they are given: they set
fields, mark interfaces, import drawings. An `Edit` is such a piece of work. It
can fail and it can warn, and when it fails the diagram stays as far as the
work had come.
-/

namespace Netlist

/-- What came of an edit. -/
structure Outcome (ε α : Type) where
  result : Except ε α
  diagram : Diagram
  warnings : List Warning

/-- A piece of work on a diagram. -/
def Edit (ε α : Type) : Type := Diagram → Outcome ε α

namespace Edit

variable {ε δ α β : Type}

/-- Works on a diagram. -/
def run (m : Edit ε α) (d : Diagram) : Outcome ε α := m d

/-- Gives a value and does nothing. -/
def pure (a : α) : Edit ε α := fun d => ⟨.ok a, d, []⟩

/-- Goes on from the value of an edit, unless it fails. -/
def bind (m : Edit ε α) (next : α → Edit ε β) : Edit ε β := fun d =>
  match m d with
  | ⟨.error e, d, warnings⟩ => ⟨.error e, d, warnings⟩
  | ⟨.ok a, d, warnings⟩ =>
    let later := next a d
    ⟨later.result, later.diagram, warnings ++ later.warnings⟩

instance : Monad (Edit ε) where
  pure := pure
  bind := bind

/-- Fails. -/
def fail (e : ε) : Edit ε α := fun d => ⟨.error e, d, []⟩

/-- Gives a warning. -/
def warn (w : Warning) : Edit ε Unit := fun d => ⟨.ok (), d, [w]⟩

/-- Reads something off the diagram. -/
def read (f : Diagram → α) : Edit ε α := fun d => ⟨.ok (f d), d, []⟩

/-- Reads something off the diagram that may not be there. -/
def check (f : Diagram → Except ε α) : Edit ε α := fun d => ⟨f d, d, []⟩

/-- Changes the diagram. -/
def update (f : Diagram → Diagram) : Edit ε Unit := fun d => ⟨.ok (), f d, []⟩

/-- Changes the diagram and gives a value; nothing changes on failure. -/
def change (f : Diagram → Except ε (α × Diagram)) : Edit ε α := fun d =>
  match f d with
  | .ok (a, d) => ⟨.ok a, d, []⟩
  | .error e => ⟨.error e, d, []⟩

/-- Does the edit of each item in order, and collects their values. -/
def forEach (f : β → Edit ε α) : List β → Edit ε (List α)
  | [] => pure []
  | b :: rest => bind (f b) fun a => bind (forEach f rest) fun as => pure (a :: as)

/-- Works on another diagram; gives what came of it and passes on its warnings. -/
def elsewhere (m : Edit ε α) (d : Diagram) : Edit ε (α × Diagram) := fun here =>
  let outcome := m d
  ⟨outcome.result.map fun a => (a, outcome.diagram), here, outcome.warnings⟩

/-- The same edit with its failures put differently. -/
def mapError (f : ε → δ) (m : Edit ε α) : Edit δ α := fun d =>
  let outcome := m d
  ⟨outcome.result.mapError f, outcome.diagram, outcome.warnings⟩

/-! ## Running the pieces -/

@[simp] theorem run_pure (a : α) (d : Diagram) : (Pure.pure a : Edit ε α).run d = ⟨.ok a, d, []⟩ :=
  rfl

theorem run_bind (m : Edit ε α) (next : α → Edit ε β) (d : Diagram) :
    (m >>= next).run d =
      match m.run d with
      | ⟨.error e, d, warnings⟩ => ⟨.error e, d, warnings⟩
      | ⟨.ok a, d, warnings⟩ =>
        ⟨((next a).run d).result, ((next a).run d).diagram,
          warnings ++ ((next a).run d).warnings⟩ := rfl

@[simp] theorem run_read (f : Diagram → α) (d : Diagram) :
    (read f : Edit ε α).run d = ⟨.ok (f d), d, []⟩ := rfl

@[simp] theorem run_check (f : Diagram → Except ε α) (d : Diagram) :
    (check f).run d = ⟨f d, d, []⟩ := rfl

@[simp] theorem run_update (f : Diagram → Diagram) (d : Diagram) :
    (update f : Edit ε Unit).run d = ⟨.ok (), f d, []⟩ := rfl

end Edit

end Netlist
