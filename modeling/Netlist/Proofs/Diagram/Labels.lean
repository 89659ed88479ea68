import Netlist.Proofs.Diagram.Inside

/-!
# What does not look at labels

Where an element is and what is in it are read off parents and roles. Two diagrams that
differ in labels only have the same ways up and down.

- `SameButLabels`: the same elements in the same slots, but for their labels.
- `descendants`, `nearestAncestor_eq_ok`: **the searches downwards and upwards give the
  same**, if the test does not look at labels.
-/

namespace Netlist.Diagram

/-- Two diagrams that differ in labels only. -/
structure SameButLabels (d d' : Diagram) : Prop where
  bound : d'.bound = d.bound
  elements : ∀ i, ∃ label, d'.get? i = (d.get? i).map fun e => { e with label := label }

namespace SameButLabels

variable {d d' : Diagram} {i : Slot}

theorem any (h : d.SameButLabels d') {p : Element → Bool}
    (hp : ∀ (e : Element) label, p { e with label := label } = p e) :
    (d'.get? i).any p = (d.get? i).any p := by
  obtain ⟨label, hi⟩ := h.elements i
  rw [hi, Option.any_map]
  exact congrFun (congrArg Option.any (funext fun e => hp e label)) _

theorem bind (h : d.SameButLabels d') {α : Type} {f : Element → Option α}
    (hf : ∀ (e : Element) label, f { e with label := label } = f e) :
    (d'.get? i).bind f = (d.get? i).bind f := by
  obtain ⟨label, hi⟩ := h.elements i
  rw [hi, Option.bind_map]
  exact Option.bind_congr fun e _ => hf e label

theorem select (h : d.SameButLabels d') {p : Element → Bool}
    (hp : ∀ (e : Element) label, p { e with label := label } = p e) :
    d'.select p = d.select p := by
  rw [Diagram.select, Diagram.select, h.bound]
  exact List.filter_congr fun i _ => h.any hp

theorem live (h : d.SameButLabels d') : d'.isLive i = d.isLive i := by
  obtain ⟨label, hi⟩ := h.elements i
  rw [isLive, isLive, hi, Option.isSome_map]

/-! ## The searches -/

theorem reach (h : d.SameButLabels d') (fuel : Nat) (pending seen : List Slot) :
    d'.reach fuel pending seen = d.reach fuel pending seen := by
  induction fuel generalizing pending seen with
  | zero => rfl
  | succ fuel ih =>
    cases pending with
    | nil => rfl
    | cons i pending =>
      rw [Diagram.reach, Diagram.reach, h.select fun _ _ => rfl]
      exact ih _ _

/-- **What is in an element is the same.** -/
theorem descendants (h : d.SameButLabels d') : d'.descendants i = d.descendants i := by
  rw [Diagram.descendants, Diagram.descendants, h.live, h.bound, h.reach]

theorem climb (h : d.SameButLabels d') (fuel : Nat) (seen : List Slot) (next : Option Slot) :
    d'.climb fuel seen next = d.climb fuel seen next := by
  induction fuel generalizing seen next with
  | zero => rfl
  | succ fuel ih =>
    cases next with
    | none => rfl
    | some i =>
      obtain ⟨label, hi⟩ := h.elements i
      rw [Diagram.climb, Diagram.climb, hi]
      cases d.get? i with
      | none => rfl
      | some e =>
        rw [Option.map_some]
        dsimp only
        rw [ih]

theorem lineage (h : d.SameButLabels d') : d'.lineage i = d.lineage i := by
  rw [Diagram.lineage, Diagram.lineage, h.bound, h.climb, h.bind fun _ _ => rfl]

/-- **What is found upwards is the same**, if the test does not look at labels. -/
theorem nearestAncestor_eq_ok (h : d.SameButLabels d') {t : Slot → Element → Bool}
    {found : Option Slot} (ht : ∀ a (e : Element) label, t a { e with label := label } = t a e)
    (hfound : d.nearestAncestor i t = .ok found) : d'.nearestAncestor i t = .ok found := by
  have htest : (fun a => (d'.get? a).any (t a)) = fun a => (d.get? a).any (t a) :=
    funext fun a => h.any (ht a)
  rw [nearestAncestor] at hfound ⊢
  rw [h.lineage, htest]
  split at hfound
  · exact hfound
  · split at hfound
    · exact absurd hfound cycleAt_ne_ok
    · exact hfound

end SameButLabels

end Netlist.Diagram
