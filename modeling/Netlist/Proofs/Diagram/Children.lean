import Netlist.Proofs.Diagram.Subtree

/-!
# Reading something off the children

Several properties of an element are lists that are read off its children, in
order. Such a list is the same in two diagrams in which the same things are read
off, however many slots there are beside them.

- `pick`: what is read off a slot as a child of an element.
- `filterMap_children_congr`: **lists with the same picks are equal.**
-/

namespace Netlist.Diagram

variable {β : Type} {d d' : Diagram} {i c : Slot} {g : Slot → Element → Option β}

theorem mem_children : i ∈ d.children c ↔ d.HasParent i c ∧ i ≠ c := by
  rw [children, List.mem_filter, mem_select]
  simp only [beq_iff_eq, bne_iff_ne, HasParent]

theorem sorted_children (d : Diagram) (c : Slot) : (d.children c).Pairwise (· < ·) :=
  (List.pairwise_lt_range.filter _).filter _

/-- What `g` reads off a slot, if it is a child of `c`. -/
def pick (d : Diagram) (c : Slot) (g : Slot → Element → Option β) (i : Slot) : Option β :=
  (d.get? i).bind fun e => if e.parent = some c ∧ i ≠ c then g i e else none

theorem pick_eq_some {b : β} :
    d.pick c g i = some b ↔ ∃ e, d.get? i = some e ∧ e.parent = some c ∧ i ≠ c ∧ g i e = some b := by
  rw [pick, Option.bind_eq_some_iff]
  simp only [Option.ite_none_right_eq_some, and_assoc]

/-- A list over slots does not see the slots at which nothing is picked. -/
theorem filterMap_range_of_le {f : Nat → Option β} {m n : Nat} (h : m ≤ n)
    (hf : ∀ i, m ≤ i → f i = none) : (List.range n).filterMap f = (List.range m).filterMap f := by
  induction n, h using Nat.le_induction with
  | base => rfl
  | succ n hn ih =>
    rw [List.range_succ, List.filterMap_append, ih]
    simp [hf n hn]

theorem filterMap_children (d : Diagram) (c : Slot) (g : Slot → Element → Option β) :
    ((d.children c).filterMap fun i => (d.get? i).bind (g i)) =
      (List.range d.bound).filterMap (d.pick c g) := by
  rw [children, select, List.filter_filter, List.filterMap_filter]
  refine List.filterMap_congr fun i _ => ?_
  rw [pick]
  cases d.get? i with
  | none => simp
  | some e => simp [and_comm]

/-- **What is read off the children is the same if the same is picked.** -/
theorem filterMap_children_congr (h : ∀ i, d'.pick c g i = d.pick c g i) :
    ((d'.children c).filterMap fun i => (d'.get? i).bind (g i)) =
      (d.children c).filterMap fun i => (d.get? i).bind (g i) := by
  have hnone : ∀ i, d.bound ≤ i → d.pick c g i = none := by
    intro i hi
    rw [pick, get?_of_bound_le hi]
    rfl
  have hnone' : ∀ i, d'.bound ≤ i → d.pick c g i = none := by
    intro i hi
    rw [← h, pick, get?_of_bound_le hi]
    rfl
  rw [filterMap_children, filterMap_children, List.filterMap_congr fun i _ => h i,
    ← filterMap_range_of_le (Nat.le_max_left d'.bound d.bound) hnone',
    ← filterMap_range_of_le (Nat.le_max_right d'.bound d.bound) hnone]

end Netlist.Diagram
