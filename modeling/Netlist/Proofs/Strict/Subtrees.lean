import Netlist.Proofs.Strict.Containment
import Netlist.Proofs.Strict.Lookup

/-!
# Removing what a search finds

A subtree is removed by marks, which spread over the elements in order until a pass makes none.
The descendants of an element are found by a search from it, parents before children. Both go
by the same parents, so what is removed is the element and what is found, loops of parents
included.

- `subtree_perm`: what is removed is the element and what is found.
- `get?_removeSubtree`, `countP_subtree`: what removing a subtree does to the slots, and its count.
- `subtree_uproots`: **a removal takes out an element and what the search finds**, and nothing
  else changes but the ends there.
-/

namespace Netlist

namespace Diagram

variable {d : Diagram} {i j : Slot} {e : Element}

theorem nodup_subtree (d : Diagram) (i : Slot) : (d.subtree i).Nodup := List.nodup_range.filter _

/-- **A subtree is an element and its descendants**, even if the element is inside itself. -/
theorem subtree_perm (he : d.get? i = some e) : (d.subtree i).Perm (i :: d.descendants i) := by
  have hself : i ∉ d.descendants i := fun hmem => (mem_descendants.mp hmem).2.1 rfl
  have hnodup : (d.descendants i).Nodup := (sorted_descendants d i).imp Nat.ne_of_lt
  refine (List.perm_ext_iff_of_nodup (nodup_subtree d i)
    (List.nodup_cons.mpr ⟨hself, hnodup⟩)).mpr fun j => ?_
  rw [mem_subtree he, List.mem_cons, mem_descendants]
  -- in a loop the element is inside itself, but no descendant of itself
  by_cases hj : j = i
  · simp [hj]
  · exact or_congr_right ⟨fun hin => ⟨⟨e, he⟩, hj, hin⟩, fun h => h.2.2⟩

/-- All of a subtree can be removed if the root is in nothing. -/
theorem removable_of_mem_subtree (hroot : d.Rooted) (hi : i ≠ root) (he : d.get? i = some e)
    (hj : j ∈ d.subtree i) : j ≠ root ∧ (d.get? j).isSome = true := by
  rcases (mem_subtree he).mp hj with rfl | hin
  · exact ⟨hi, by rw [he, Option.isSome_some]⟩
  · obtain ⟨e', he'⟩ := hin.live
    refine ⟨?_, by rw [he', Option.isSome_some]⟩
    rintro rfl
    exact hroot.not_inside hin

/-- Everything in a subtree counts as removed. -/
theorem countP_subtree (hroot : d.Rooted) (hi : i ≠ root) (he : d.get? i = some e) :
    ((d.subtree i).countP fun j => (d.removable? j).isSome) = (d.descendants i).length + 1 := by
  have hall : ∀ j ∈ d.subtree i, (d.removable? j).isSome = true := by
    intro j hj
    obtain ⟨hj, hlive⟩ := removable_of_mem_subtree hroot hi he hj
    rwa [removable?_eq d hj]
  rw [List.countP_eq_length.mpr hall, (subtree_perm he).length_eq, List.length_cons]

/-- **The slots after a subtree was removed**: its own are empty, and the other elements have
lost their ends there. -/
theorem get?_removeSubtree (hroot : d.Rooted) (hi : i ≠ root) (he : d.get? i = some e) (j : Slot) :
    (d.removeSubtree i).2.get? j =
      if j ∈ d.subtree i then none else (d.get? j).map (Element.detachAll (d.subtree i)) := by
  rw [removeSubtree, removable?_eq d hi, he]
  exact get?_foldl_remove (nodup_subtree d i)
    (fun k hk => removable_of_mem_subtree hroot hi he hk) j

/-- No element has an end at a slot that was emptied. -/
def NoLooseEnds (d : Diagram) : Prop :=
  ∀ j e isSource a, d.get? j = some e → e.endAt isSource = some a → a < d.bound → d.isLive a = true

end Diagram

namespace Strict

open Diagram (root)

variable {d : Diagram} {i : Slot} {e : Element}

/-- What is left of a diagram when `i` and what was found inside it are removed. -/
structure Uproots (d : Diagram) (i : Slot) (found : List Slot) (d' : Diagram) : Prop where
  /-- No slot is issued or given back. -/
  bound : d'.bound = d.bound
  /-- The element and what was found go, and no other slot is emptied. -/
  live : ∀ j, d'.isLive j = true ↔ d.isLive j = true ∧ j ≠ i ∧ j ∉ found
  /-- Everything else stays as it is but for its ends. -/
  kept : ∀ j e e', d.get? j = some e → d'.get? j = some e' → e'.core = e.core
  /-- The ends that go are those at what is removed. -/
  ends : ∀ j e e' isSource a, d.get? j = some e → d'.get? j = some e' →
    (e'.endAt isSource = some a ↔ e.endAt isSource = some a ∧ a ≠ i ∧ a ∉ found)
  /-- Nothing is left that was inside the element. -/
  outside : ∀ j, d'.isLive j = true → ¬ d.Inside j i
  /-- If there was no end at an empty slot, there is none. -/
  clean : d.NoLooseEnds → d'.NoLooseEnds

theorem uproots_removeSubtree (hroot : d.Rooted) (hi : i ≠ root) (he : d.get? i = some e) :
    Uproots d i (d.descendants i) (d.removeSubtree i).2 := by
  have hmem : ∀ j, j ∉ d.subtree i ↔ j ≠ i ∧ j ∉ d.descendants i := by
    intro j
    rw [(Diagram.subtree_perm he).mem_iff, List.mem_cons, not_or]
  have hget := Diagram.get?_removeSubtree hroot hi he
  have hlive : ∀ j, (d.removeSubtree i).2.isLive j = true ↔
      d.isLive j = true ∧ j ≠ i ∧ j ∉ d.descendants i := by
    intro j
    rw [Diagram.isLive, hget, Diagram.isLive, ← hmem]
    by_cases hj : j ∈ d.subtree i <;> simp [hj]
  have hends : ∀ j e e' isSource a, d.get? j = some e →
      (d.removeSubtree i).2.get? j = some e' →
        (e'.endAt isSource = some a ↔
          e.endAt isSource = some a ∧ a ≠ i ∧ a ∉ d.descendants i) := by
    intro j x x' isSource a hx hx'
    rw [hget, hx, Option.map_some] at hx'
    split at hx'
    · cases hx'
    · cases hx'
      rw [Element.endAt_detachAll, hmem]
  refine ⟨Diagram.bound_removeSubtree d i, hlive, fun j x x' hx hx' => ?_, hends, fun j hj hin => ?_,
    fun hclean j x' isSource a hx' hend ha => ?_⟩
  · rw [hget, hx, Option.map_some] at hx'
    split at hx'
    · cases hx'
    · cases hx'
      exact Element.core_detachAll _ x
  · obtain ⟨-, hne, hnot⟩ := (hlive j).mp hj
    exact hnot (Diagram.mem_descendants.mpr ⟨⟨e, he⟩, hne, hin⟩)
  · -- an end that is left was there before, and is at no element that goes
    obtain ⟨x, hx⟩ := Diagram.isLive_iff.mp ((hlive j).mp (Diagram.isLive_iff.mpr ⟨x', hx'⟩)).1
    obtain ⟨hend, hne, hnot⟩ := (hends j x x' isSource a hx hx').mp hend
    rw [Diagram.bound_removeSubtree] at ha
    exact (hlive a).mpr ⟨hclean j x isSource a hx hend ha, hne, hnot⟩

/-- **A removal takes out an element and what the search finds**, however the parents loop, and
gives how many that are. Nothing else changes but the ends at what is removed. -/
theorem subtree_uproots (hroot : d.Rooted) (hissued : d.Issued) (hi : i ≠ root)
    (he : d.get? i = some e) : ∃ found d', descendants d i = .ok found ∧
      removeSubtree d i = .ok (found.length + 1, d') ∧ Uproots d i found d' := by
  refine ⟨d.descendants i, (d.removeSubtree i).2, descendants_eq d i, ?_,
    uproots_removeSubtree hroot hi he⟩
  have hcount : (d.removeSubtree i).1 = (d.descendants i).length + 1 := by
    rw [Diagram.removeSubtree, Diagram.removable?_eq d hi, he]
    exact Diagram.countP_subtree hroot hi he
  rw [removeSubtree_eq hissued, ← hcount]

/-- Two networks inside each other with a node in one of them, and a port from a link outside
to that node. -/
def tied : Diagram :=
  let elements : List Element :=
    [{ id := "root", role := .root },
      { id := "left", role := .network .sub, label := "Left", parent := some 2 },
      { id := "right", role := .network .sub, label := "Right", parent := some 1 },
      { id := "node", role := .node .basic, label := "0", parent := some 2 },
      { id := "v", role := .link ⟨"Valve", none⟩, label := "V1", parent := some 0 },
      { id := "p", role := .port, label := "0", parent := some 0, source := some 4, target := some 3 }]
  ⟨(elements.map some).toArray⟩

/-- The networks go with the node, and the port is left with one end. -/
theorem subtree_uproots_tied : ∃ d', removeSubtree tied 1 = .ok (3, d') ∧
    Uproots tied 1 [2, 3] d' := by
  have hroot : tied.Rooted := by
    rintro p ⟨e, he, hp⟩
    cases he
    cases hp
  have hissued : tied.Issued := by
    rintro i p ⟨e, he, hp⟩
    have hi : i < 6 := Diagram.lt_bound_of_get? he
    interval_cases i <;> cases he <;> cases hp <;> decide
  obtain ⟨found, d', hfound, hremoved, huproots⟩ :=
    subtree_uproots (i := 1) hroot hissued (by decide) rfl
  have hlist : descendants tied 1 = .ok [2, 3] := by cbv
  rw [hlist] at hfound
  cases hfound
  exact ⟨d', hremoved, huproots⟩

end Strict

end Netlist
