import Netlist.Proofs.PortMap.Congruence
import Netlist.Proofs.Topology.Extraction

/-!
# Keeping or removing loose grounds

Grounds that no port reaches may be removed at the end of an extraction, or kept. Both ways
the extraction fails in the same cases and finds the same network, but for those grounds.
What port maps are read off is the same: no port ends at what is removed.

- `extract_either`: extracting with and without removing grounds comes out alike.
- `Extracts.sameReading`: **port maps are read off the same elements both ways.**
- `Extracts.core?_eq`: what neither extraction removed is the same after both, ends apart.
-/

namespace Netlist.Topology

open PortMap (SameReading SameSign SameDrawn)

variable {c : Catalog} {scope : Slot} {d d₁ d₁' : Diagram} {t t' : Topology}
  {gone gone' : List Slot} {i : Slot} {prune prune' : Bool}

/-- Topologies that differ at most in the grounds that no port reaches. -/
structure SameButLoose (d : Diagram) (t t' : Topology) : Prop where
  parts : t' = { t with grounds := t'.grounds, prunedGrounds := t'.prunedGrounds }
  grounds : ∀ p ∈ t.ports, ∀ e, d.get? p = some e → ∀ i, e.touches i = true →
    (i ∈ t'.grounds ↔ i ∈ t.grounds)

/-- Whatever a port reaches is kept. -/
theorem mem_grounds_finish (hreached : reaches d₁ t i = true) :
    i ∈ (finish prune (t, d₁)).1.grounds ↔ i ∈ t.grounds := by
  cases prune with
  | false => rfl
  | true =>
    show i ∈ (pruneGrounds d₁ t).1.grounds ↔ _
    rw [pruneGrounds, List.partition_eq_filter_filter]
    simp only [List.mem_filter, hreached, and_true]

/-- **Extracting with and without removing grounds comes out alike.** -/
theorem extract_either (c : Catalog) (prune prune' : Bool) (scope : Slot) (d : Diagram) :
    (∃ f, extract c prune scope d = .error f ∧ extract c prune' scope d = .error f) ∨
      ∃ t d₁ t' d₁', extract c prune scope d = .ok (t, d₁) ∧
        extract c prune' scope d = .ok (t', d₁') ∧ SameButLoose d t t' := by
  rw [extract_eq c prune, extract_eq c prune']
  cases hnumbered : extract c false scope d with
  | error f => exact .inl ⟨f, rfl, rfl⟩
  | ok r =>
    refine .inr ⟨(finish prune r).1, (finish prune r).2, (finish prune' r).1, (finish prune' r).2,
      rfl, rfl, ?_, fun p hp e he i hi => ?_⟩
    · rw [parts_finish prune r]
      exact parts_finish prune' r
    · have hextracts := (extract_numbered hnumbered).2.1
      rw [parts_finish prune r] at hp
      have hreached : reaches r.2 r.1 i = true :=
        List.any_eq_true.mpr ⟨p, hp, by rw [hextracts.get?_port hp, he]; exact hi⟩
      exact (mem_grounds_finish hreached).trans (mem_grounds_finish hreached).symm

theorem SameButLoose.moves (h : SameButLoose d t t') : Moves d t' i ↔ Moves d t i := by
  rw [h.parts]
  rfl

theorem SameButLoose.interfaceOf? (h : SameButLoose d t t') (i : Slot) :
    t'.interfaceOf? i = t.interfaceOf? i := by
  rw [h.parts]
  rfl

/-- A node that a port ends at is a node both ways. -/
theorem SameButLoose.isNode (h : SameButLoose d t t') {p : Slot} (hp : p ∈ t.ports) {e : Element}
    (he : d.get? p = some e) (hi : e.touches i = true) : t'.isNode i = t.isNode i := by
  have hground : t'.grounds.contains i = t.grounds.contains i := by
    rw [Bool.eq_iff_iff, List.contains_iff_mem, List.contains_iff_mem]
    exact h.grounds p hp e he i hi
  have hnodes : t'.nodes = t.nodes := by rw [h.parts]
  have hreferences : t'.references = t.references := by rw [h.parts]
  rw [Topology.isNode, Topology.isNode, h.interfaceOf?, hground, hnodes, hreferences]

/-! ## What both extractions leave -/

/-- **What neither extraction removed is the same after both, ends apart.** -/
theorem Extracts.core?_eq (h : Extracts d t d₁ gone) (h' : Extracts d t' d₁' gone')
    (hsame : SameButLoose d t t') (hi : i ∉ gone) (hi' : i ∉ gone') :
    d₁'.core? i = d₁.core? i := by
  have hnetwork : t'.network = t.network := by rw [hsame.parts]
  by_cases hmoves : Moves d t i
  · obtain ⟨e, x, he, hx, -, -, hget⟩ := h.moved i hmoves
    obtain ⟨e', x', he', hx', -, -, hget'⟩ := h'.moved i (hsame.moves.mpr hmoves)
    rw [he] at he'
    cases he'
    rw [hx] at hx'
    cases hx'
    rw [Diagram.core?_of_get? hget, Diagram.core?_of_get? hget', hnetwork]
    simp
  · rw [Diagram.core?, Diagram.core?, h.kept i hi hmoves,
      h'.kept i hi' fun hmoves' => hmoves (hsame.moves.mp hmoves'), Option.map_map, Option.map_map]
    congr 1
    funext e
    simp

/-- Elements that are the same, ends apart, are the same to a port that ends at them. -/
theorem rel_sameSign (h : d₁'.core? i = d₁.core? i) :
    Option.Rel SameSign (d₁.get? i) (d₁'.get? i) := by
  rw [Diagram.core?, Diagram.core?] at h
  cases he : d₁.get? i with
  | none =>
    rw [he, Option.map_none, Option.map_eq_none_iff] at h
    rw [h]
    exact .none
  | some e =>
    rw [he, Option.map_some, Option.map_eq_some_iff] at h
    obtain ⟨e', he', hcore⟩ := h
    rw [he']
    have hlocator : e'.core.locator = e.core.locator := by rw [hcore]
    have hrole : e'.core.role = e.core.role := by rw [hcore]
    exact .some ⟨hlocator, congrArg (· == Role.node .ground) hrole, fun c => congrArg c.masterOf? hrole⟩

theorem any_key?_eq (h : d₁'.core? i = d₁.core? i) :
    ((d₁'.get? i).any fun e => e.key?.isSome) = (d₁.get? i).any fun e => e.key?.isSome := by
  have hkey : ∀ d : Diagram, ((d.get? i).any fun e => e.key?.isSome) =
      (d.core? i).any fun e => e.key?.isSome := fun d => by
    rw [Diagram.core?, Option.any_map]
    rfl
  rw [hkey, hkey, h]

/-- **Port maps are read off the same elements, whether grounds are removed or not**, since
no port ends at a ground that is removed. -/
theorem Extracts.sameReading (h : Extracts d t d₁ gone) (h' : Extracts d t' d₁' gone')
    (hsame : SameButLoose d t t') : SameReading t t' d₁ d₁' := by
  have hports : t'.ports = t.ports := by rw [hsame.parts]
  have hlinks : t'.links = t.links := by rw [hsame.parts]
  refine ⟨hlinks, hports, fun i hi => ?_, fun p hp => ?_, fun p hp e he i hi => ?_⟩
  · have hrole : ∃ e, d.get? i = some e ∧ e.role.isLink = true :=
      (mem_withRole.mp (h.links ▸ hi)).2
    obtain ⟨e, he, hlink⟩ := hrole
    have hnode : e.role ≠ .node .ground := fun heq => by rw [heq] at hlink; cases hlink
    exact rel_sameSign (h.core?_eq h' hsame (h.not_gone_of_role he hnode)
      (h'.not_gone_of_role he hnode))
  · rw [h.get?_port hp, h'.get?_port (hports ▸ hp)]
    cases d.get? p with
    | none => exact .none
    | some e => exact .some ⟨rfl, rfl, rfl, rfl, fun _ => rfl⟩
  · rw [h.get?_port hp] at he
    have hgone : i ∉ gone := fun hmem => by
      rw [h.gone_free i hmem p hp e he] at hi
      cases hi
    have hgone' : i ∉ gone' := fun hmem => by
      rw [h'.gone_free i hmem p (hports ▸ hp) e he] at hi
      cases hi
    have hcore := h.core?_eq h' hsame hgone hgone'
    exact ⟨hsame.isNode hp he hi, hsame.interfaceOf? i, rel_sameSign hcore, fun _ => any_key?_eq hcore⟩

end Netlist.Topology
