import Mathlib.Data.Set.Card
import Netlist.Proofs.Topology.Sorting
import Netlist.Topology.Numbering

/-!
# New numbers are ranks

The nodes of a network are numbered anew, and so are the aliases that name them.
The new number of a node or alias is the rank of its old label: how many labels
of the main network are smaller.

- `mainLabels`, `rankOf`: the labels in question, and the rank of one of them.
- `countP_of_sorted`: the place of a label in the sorted list is its rank.
- `Renumbers`: the old and the new diagram, slot by slot.
- `renumber_eq_ok`: **renumbering labels every node and alias with the rank of
  its label** and leaves everything else alone.
-/

namespace Netlist.Topology

variable {d d' : Diagram} {t t' : Topology}

/-! ## Ranks -/

/-- The labels of the numbered nodes in the main network of a container. -/
def mainLabels (d : Diagram) (network : Slot) : Set Int :=
  {x | ∃ i e, NodeIn d network none NodeKind.isNumbered i ∧ d.get? i = some e ∧
    e.labelNumber? = some x}

/-- The rank of a label: how many labels of the main network are smaller. -/
noncomputable def rankOf (d : Diagram) (network : Slot) (x : Int) : Nat :=
  {y ∈ mainLabels d network | y < x}.ncard

/-! ## Reading and sorting labels -/

/-- Reading goes on from the labels that were seen. -/
theorem readLabels_from {nodes : List Slot} {seen labelled : List (Int × Slot)}
    (h : readLabels d seen nodes = .ok labelled) (hseen : (seen.map Prod.fst).Nodup) :
    (labelled.map Prod.fst).Nodup ∧ ∃ new, labelled = seen.reverse ++ new ∧
      new.map Prod.snd = nodes ∧
      ∀ x ∈ new, ∃ e, d.get? x.2 = some e ∧ e.labelNumber? = some x.1 := by
  induction nodes generalizing seen with
  | nil =>
    cases h
    refine ⟨?_, [], by simp, rfl, fun _ hmem => nomatch hmem⟩
    rw [List.map_reverse]
    exact List.nodup_reverse.mpr hseen
  | cons i nodes ih =>
    rw [readLabels, bind_eq_ok] at h
    obtain ⟨e, he, h⟩ := h
    rw [Diagram.fetch_eq_ok] at he
    split at h
    · cases h
    rename_i number hnumber
    split at h
    · rw [bind_eq_ok] at h
      obtain ⟨first, -, h⟩ := h
      cases h
    rename_i hfresh
    have hnotmem : number ∉ seen.map Prod.fst := by
      rintro hmem
      obtain ⟨s, hs, rfl⟩ := List.mem_map.mp hmem
      exact absurd (beq_self_eq_true _) (List.find?_eq_none.mp hfresh s hs)
    obtain ⟨hnodup, new, rfl, hnew, hall⟩ := ih h (List.nodup_cons.mpr ⟨hnotmem, hseen⟩)
    refine ⟨hnodup, (number, i) :: new, by simp, by rw [List.map_cons, hnew], ?_⟩
    exact List.forall_mem_cons.mpr ⟨⟨e, he, hnumber⟩, hall⟩

/-- Labels that were read belong to their nodes, and no two are equal. -/
theorem readLabels_eq_ok {nodes : List Slot} {labelled : List (Int × Slot)}
    (h : readLabels d [] nodes = .ok labelled) :
    (labelled.map Prod.fst).Nodup ∧ labelled.map Prod.snd = nodes ∧
      ∀ x ∈ labelled, ∃ e, d.get? x.2 = some e ∧ e.labelNumber? = some x.1 := by
  obtain ⟨hnodup, new, hnew, hsnd, hall⟩ := readLabels_from h List.nodup_nil
  rw [List.reverse_nil, List.nil_append] at hnew
  subst hnew
  exact ⟨hnodup, hsnd, hall⟩

theorem byLabel_perm (labelled : List (Int × Slot)) : (byLabel labelled).Perm labelled :=
  List.mergeSort_perm labelled _

theorem byLabel_sorted {labelled : List (Int × Slot)} (h : (labelled.map Prod.fst).Nodup) :
    (byLabel labelled).Pairwise fun a b => a.1 < b.1 := by
  have hle : (byLabel labelled).Pairwise fun a b => a.1 ≤ b.1 := by
    have hsorted : (byLabel labelled).Pairwise fun a b => decide (a.1 ≤ b.1) = true := by
      refine List.pairwise_mergeSort (fun a b c hab hbc => ?_) (fun a b => ?_) labelled
      · simp only [decide_eq_true_eq] at hab hbc ⊢
        exact Int.le_trans hab hbc
      · simp only [Bool.or_eq_true, decide_eq_true_eq]
        exact Int.le_total a.1 b.1
    exact hsorted.imp fun h => of_decide_eq_true h
  have hne : (byLabel labelled).Pairwise fun a b => a.1 ≠ b.1 :=
    List.pairwise_map.mp (((byLabel_perm labelled).map Prod.fst).nodup_iff.mpr h)
  exact hle.imp₂ (fun a b hab hnab => lt_of_le_of_ne hab hnab) hne

/-- **In a sorted list the place of a label is how many are smaller.** -/
theorem countP_of_sorted {labelled : List (Int × Slot)}
    (h : labelled.Pairwise fun a b => a.1 < b.1) {k : Nat} {x : Int × Slot}
    (hk : labelled[k]? = some x) : labelled.countP (fun y => y.1 < x.1) = k := by
  induction labelled generalizing k with
  | nil => cases hk
  | cons first rest ih =>
    obtain ⟨hfirst, hrest⟩ := List.pairwise_cons.mp h
    cases k with
    | zero =>
      cases hk
      rw [List.countP_eq_zero]
      intro y hy
      rcases List.mem_cons.mp hy with rfl | hy
      · simp
      · simpa using Int.le_of_lt (hfirst y hy)
    | succ k =>
      rw [List.getElem?_cons_succ] at hk
      rw [List.countP_cons_of_pos (by simpa using hfirst x (List.mem_of_getElem? hk)), ih hrest hk]

/-- What `rank?` finds is the place of the label. -/
theorem rank?_eq_some {labelled : List (Int × Slot)} {label : Int} {k : Nat}
    (h : rank? labelled label = some k) : ∃ i, labelled[k]? = some (label, i) := by
  rw [rank?, List.findIdx?_eq_some_iff_getElem] at h
  obtain ⟨hlt, hlabel, -⟩ := h
  rw [beq_iff_eq] at hlabel
  exact ⟨labelled[k].2, by rw [List.getElem?_eq_getElem hlt, ← hlabel]⟩

/-! ## Labels written -/

theorem get?_relabel_of_not_mem {numbers : List (Slot × Nat)} {d : Diagram} {i : Slot}
    (h : i ∉ numbers.map Prod.fst) : (relabel numbers d).get? i = d.get? i := by
  induction numbers generalizing d with
  | nil => rfl
  | cons n numbers ih =>
    rw [List.map_cons, List.mem_cons, not_or] at h
    show (relabel numbers _).get? i = _
    rw [ih h.2, Diagram.get?_modify, if_neg (Ne.symm h.1)]

theorem get?_relabel_of_mem {numbers : List (Slot × Nat)} {d : Diagram} {i : Slot} {k : Nat}
    (hnodup : (numbers.map Prod.fst).Nodup) (h : (i, k) ∈ numbers) :
    (relabel numbers d).get? i = (d.get? i).map fun e => { e with label := toString k } := by
  induction numbers generalizing d with
  | nil => cases h
  | cons n numbers ih =>
    obtain ⟨hn, hnodup⟩ := List.nodup_cons.mp hnodup
    show (relabel numbers (d.modify n.1 _)).get? i = _
    rcases List.mem_cons.mp h with rfl | h
    · rw [get?_relabel_of_not_mem hn, Diagram.get?_modify, if_pos rfl]
    · have hne : n.1 ≠ i := by
        intro heq
        rw [heq] at hn
        exact hn (List.mem_map_of_mem (f := Prod.fst) h)
      rw [ih hnodup h, Diagram.get?_modify, if_neg hne]

/-- The new numbers of aliases are the places of their labels. -/
theorem aliasNumbers_eq_ok {labelled : List (Int × Slot)} {slots : List Slot}
    {moved : List (Slot × Nat)} (h : aliasNumbers d labelled slots = .ok moved) :
    moved.map Prod.fst = slots ∧ ∀ n ∈ moved, ∃ e x, d.get? n.1 = some e ∧
      e.labelNumber? = some x ∧ rank? labelled x = some n.2 := by
  induction slots generalizing moved with
  | nil =>
    cases h
    exact ⟨rfl, fun _ hmem => nomatch hmem⟩
  | cons i slots ih =>
    rw [aliasNumbers, bind_eq_ok] at h
    obtain ⟨e, he, h⟩ := h
    rw [Diagram.fetch_eq_ok] at he
    split at h
    · cases h
    rename_i number hnumber
    rw [bind_eq_ok] at h
    obtain ⟨rest, hrest, h⟩ := h
    cases h
    obtain ⟨hfst, hall⟩ := ih hrest
    obtain ⟨x, hx, hrank⟩ := Option.bind_eq_some_iff.mp hnumber
    exact ⟨by rw [List.map_cons, hfst], List.forall_mem_cons.mpr ⟨⟨e, x, he, hx, hrank⟩, hall⟩⟩

/-! ## Renumbering -/

/-- Whether a slot of a network gets a new number: a numbered node, a reference
or a copy that is no ground. -/
def Moves (d : Diagram) (t : Topology) (i : Slot) : Prop := i ∈ t.nodes ∨ i ∈ aliases d t

/-- A diagram before and after its nodes were numbered anew. -/
structure Renumbers (d : Diagram) (t : Topology) (t' : Topology) (d' : Diagram) : Prop where
  topology : ∃ nodes, nodes.Perm t.nodes ∧ t' = { t with nodes := nodes }
  moved : ∀ i, Moves d t i → ∃ e x, d.get? i = some e ∧ e.labelNumber? = some x ∧
    x ∈ mainLabels d t.network ∧ rankOf d t.network x < t.nodes.length ∧
    d'.get? i = some { e with label := toString (rankOf d t.network x) }
  kept : ∀ i, ¬ Moves d t i → d'.get? i = d.get? i

theorem mem_aliases {i : Slot} :
    i ∈ aliases d t ↔ i ∈ t.references ∨
      ∃ interface, (i, interface) ∈ t.interfaceNodes ∧ (d.get? i).any Element.isGround = false := by
  rw [aliases, List.mem_append, List.mem_filter, List.mem_map]
  constructor
  · rintro (hi | ⟨⟨⟨n, interface⟩, hmem, rfl⟩, hground⟩)
    · exact .inl hi
    · exact .inr ⟨interface, hmem, by simpa using hground⟩
  · rintro (hi | ⟨interface, hmem, hground⟩)
    · exact .inl hi
    · exact .inr ⟨⟨(i, interface), hmem, rfl⟩, by simp [hground]⟩

/-- No alias is numbered twice. -/
theorem nodup_aliases (h : Collected d t) : (aliases d t).Nodup := by
  rw [aliases, List.nodup_append]
  refine ⟨h.nodup_references, h.nodup_copies.filter _, fun i hi j hj hij => ?_⟩
  subst hij
  obtain ⟨⟨n, interface⟩, hmem, rfl⟩ := List.mem_map.mp (List.mem_of_mem_filter hj)
  have := ((h.references n).mp hi).home_unique ((h.copies n interface).mp hmem)
  cases this

theorem nodes_disjoint_aliases (h : Collected d t) {i : Slot} (hi : i ∈ t.nodes) :
    i ∉ aliases d t := by
  rw [mem_aliases]
  rintro (hr | ⟨interface, hmem, -⟩)
  · obtain ⟨kind, hnumbered, href⟩ := ((h.nodes i).mp hi).kind_overlap ((h.references i).mp hr)
    rw [beq_iff_eq] at href
    subst href
    cases hnumbered
  · have := ((h.nodes i).mp hi).home_unique ((h.copies i interface).mp hmem)
    cases this

/-- The labels read off the nodes are the labels of the main network. -/
theorem countP_eq_rankOf (h : Collected d t) {labelled : List (Int × Slot)}
    (hread : readLabels d [] t.nodes = .ok labelled) (x : Int) :
    (byLabel labelled).countP (fun y => y.1 < x) = rankOf d t.network x := by
  obtain ⟨hnodup, hsnd, hall⟩ := readLabels_eq_ok hread
  have hset : {y ∈ mainLabels d t.network | y < x} =
      (((labelled.map Prod.fst).filter (· < x)).toFinset : Set Int) := by
    ext y
    simp only [Set.mem_ofPred_eq, List.coe_toFinset, List.mem_filter, List.mem_map,
      decide_eq_true_eq, mainLabels, ← h.nodes, ← hsnd]
    constructor
    · rintro ⟨⟨i, e, ⟨⟨y', j⟩, hmem, rfl⟩, he, hlabel⟩, hlt⟩
      obtain ⟨e', he', hlabel'⟩ := hall _ hmem
      rw [he'] at he
      cases he
      rw [hlabel'] at hlabel
      cases hlabel
      exact ⟨⟨(_, j), hmem, rfl⟩, hlt⟩
    · rintro ⟨⟨⟨y', i⟩, hmem, rfl⟩, hlt⟩
      obtain ⟨e, he, hlabel⟩ := hall _ hmem
      exact ⟨⟨i, e, ⟨_, hmem, rfl⟩, he, hlabel⟩, hlt⟩
  rw [rankOf, hset, Set.ncard_coe_finset, List.toFinset_card_of_nodup (hnodup.filter _),
    (byLabel_perm labelled).countP_eq, ← List.countP_eq_length_filter, List.countP_map]
  rfl

/-- No slot is numbered twice. -/
theorem nodup_keys_numbers (hcollected : Collected d t) {nodes : List Slot}
    {moved : List (Slot × Nat)} (hperm : nodes.Perm t.nodes)
    (hfst : moved.map Prod.fst = aliases d t) : ((nodes.zipIdx ++ moved).map Prod.fst).Nodup := by
  rw [List.map_append, List.zipIdx_map_fst, hfst, List.nodup_append]
  refine ⟨hperm.nodup_iff.mpr hcollected.nodup_nodes, nodup_aliases hcollected, ?_⟩
  rintro i hi j hj rfl
  exact nodes_disjoint_aliases hcollected (hperm.mem_iff.mp hi) hj

/-- **Renumbering labels every node and alias with the rank of its label.** -/
theorem renumber_eq_ok (hcollected : Collected d t) (h : renumber d t = .ok (t', d')) :
    Renumbers d t t' d' := by
  rw [renumber, bind_eq_ok] at h
  obtain ⟨labelled, hread, h⟩ := h
  rw [bind_eq_ok] at h
  obtain ⟨moved, hmoved, h⟩ := h
  cases h
  obtain ⟨hnodup, hsnd, hall⟩ := readLabels_eq_ok hread
  obtain ⟨hfst, haliases⟩ := aliasNumbers_eq_ok hmoved
  have hperm : ((byLabel labelled).map Prod.snd).Perm t.nodes :=
    hsnd ▸ (byLabel_perm labelled).map Prod.snd
  have hsorted := byLabel_sorted hnodup
  -- The place in the sorted list is the rank of the label.
  have hplace : ∀ {k : Nat} {x : Int} {i : Slot}, (byLabel labelled)[k]? = some (x, i) →
      k = rankOf d t.network x ∧ k < t.nodes.length ∧ x ∈ mainLabels d t.network := by
    intro k x i hk
    refine ⟨?_, ?_, ?_⟩
    · rw [← countP_eq_rankOf hcollected hread, countP_of_sorted hsorted hk]
    · rw [← hperm.length_eq, List.length_map]
      exact (List.getElem?_eq_some_iff.mp hk).1
    · have hmem := (byLabel_perm labelled).mem_iff.mp (List.mem_of_getElem? hk)
      obtain ⟨e, he, hlabel⟩ := hall _ hmem
      exact ⟨i, e, (hcollected.nodes i).mp (hsnd ▸ List.mem_map_of_mem hmem), he, hlabel⟩
  have hkeysNodup := nodup_keys_numbers hcollected hperm hfst
  refine ⟨⟨_, hperm, rfl⟩, fun i hi => ?_, fun i hi => ?_⟩
  · rcases hi with hi | hi
    · obtain ⟨⟨x, j⟩, hmem, rfl⟩ := List.mem_map.mp (hperm.mem_iff.mpr hi)
      obtain ⟨k, hk⟩ := List.getElem?_of_mem hmem
      obtain ⟨hrank, hlt, hmain⟩ := hplace hk
      obtain ⟨e, he, hlabel⟩ := hall _ ((byLabel_perm labelled).mem_iff.mp hmem)
      refine ⟨e, x, he, hlabel, hmain, hrank ▸ hlt, ?_⟩
      rw [get?_relabel_of_mem hkeysNodup (k := k), he, hrank]
      · rfl
      · refine List.mem_append_left _ (List.mk_mem_zipIdx_iff_getElem?.mpr ?_)
        rw [List.getElem?_map, hk]
        rfl
    · -- An alias gets the place of the node that it names.
      obtain ⟨⟨j, k⟩, hmem, rfl⟩ := List.mem_map.mp (hfst.symm ▸ hi)
      obtain ⟨e, x, he, hlabel, hrank⟩ := haliases _ hmem
      obtain ⟨n, hk⟩ := rank?_eq_some hrank
      obtain ⟨hrank, hlt, hmain⟩ := hplace hk
      refine ⟨e, x, he, hlabel, hmain, hrank ▸ hlt, ?_⟩
      rw [get?_relabel_of_mem hkeysNodup (List.mem_append_right _ hmem), he]
      simp only at hrank
      rw [hrank]
      rfl
  · refine get?_relabel_of_not_mem ?_
    rw [List.map_append, List.zipIdx_map_fst, hfst, List.mem_append, hperm.mem_iff]
    exact hi

end Netlist.Topology
