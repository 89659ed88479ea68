import Mathlib.Data.List.Sort
import Netlist.Proofs.Diagram.Inside
import Netlist.Proofs.Text.Decimal
import Netlist.Proofs.Topology.Extraction

/-!
# Extracting what is in order

The stages of an extraction leave a diagram alone that is in order: whose nodes are
labelled `0`, `1`, `2` and so on, whose aliases have labels of nodes, and whose grounds
are reached. Collecting such a diagram gives its parts in document order, whatever the
order of their labels.

- `InOrder`, `collect_inOrder`: the parts of a collected topology are in document order.
- `exists_collect`: **collecting succeeds if there is one container** and the nearest
  interfaces can be found.
- `renumber_of_labelled`: **renumbering nodes that are labelled with their places changes
  nothing.**
- `pruneGrounds_of_reached`: removing grounds of which none is loose changes nothing.
-/

namespace Netlist

namespace Topology

variable {c : Catalog} {d : Diagram} {scope : Slot} {t : Topology} {i network : Slot}

/-! ## Document order -/

/-- A topology whose parts are in document order. -/
structure InOrder (t : Topology) : Prop where
  nodes : t.nodes.Pairwise (· < ·)
  references : t.references.Pairwise (· < ·)
  grounds : t.grounds.Pairwise (· < ·)
  copies : (t.interfaceNodes.map Prod.fst).Pairwise (· < ·)

theorem sorted_withRole (d : Diagram) (container : Slot) (p : Role → Bool) :
    (withRole d (d.descendants container) p).Pairwise (· < ·) :=
  (Diagram.sorted_descendants d container).filter _

theorem sorted_portsOf (d : Diagram) (members links : List Slot) :
    (portsOf d members links).Pairwise (· < ·) :=
  (List.pairwise_lt_range.filter _).filter _

/-- **The parts of a collected topology are in document order.** -/
theorem collect_inOrder (h : collect d scope = .ok t) : InOrder t := by
  rw [collect, bind_eq_ok] at h
  obtain ⟨network, -, h⟩ := h
  rw [bind_eq_ok] at h
  obtain ⟨pairs, hpairs, h⟩ := h
  cases h
  have hsorted : (pairs.map Prod.fst).Pairwise (· < ·) := by
    rw [(homes_eq_ok hpairs).1]
    exact sorted_withRole d network _
  exact ⟨hsorted.sublist (mainNodes_sublist d pairs _), hsorted.sublist (mainNodes_sublist d pairs _),
    hsorted.sublist (mainNodes_sublist d pairs _), hsorted.sublist (innerNodes_sublist pairs)⟩

/-! ## Collecting -/

theorem exists_homes {nodes : List Slot} (h : ∀ i ∈ nodes, ∃ home, interfaceAround d i = .ok home) :
    ∃ pairs, homes d nodes = .ok pairs := by
  induction nodes with
  | nil => exact ⟨[], rfl⟩
  | cons i nodes ih =>
    obtain ⟨⟨home, hhome⟩, hrest⟩ := List.forall_mem_cons.mp h
    obtain ⟨pairs, hpairs⟩ := ih hrest
    exact ⟨(i, home) :: pairs, bind_eq_ok.mpr ⟨home, hhome, bind_eq_ok.mpr ⟨pairs, hpairs, rfl⟩⟩⟩

/-- **Collecting succeeds if there is one container** and the nearest interfaces can be
found. -/
theorem exists_collect (hcontainer : container d scope = .ok network)
    (hhomes : ∀ i, ∃ home, interfaceAround d i = .ok home) :
    ∃ t, collect d scope = .ok t ∧ t.network = network ∧ t.domain = .basic ∧
      t.prunedGrounds = 0 := by
  obtain ⟨pairs, hpairs⟩ : ∃ pairs, homes d (withRole d (d.descendants network) fun r =>
      r.nodeKind?.isSome) = .ok pairs := exists_homes fun i _ => hhomes i
  exact ⟨_, bind_eq_ok.mpr ⟨network, hcontainer, bind_eq_ok.mpr ⟨pairs, hpairs, rfl⟩⟩, rfl, rfl, rfl⟩

theorem checkFilled_eq_ok : checkFilled d t = .ok () ↔
    (∃ e, d.get? t.network = some e) ∧ t.nodes ≠ [] ∧ t.links ≠ [] ∧ t.ports ≠ [] := by
  rw [checkFilled, bind_eq_ok]
  constructor
  · rintro ⟨e, he, h⟩
    refine ⟨⟨e, Diagram.fetch_eq_ok.mp he⟩, ?_⟩
    dsimp only at h
    split at h
    · cases h
    split at h
    · cases h
    split at h
    · cases h
    · rename_i hnodes hlinks hports
      rw [List.isEmpty_iff] at hnodes hlinks hports
      exact ⟨hnodes, hlinks, hports⟩
  · rintro ⟨⟨e, he⟩, hnodes, hlinks, hports⟩
    refine ⟨e, Diagram.fetch_eq_ok.mpr he, ?_⟩
    dsimp only
    rw [if_neg (by rwa [List.isEmpty_iff]), if_neg (by rwa [List.isEmpty_iff]),
      if_neg (by rwa [List.isEmpty_iff])]

/-! ## Agreement -/

/-- The domain of links is read off their locators and roles. -/
theorem linkDomain_congr {d' : Diagram} {links : List Slot} {seen : Option (Domain × Locator)}
    (h : ∀ i ∈ links, ∃ e e', d.get? i = some e ∧ d'.get? i = some e' ∧ e'.locator = e.locator ∧
      e'.role = e.role) : linkDomain c d' seen links = linkDomain c d seen links := by
  induction links generalizing seen with
  | nil => rfl
  | cons i links ih =>
    obtain ⟨⟨e, e', he, he', hlocator, hrole⟩, hlinks⟩ := List.forall_mem_cons.mp h
    rw [linkDomain, linkDomain, Diagram.fetch_eq_ok.mpr he, Diagram.fetch_eq_ok.mpr he', ok_bind,
      ok_bind, hrole, hlocator]
    simp only [ih hlinks]

theorem nodeDomains_congr {d' : Diagram} {nodes : List Slot}
    (h : ∀ i ∈ nodes, (d'.get? i).bind Element.nodeKind? = (d.get? i).bind Element.nodeKind?) :
    nodeDomains d' nodes = nodeDomains d nodes :=
  List.filterMap_congr fun i hi => by rw [h i hi]

/-- **Agreement on a domain is read off the kinds of the nodes and the links.** -/
theorem agreedDomain_congr {d' : Diagram} {t' : Topology} {domain : Domain}
    (hnodes : t'.nodes = t.nodes) (hcopies : t'.interfaceNodes = t.interfaceNodes)
    (hlinks : t'.links = t.links) (hnetwork : ∃ e, d'.get? t'.network = some e)
    (hkinds : ∀ i ∈ t.nodes ++ t.interfaceNodes.map Prod.fst,
      (d'.get? i).bind Element.nodeKind? = (d.get? i).bind Element.nodeKind?)
    (hsame : ∀ i ∈ t.links, ∃ e e', d.get? i = some e ∧ d'.get? i = some e' ∧
      e'.locator = e.locator ∧ e'.role = e.role)
    (h : agreedDomain c d t = .ok domain) : agreedDomain c d' t' = .ok domain := by
  rw [agreedDomain, bind_eq_ok] at h
  obtain ⟨network, -, hagree⟩ := h
  rw [agreedDomain, bind_eq_ok]
  obtain ⟨e, he⟩ := hnetwork
  refine ⟨e, Diagram.fetch_eq_ok.mpr he, ?_⟩
  rw [hnodes, hcopies, hlinks, nodeDomains_congr hkinds, linkDomain_congr hsame]
  cases hcommon : commonDomain (nodeDomains d (t.nodes ++ t.interfaceNodes.map Prod.fst)) with
  | none =>
    rw [hcommon] at hagree
    cases hagree
  | some domain => rwa [hcommon] at hagree

/-! ## Numbering -/

/-- Labels that are integers and distinct can be read. -/
theorem readLabels_of_labels {nodes : List Slot} {number : Slot → Int} {seen : List (Int × Slot)}
    (hlabels : ∀ i ∈ nodes, ∃ e, d.get? i = some e ∧ e.labelNumber? = some (number i))
    (hnodup : (nodes.map number).Nodup) (hseen : ∀ i ∈ nodes, number i ∉ seen.map Prod.fst) :
    readLabels d seen nodes = .ok (seen.reverse ++ nodes.map fun i => (number i, i)) := by
  induction nodes generalizing seen with
  | nil =>
    rw [List.map_nil, List.append_nil]
    rfl
  | cons i nodes ih =>
    obtain ⟨⟨e, he, hnumber⟩, hlabels⟩ := List.forall_mem_cons.mp hlabels
    obtain ⟨hfirst, hseen⟩ := List.forall_mem_cons.mp hseen
    obtain ⟨hnot, hnodup⟩ := List.nodup_cons.mp hnodup
    have hnone : (seen.find? fun s => s.1 == number i) = none := by
      rw [List.find?_eq_none]
      intro s hs heq
      exact hfirst (beq_iff_eq.mp heq ▸ List.mem_map_of_mem hs)
    rw [readLabels, Diagram.fetch_eq_ok.mpr he, ok_bind, hnumber]
    dsimp only
    rw [hnone]
    dsimp only
    rw [ih hlabels hnodup]
    · rw [List.reverse_cons, List.append_assoc, List.map_cons]
      rfl
    · intro j hj hmem
      rcases List.mem_cons.mp hmem with heq | hmem
      · exact hnot (List.mem_map.mpr ⟨j, hj, heq⟩)
      · exact hseen j hj hmem

/-- Some nodes, each with its place as a label. -/
def places (nodes : List Slot) : List (Int × Slot) := nodes.zipIdx.map fun n => ((n.2 : Int), n.1)

theorem sorted_places (nodes : List Slot) : (places nodes).Pairwise fun a b => a.1 < b.1 := by
  rw [places, List.pairwise_map, List.pairwise_iff_getElem]
  intro a b ha hb hab
  simp only [List.getElem_zipIdx, Nat.zero_add]
  exact Int.ofNat_lt.mpr hab

/-- Labels that are sorted the same way are in the same order. -/
theorem byLabel_eq {labelled sorted : List (Int × Slot)} (hperm : labelled.Perm sorted)
    (hsorted : sorted.Pairwise fun a b => a.1 < b.1) : byLabel labelled = sorted := by
  have hnodup : (labelled.map Prod.fst).Nodup := by
    rw [(hperm.map Prod.fst).nodup_iff]
    exact List.pairwise_map.mpr (hsorted.imp fun h => Int.ne_of_lt h)
  have hirrefl : Std.Irrefl fun a b : Int × Slot => a.1 < b.1 := ⟨fun a => Int.lt_irrefl a.1⟩
  have hasymm : Std.Asymm fun a b : Int × Slot => a.1 < b.1 := ⟨fun a b => Int.lt_asymm⟩
  exact List.Pairwise.eq_of_mem_iff (byLabel_sorted hnodup) hsorted fun x =>
    ((byLabel_perm labelled).trans hperm).mem_iff

theorem rank?_places {nodes : List Slot} {k : Nat} (hk : k < nodes.length) :
    rank? (places nodes) (k : Int) = some k := by
  rw [rank?, List.findIdx?_eq_some_iff_getElem]
  have hlength : (places nodes).length = nodes.length := by
    rw [places, List.length_map, List.length_zipIdx]
  have hget : ∀ j (hj : j < (places nodes).length), ((places nodes)[j]).1 = (j : Int) := by
    intro j hj
    simp only [places, List.getElem_map, List.getElem_zipIdx, Nat.zero_add]
  refine ⟨hlength ▸ hk, beq_iff_eq.mpr (hget k _), fun j hj => ?_⟩
  rw [hget, Bool.not_eq_true, beq_eq_false_iff_ne]
  exact Int.ne_of_lt (Int.ofNat_lt.mpr hj)

/-- Aliases whose labels have places are numbered with these. -/
theorem aliasNumbers_of_ranks {labelled : List (Int × Slot)} {moved : List (Slot × Nat)}
    (h : ∀ n ∈ moved, ∃ e x, d.get? n.1 = some e ∧ e.labelNumber? = some x ∧
      rank? labelled x = some n.2) :
    aliasNumbers d labelled (moved.map Prod.fst) = .ok moved := by
  induction moved with
  | nil => rfl
  | cons n moved ih =>
    obtain ⟨⟨e, x, he, hx, hrank⟩, hmoved⟩ := List.forall_mem_cons.mp h
    rw [List.map_cons, aliasNumbers, bind_eq_ok]
    refine ⟨e, Diagram.fetch_eq_ok.mpr he, ?_⟩
    rw [hx, Option.bind_some, hrank]
    exact bind_eq_ok.mpr ⟨_, ih hmoved, rfl⟩

/-- Aliases that have places as labels have them as numbers. -/
theorem aliasNumbers_of_labels {labelled : List (Int × Slot)} {slots : List Slot}
    {place : Slot → Nat} (h : ∀ i ∈ slots, ∃ e x, d.get? i = some e ∧ e.labelNumber? = some x ∧
      rank? labelled x = some (place i)) :
    aliasNumbers d labelled slots = .ok (slots.map fun i => (i, place i)) := by
  have hslots : (slots.map fun i => (i, place i)).map Prod.fst = slots := by
    rw [List.map_map]
    exact List.map_id slots
  have hnumbers : aliasNumbers d labelled ((slots.map fun i => (i, place i)).map Prod.fst) =
      .ok (slots.map fun i => (i, place i)) := by
    refine aliasNumbers_of_ranks fun n hn => ?_
    obtain ⟨i, hi, rfl⟩ := List.mem_map.mp hn
    exact h i hi
  rwa [hslots] at hnumbers

theorem relabel_of_labels {numbers : List (Slot × Nat)}
    (h : ∀ n ∈ numbers, ∀ e, d.get? n.1 = some e → e.label = toString n.2) :
    relabel numbers d = d := by
  induction numbers with
  | nil => rfl
  | cons n numbers ih =>
    obtain ⟨hfirst, hrest⟩ := List.forall_mem_cons.mp h
    show relabel numbers (d.modify n.1 _) = d
    rw [Diagram.modify_of_eq fun e he => ?_, ih hrest]
    rw [← hfirst e he]

/-- The element in a slot has a number for its label. -/
def Labelled (d : Diagram) (i : Slot) (k : Nat) : Prop :=
  ∃ e, d.get? i = some e ∧ e.label = toString k

/-- **Renumbering nodes that are labelled with their places changes nothing**, but sorts
them by these. -/
theorem renumber_of_labelled {ranked : List Slot} (hperm : ranked.Perm t.nodes)
    (hnodup : ranked.Nodup) (hlimit : ranked.length ≤ Text.integerLimit)
    (hplaces : ∀ k i, ranked[k]? = some i → Labelled d i k)
    (haliases : ∀ i ∈ aliases d t, ∃ k < ranked.length, Labelled d i k) :
    renumber d t = .ok ({ t with nodes := ranked }, d) := by
  classical
  have hnumber : ∀ {i k}, k < ranked.length → Labelled d i k →
      ∃ e, d.get? i = some e ∧ e.labelNumber? = some (k : Int) := by
    rintro i k hk ⟨e, he, hlabel⟩
    exact ⟨e, he, by rw [Element.labelNumber?_toString hlabel, if_pos (by omega)]⟩
  -- Every node is read as its place, and these are distinct.
  have hread : readLabels d [] t.nodes =
      .ok (t.nodes.map fun i => ((ranked.idxOf i : Int), i)) := by
    have hplace : ∀ i ∈ t.nodes, ranked[ranked.idxOf i]? = some i := fun i hi =>
      List.getElem?_idxOf (hperm.mem_iff.mpr hi)
    refine readLabels_of_labels (fun i hi => ?_) ?_ fun _ _ => List.not_mem_nil
    · exact hnumber (List.idxOf_lt_length_iff.mpr (hperm.mem_iff.mpr hi)) (hplaces _ i (hplace i hi))
    · refine List.Nodup.map_on (fun i hi j hj heq => ?_) (hperm.nodup_iff.mp hnodup)
      have hsame := hplace i hi
      rw [Int.ofNat_inj.mp heq, hplace j hj, Option.some.injEq] at hsame
      exact hsame.symm
  -- Sorted by their places the nodes are in the order of the places.
  have hsorted : byLabel (t.nodes.map fun i => ((ranked.idxOf i : Int), i)) = places ranked := by
    refine byLabel_eq ((hperm.symm.map _).trans (List.Perm.of_eq ?_)) (sorted_places ranked)
    refine List.ext_getElem (by rw [places, List.length_map, List.length_map, List.length_zipIdx])
      fun k hk hk' => ?_
    simp only [places, List.getElem_map, List.getElem_zipIdx, Nat.zero_add,
      hnodup.idxOf_getElem]
  choose! place hplace using haliases
  have hmoved : aliasNumbers d (places ranked) (aliases d t) =
      .ok ((aliases d t).map fun i => (i, place i)) := by
    refine aliasNumbers_of_labels fun i hi => ?_
    obtain ⟨hlt, hlabelled⟩ := hplace i hi
    obtain ⟨e, he, hx⟩ := hnumber hlt hlabelled
    exact ⟨e, _, he, hx, rank?_places hlt⟩
  have hsnd : (places ranked).map Prod.snd = ranked := by
    rw [places, List.map_map]
    exact List.zipIdx_map_fst 0 ranked
  rw [renumber, hread]
  show (aliasNumbers d (byLabel _) (aliases d t) >>= _) = _
  rw [hsorted, hmoved]
  show Except.ok ({ t with nodes := _ }, relabel _ d) = _
  rw [hsnd, relabel_of_labels]
  rintro ⟨i, k⟩ hmem e he
  rcases List.mem_append.mp hmem with hmem | hmem
  · obtain ⟨e', he', hlabel⟩ := hplaces k i (List.mk_mem_zipIdx_iff_getElem?.mp hmem)
    rw [he] at he'
    cases he'
    exact hlabel
  · obtain ⟨j, hj, heq⟩ := List.mem_map.mp hmem
    cases heq
    obtain ⟨-, e', he', hlabel⟩ := hplace i hj
    rw [he] at he'
    cases he'
    exact hlabel

/-- **After renumbering the nodes are labelled with their places**, and the aliases with
places of nodes. -/
theorem labelled_renumber {t' : Topology} {d' : Diagram} (hcollected : Collected d t)
    (h : renumber d t = .ok (t', d')) : t'.nodes.Nodup ∧
      (∀ k i, t'.nodes[k]? = some i → Labelled d' i k) ∧
      ∀ i ∈ aliases d t, ∃ k < t'.nodes.length, Labelled d' i k := by
  have hrenumbers := renumber_eq_ok hcollected h
  obtain ⟨nodes, hperm, rfl⟩ := hrenumbers.topology
  refine ⟨hperm.nodup_iff.mpr hcollected.nodup_nodes, fun k i hk => ?_, fun i hi => ?_⟩
  · rw [renumber, bind_eq_ok] at h
    obtain ⟨labelled, hread, h⟩ := h
    rw [bind_eq_ok] at h
    obtain ⟨moved, hmoved, h⟩ := h
    cases h
    obtain ⟨hfst, -⟩ := aliasNumbers_eq_ok hmoved
    obtain ⟨e, -, he, -⟩ := hrenumbers.moved i
      (.inl (hperm.mem_iff.mp (List.mem_of_getElem? hk)))
    refine ⟨{ e with label := toString k }, ?_, rfl⟩
    rw [get?_relabel_of_mem (k := k) (nodup_keys_numbers hcollected hperm hfst), he]
    · rfl
    · exact List.mem_append_left _ (List.mk_mem_zipIdx_iff_getElem?.mpr hk)
  · obtain ⟨e, x, he, -, -, hlt, hget⟩ := hrenumbers.moved i (.inr hi)
    exact ⟨rankOf d t.network x, hperm.length_eq ▸ hlt, _, hget, rfl⟩

/-! ## Removing loose grounds -/

/-- **Removing grounds of which none is loose changes nothing.** -/
theorem pruneGrounds_of_reached (h : ∀ i ∈ t.grounds, reaches d t i = true) :
    pruneGrounds d t = ({ t with prunedGrounds := 0 }, d) := by
  have hkept : t.grounds.filter (reaches d t) = t.grounds := List.filter_eq_self.mpr h
  have hloose : t.grounds.filter (not ∘ reaches d t) = [] := by
    rw [List.filter_eq_nil_iff]
    intro i hi
    rw [Function.comp_apply, h i hi]
    exact Bool.false_ne_true
  rw [pruneGrounds, List.partition_eq_filter_filter]
  dsimp only
  rw [hkept, hloose]
  rfl

/-- A ground that is not kept is removed. -/
theorem get?_pruneGrounds_of_loose (hnodup : t.grounds.Nodup)
    (hlive : ∀ j ∈ t.grounds, (d.get? j).isSome = true) (hi : i ∈ t.grounds)
    (hloose : i ∉ (pruneGrounds d t).1.grounds) (hroot : i ≠ Diagram.root) :
    (pruneGrounds d t).2.get? i = none := by
  rw [pruneGrounds, List.partition_eq_filter_filter] at hloose ⊢
  have hgone : i ∈ (t.grounds.filter (not ∘ reaches d t)).filter (· != Diagram.root) := by
    refine List.mem_filter.mpr ⟨List.mem_filter.mpr ⟨hi, ?_⟩, by simpa using hroot⟩
    rw [Function.comp_apply]
    simpa [hi] using hloose
  dsimp only
  rw [← Diagram.foldl_remove_filter, Diagram.get?_foldl_remove ((hnodup.filter _).filter _),
    if_pos hgone]
  intro j hj
  rw [List.mem_filter, List.mem_filter] at hj
  exact ⟨by simpa using hj.2, hlive j hj.1.1⟩

/-- What is left to an extraction after numbering. -/
structure Pruned (prune : Bool) (t : Topology) (d : Diagram) (t' : Topology) (d' : Diagram) : Prop where
  topology : t' = { t with grounds := t'.grounds, prunedGrounds := t'.prunedGrounds }
  grounds : t'.grounds.Sublist t.grounds
  loose : ∀ i ∈ t.grounds, i ∉ t'.grounds → i ≠ Diagram.root → d'.get? i = none
  reached : prune = true → ∀ i ∈ t'.grounds, reaches d t i = true
  count : prune = false → t'.prunedGrounds = t.prunedGrounds

theorem pruned_of_eq {prune : Bool} {t' : Topology} {d' : Diagram} (hnodup : t.grounds.Nodup)
    (hlive : ∀ j ∈ t.grounds, (d.get? j).isSome = true)
    (h : (if prune then pruneGrounds d t else (t, d)) = (t', d')) : Pruned prune t d t' d' := by
  cases prune with
  | false =>
    cases h
    exact ⟨rfl, List.Sublist.refl _, fun i hi hnot => absurd hi hnot,
      fun h => absurd h Bool.false_ne_true, fun _ => rfl⟩
  | true =>
    have hpruned : pruneGrounds d t = (t', d') := h
    have hgrounds : t'.grounds = t.grounds.filter (reaches d t) := by
      rw [pruneGrounds, List.partition_eq_filter_filter] at hpruned
      cases hpruned
      rfl
    refine ⟨?_, ?_, fun i hi hloose hroot => ?_, fun _ i hi => ?_,
      fun h => absurd h.symm Bool.false_ne_true⟩
    · rw [pruneGrounds] at hpruned
      cases hpruned
      rfl
    · rw [hgrounds]
      exact List.filter_sublist
    · have hgone := get?_pruneGrounds_of_loose hnodup hlive hi (by rw [hpruned]; exact hloose) hroot
      rw [hpruned] at hgone
      exact hgone
    · rw [hgrounds, List.mem_filter] at hi
      exact hi.2

/-! ## A whole extraction -/

/-- What numbering and removing grounds leaves of the collected parts `t₀`. -/
structure Narrows (prune : Bool) (d : Diagram) (t₀ t : Topology) (d' : Diagram) : Prop where
  network : t.network = t₀.network
  nodes : t.nodes.Perm t₀.nodes
  references : t.references = t₀.references
  copies : t.interfaceNodes = t₀.interfaceNodes
  links : t.links = t₀.links
  ports : t.ports = t₀.ports
  grounds : t.grounds.Sublist t₀.grounds
  loose : ∀ i ∈ t₀.grounds, i ∉ t.grounds → i ≠ Diagram.root → d'.get? i = none
  reached : prune = true → ∀ i ∈ t.grounds, reaches d t i = true
  count : prune = false → t.prunedGrounds = t₀.prunedGrounds
  nodup : t.nodes.Nodup
  places : ∀ k i, t.nodes[k]? = some i → Labelled d' i k
  aliases : ∀ i ∈ aliases d t, ∃ k < t.nodes.length, Labelled d' i k

theorem reaches_congr {d' : Diagram} {t' : Topology} (hports : t'.ports = t.ports)
    (h : ∀ p ∈ t.ports, ((d'.get? p).any fun e => e.touches i) = (d.get? p).any fun e => e.touches i) :
    reaches d' t' i = reaches d t i := by
  rw [Bool.eq_iff_iff, reaches, reaches, hports, List.any_eq_true, List.any_eq_true]
  exact exists_congr fun p => and_congr_right fun hp => by rw [h p hp]

/-- **What an extraction makes of what it collects.** -/
theorem extract_narrows {prune : Bool} {d' : Diagram} (h : extract c prune scope d = .ok (t, d')) :
    ∃ t₀, collect d scope = .ok t₀ ∧ checkFilled d t₀ = .ok () ∧
      agreedDomain c d t₀ = .ok t.domain ∧ Narrows prune d t₀ t d' := by
  obtain ⟨-, gone, hextracts⟩ := extract_eq_ok h
  obtain ⟨t₀, domain, t₁, dr, hcollect, hfilled, hdomain, hrenumber, hprune⟩ := extract_steps.mp h
  obtain ⟨-, hcollected⟩ := collect_eq_ok hcollect
  obtain ⟨u, hu⟩ : ∃ u : Topology, u = { t₀ with domain := domain } := ⟨_, rfl⟩
  have hcollected' : Collected d u := by
    rw [hu]
    exact { hcollected with }
  rw [← hu] at hrenumber
  have hrenumbers := renumber_eq_ok hcollected' hrenumber
  have hextracts₁ := Extracts.of_renumbers hcollected' hrenumbers
  obtain ⟨hnodup, hplaces, haliases⟩ := labelled_renumber hcollected' hrenumber
  obtain ⟨nodes, hperm, ht₁⟩ := hrenumbers.topology
  have hgrounds : t₁.grounds = t₀.grounds := by rw [ht₁, hu]
  have hpruned := pruned_of_eq (hgrounds ▸ hcollected.nodup_grounds) (fun j hj => by
    have hground := hextracts₁.grounds j hj
    obtain ⟨e, kind, he, -⟩ := hground.exists_kind
    have hstill : ¬ Moves d u j := by
      intro hmoves
      refine hextracts₁.not_moves_of_ground hground (hmoves.imp (fun hj => ?_) fun hj => ?_)
      · rw [ht₁]
        exact hperm.mem_iff.mpr hj
      · rw [ht₁]
        exact hj
    rw [hrenumbers.kept j hstill, he]
    rfl) hprune
  have ht := hpruned.topology
  have hnodes : t.nodes = t₁.nodes := by rw [ht]
  have hnetwork : t.network = u.network := by rw [ht, ht₁]
  have haliasesEq : Topology.aliases d t = Topology.aliases d u := by rw [ht, ht₁]; rfl
  have hports : t.ports = t₁.ports := by rw [ht]
  -- What has a place for a label after numbering still has it in the end.
  have hlabel : ∀ {i k}, Moves d t i → Moves d u i → Labelled dr i k → Labelled d' i k := by
    intro i k hmoves hmoves' hk
    obtain ⟨e, x, he, hx, -, -, hget⟩ := hrenumbers.moved i hmoves'
    obtain ⟨e₁, x₁, he₁, hx₁, -, -, hget₁⟩ := hextracts.moved i hmoves
    rw [he] at he₁
    cases he₁
    rw [hx] at hx₁
    cases hx₁
    obtain ⟨el, hel, hlabel⟩ := hk
    rw [hget] at hel
    cases hel
    refine ⟨_, hget₁, ?_⟩
    rw [Element.label_detachAll, hnetwork]
    exact hlabel
  refine ⟨t₀, hcollect, hfilled, ?_, ?_⟩
  · rw [hdomain, ht, ht₁, hu]
  · refine ⟨by rw [hnetwork, hu], ?_, by rw [ht, ht₁, hu], by rw [ht, ht₁, hu], by rw [ht, ht₁, hu],
      by rw [ht, ht₁, hu], hgrounds ▸ hpruned.grounds, hgrounds ▸ hpruned.loose, fun hyes i hi => ?_,
      fun hno => ?_, hnodes ▸ hnodup, fun k i hk => ?_, fun i hi => ?_⟩
    · rw [hnodes, ht₁]
      rw [hu] at hperm
      exact hperm
    · rw [← hpruned.reached hyes i hi]
      refine reaches_congr hports fun p hp => ?_
      rw [hextracts₁.get?_port hp]
    · rw [hpruned.count hno, ht₁, hu]
    · rw [hnodes] at hk
      have hmem := List.mem_of_getElem? hk
      refine hlabel (.inl (hnodes ▸ hmem)) (.inl ?_) (hplaces k i hk)
      rw [ht₁] at hmem
      exact hperm.mem_iff.mp hmem
    · rw [haliasesEq] at hi
      obtain ⟨k, hlt, hk⟩ := haliases i hi
      exact ⟨k, hnodes ▸ hlt, hlabel (.inr (haliasesEq ▸ hi)) (.inr hi) hk⟩

end Topology

end Netlist
