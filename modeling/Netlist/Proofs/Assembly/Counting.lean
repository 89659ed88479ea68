import Netlist.Proofs.Assembly.InPlace
import Netlist.Proofs.Assembly.Reproducing
import Netlist.Proofs.Assembly.SuperPorts

/-!
# Counting the nodes of an instance

The nodes of a network are the numbered ones outside its interfaces; a numbered node inside
an interface is a copy, an alias without a number of its own. An instance that is kept and
records no count is given the number of all numbered nodes in it, and so counts its copies
too. Where it has any, the next block of numbers starts later by as many, and what its
interfaces record of the network does not fit.

- `Topology.nodesIn_of_extract`: **the numbered nodes in a network are its nodes and its
  numbered copies.**
- `reuse_counts`: **what a kept instance counts, where the next one starts, and when its
  interfaces fit.**
-/

namespace Netlist

namespace Topology

variable {c : Catalog} {prune : Bool} {d d' : Diagram} {t : Topology} {scope network : Slot}
  {e : Element}

/-- The copies inside interfaces of the kinds that are numbered. -/
def numberedCopies (t : Topology) (d : Diagram) : List (Slot × Slot) :=
  t.interfaceNodes.filter fun copy => (d.get? copy.1).any Element.isNumberedNode

/-- A numbered node is either sorted to the main nodes or to the inner ones. -/
theorem countP_homes (d : Diagram) (pairs : List (Slot × Option Slot)) :
    (pairs.map Prod.fst).countP (fun i => (d.get? i).any Element.isNumberedNode) =
      (mainNodes d pairs NodeKind.isNumbered).length +
        (innerNodes pairs).countP fun copy => (d.get? copy.1).any Element.isNumberedNode := by
  induction pairs with
  | nil => rfl
  | cons pair pairs ih =>
    obtain ⟨n, home⟩ := pair
    have hnumbered : (d.get? n).any (fun e => e.nodeKind?.any NodeKind.isNumbered) =
        (d.get? n).any Element.isNumberedNode := rfl
    rw [List.map_cons, List.countP_cons, ih]
    -- the home decides which of the two lists a numbered node is counted in
    cases home with
    | none =>
      cases h : (d.get? n).any Element.isNumberedNode with
      | true => simp [mainNodes, innerNodes, hnumbered, h]; omega
      | false => simp [mainNodes, innerNodes, hnumbered, h]
    | some interface =>
      cases h : (d.get? n).any Element.isNumberedNode with
      | true => simp [mainNodes, innerNodes, h]; omega
      | false => simp [mainNodes, innerNodes, h]

/-- The numbered nodes in a collected network. -/
theorem nodesIn_of_collect (hcollect : collect d scope = .ok t) :
    Assembly.nodesIn d t.network = t.nodes.length + (t.numberedCopies d).length := by
  rw [collect, bind_eq_ok] at hcollect
  obtain ⟨network, -, hcollect⟩ := hcollect
  rw [bind_eq_ok] at hcollect
  obtain ⟨pairs, hpairs, hcollect⟩ := hcollect
  cases hcollect
  rw [numberedCopies, ← List.countP_eq_length_filter]
  refine Eq.trans ?_ (countP_homes d pairs)
  rw [(homes_eq_ok hpairs).1]
  show (d.descendants network).countP _ = ((d.descendants network).filter _).countP _
  rw [List.countP_filter]
  -- homes are looked up for nodes only, which misses no numbered node
  refine List.countP_congr fun i _ => ?_
  constructor
  · intro h
    obtain ⟨e, he, hnumbered⟩ := Option.any_eq_true _ _ |>.mp h
    rw [he]
    simpa using ⟨hnumbered, any_nodeKind?_isSome _ hnumbered⟩
  · intro h
    exact (Bool.and_eq_true _ _ |>.mp h).1

/-- Extraction puts the nodes in order, and neither adds nor drops one. -/
theorem exists_collect_of_extract (h : extract c prune scope d = .ok (t, d')) :
    ∃ t₀, collect d scope = .ok t₀ ∧ t.network = t₀.network ∧ t.nodes.Perm t₀.nodes ∧
      t.interfaceNodes = t₀.interfaceNodes := by
  obtain ⟨t₀, domain, t₁, d₁, hcollect, -, -, hrenumber, hfinish⟩ := extract_steps.mp h
  have hcollected : Collected d { t₀ with domain := domain } := { (collect_eq_ok hcollect).2 with }
  have hkept : t.network = t₁.network ∧ t.nodes = t₁.nodes ∧ t.interfaceNodes = t₁.interfaceNodes := by
    rw [← show (finish prune (t₁, d₁)).1 = t from congrArg Prod.fst hfinish]
    cases prune <;> exact ⟨rfl, rfl, rfl⟩
  obtain ⟨nodes, hperm, rfl⟩ := (renumber_eq_ok hcollected hrenumber).topology
  exact ⟨t₀, hcollect, hkept.1, hkept.2.1 ▸ hperm, hkept.2.2⟩

/-- **The numbered nodes in a network** are its nodes and its numbered copies. -/
theorem nodesIn_of_extract (h : extract c prune scope d = .ok (t, d')) :
    Assembly.nodesIn d t.network = t.nodeCount + (t.numberedCopies d).length := by
  obtain ⟨t₀, hcollect, hnetwork, hnodes, hcopies⟩ := exists_collect_of_extract h
  rw [hnetwork, nodesIn_of_collect hcollect, nodeCount, hnodes.length_eq, numberedCopies,
    numberedCopies, hcopies]

/-- The one network in a network container is that of the container itself. -/
theorem container_of_subNetwork (he : d.get? scope = some e) (hrole : e.role.isSubNetwork = true)
    (h : container d scope = .ok network) : network = scope := by
  have hmem : scope ∈ containers d scope := mem_containers.mpr ⟨.inl rfl, e, he, hrole⟩
  rw [container_eq_ok h] at hmem
  exact (List.mem_singleton.mp hmem).symm

end Topology

namespace Assembly

variable {x : Context} {c : Catalog} {prune : Bool} {d d₁ d' : Diagram} {s : Slot} {e : Element}
  {t : Topology} {offset : Nat} {p : Placed}

/-- Without a recorded count nothing stands in the way of counting. -/
theorem recordedCount_of_none (h : e.fields.get? Connections.nodeCountField = none) :
    recordedCount e = .ok none := by
  rw [recordedCount, integerField, h]
  rfl

/-- An instance that is kept and records no count gets the number of the numbered nodes in it. -/
theorem reuse_runs_of_no_count (he : d.get? s = some e)
    (hcount : e.fields.get? Connections.nodeCountField = none) {n : Nat} :
    Edit.Runs (reuse s offset) d n d' ↔ n = nodesIn d s ∧
      ∃ start, integerField e offsetField = .ok start ∧
        d' = moved (displacement offset (start.getD 0)) s d := by
  rw [reuse_runs_iff]
  constructor
  · rintro ⟨e', start, recorded, he', hstart, hrecorded, hn, hd⟩
    obtain rfl := Option.some.inj (he.symm.trans he')
    obtain rfl := Except.ok.inj ((recordedCount_of_none hcount).symm.trans hrecorded)
    exact ⟨hn, start, hstart, hd⟩
  · rintro ⟨hn, start, hstart, hd⟩
    exact ⟨e, start, none, he, hstart, recordedCount_of_none hcount, hn, hd⟩

/-- The turn of an instance that is kept gives it the number of nodes that keeping it does. -/
theorem exists_reuse_of_place (he : d.get? s = some e)
    (hkept : refreshedFrom x d s (e.fields.get? drawingField) = none)
    (h : Edit.Runs (place x s offset) d p d') :
    p.slot = s ∧ p.subnet.offset = offset ∧
      ∃ d₁, Edit.Runs (reuse s offset) d p.subnet.nodeCount d₁ := by
  obtain ⟨e', was, done, d₁, d₂, he', hsettle, -, -, rfl⟩ := place_runs_iff.mp h
  obtain rfl := Option.some.inj (he.symm.trans he')
  rw [settle_runs_iff, hkept] at hsettle
  obtain ⟨n, hdone, hreuse⟩ := hsettle
  cases hdone
  exact ⟨rfl, rfl, d₁, hreuse⟩

/-- **What a kept instance counts.** Where it records no count, keeping it works iff its
recorded offset can be read, and the count is that of the nodes of its network and of its
numbered copies. The next instance starts after both, and an interface that records the
nodes of the network passes the check of the count iff there are no numbered copies. -/
theorem reuse_counts (he : d.get? s = some e) (hrole : e.role.isSubNetwork = true)
    (hcount : e.fields.get? Connections.nodeCountField = none)
    (hextract : Topology.extract c prune s d = .ok (t, d₁)) :
    (∀ offset, (∃ n d', Edit.Runs (reuse s offset) d n d') ↔
      ∃ start, integerField e offsetField = .ok start) ∧
    (∀ offset n d', Edit.Runs (reuse s offset) d n d' →
      n = t.nodeCount + (t.numberedCopies d).length) ∧
    ∀ (x : Context) offset instances placed d',
      refreshedFrom x d s (e.fields.get? drawingField) = none →
      Edit.Runs (placeAll x offset (s :: instances)) d placed d' →
      ∃ p later, placed = p :: later ∧ p.slot = s ∧ p.subnet.offset = offset ∧
        p.subnet.nodeCount = t.nodeCount + (t.numberedCopies d).length ∧
        Chained (Word.count (offset + (t.nodeCount + (t.numberedCopies d).length))) later ∧
        ∀ d₂ placements side record, placements.lookup side.subnet = some p.placement.2 →
          side.record? d₂ = some record → record.nodeCount = t.nodeCount →
          (checkCount d₂ placements side = .ok () ↔ t.numberedCopies d = []) := by
  have hnodes : nodesIn d s = t.nodeCount + (t.numberedCopies d).length := by
    -- the instance is the container of the network, so both counts are of the same elements
    have hnetwork := Topology.container_of_subNetwork he hrole (Topology.extract_eq_ok hextract).1
    rw [← hnetwork]
    exact Topology.nodesIn_of_extract hextract
  have hreuse : ∀ offset n d', Edit.Runs (reuse s offset) d n d' →
      n = t.nodeCount + (t.numberedCopies d).length := fun offset n d' h =>
    ((reuse_runs_of_no_count he hcount).mp h).1.trans hnodes
  refine ⟨fun offset => ?_, hreuse, fun x offset instances placed d' hkept h => ?_⟩
  · simp only [reuse_runs_of_no_count he hcount]
    constructor
    · rintro ⟨_, _, -, start, hstart, -⟩
      exact ⟨start, hstart⟩
    · rintro ⟨start, hstart⟩
      exact ⟨_, _, rfl, start, hstart, rfl⟩
  · obtain ⟨p, later, d₂, rfl, hplace, hlater⟩ := placeAll_runs_cons.mp h
    obtain ⟨hslot, hoffset, d₃, hruns⟩ := exists_reuse_of_place he hkept hplace
    have hn := hreuse offset _ d₃ hruns
    refine ⟨p, later, rfl, hslot, hoffset, hn, hn ▸ chained_of_placeAll hlater,
      fun d₂ placements side record hplaced hrecord hrecorded => ?_⟩
    have hplacement : p.placement.2.nodeCount = p.subnet.nodeCount := rfl
    rw [checkCount_eq_ok_iff, ← List.length_eq_zero_iff]
    constructor
    · intro hall
      have hsame := hall record _ hrecord hplaced
      omega
    · intro hnone record' placed' hrecord' hplaced'
      obtain rfl := Option.some.inj (hrecord.symm.trans hrecord')
      obtain rfl := Option.some.inj (hplaced.symm.trans hplaced')
      omega

/-! ## A yard with a copy -/

/-- A valve from node `0` to its copy in the interface, in an instance that records no
count, and an empty instance after it. -/
def yardWithCopy : Diagram :=
  diagramOf
    [{ id := "root", role := .root },
      { id := "all", role := .network .super, label := "Town", parent := some 0 },
      { id := "s", role := .network .sub, label := "S", parent := some 1 },
      { id := "a", role := .node .basic, label := "0", parent := some 2 },
      { id := "v", role := .link ⟨"Valve", none⟩, label := "V1", parent := some 2 },
      { id := "i", role := .interface ⟨none, none⟩, label := "inlet", parent := some 2 },
      { id := "k", role := .node .basic, label := "0", parent := some 5,
        fields := Fields.ofList [(Element.keyField, "in")] },
      { id := "p", role := .port, label := "0", parent := some 2, source := some 4, target := some 3 },
      { id := "q", role := .port, label := "1", parent := some 2, source := some 4, target := some 6 },
      { id := "t", role := .network .sub, label := "T", parent := some 1 }]

/-- The network has one node and one copy of it. -/
theorem extract_yardWithCopy : ∃ e t d₁, yardWithCopy.get? 2 = some e ∧
    e.role.isSubNetwork = true ∧ e.fields.get? Connections.nodeCountField = none ∧
    Topology.extract Recording.valves true 2 yardWithCopy = .ok (t, d₁) ∧ t.nodeCount = 1 ∧
    t.numberedCopies yardWithCopy = [(6, 5)] := by
  have hextract : (Topology.extract Recording.valves true 2 yardWithCopy).toOption.map
      (fun r => (r.1.nodeCount, r.1.numberedCopies yardWithCopy)) = some (1, [(6, 5)]) := by cbv
  obtain ⟨⟨t, d₁⟩, hr, hfound⟩ := Option.map_eq_some_iff.mp hextract
  obtain ⟨hnodes, hcopies⟩ := Prod.mk.inj hfound
  exact ⟨_, t, d₁, rfl, rfl, rfl, toOption_eq_some.mp hr, hnodes, hcopies⟩

/-- The node and its copy count as two, and the next instance starts at `2`. -/
theorem reuse_counts_yard : ∃ e t d₁, yardWithCopy.get? 2 = some e ∧ e.role.isSubNetwork = true ∧
    e.fields.get? Connections.nodeCountField = none ∧
    Topology.extract Recording.valves true 2 yardWithCopy = .ok (t, d₁) ∧ t.nodeCount = 1 ∧
    (∃ n d', Edit.Runs (reuse 2 0) yardWithCopy n d') ∧
    (∀ n d', Edit.Runs (reuse 2 0) yardWithCopy n d' → n = 2) ∧
    ∃ p q d', Edit.Runs (placeAll streetContext 0 [2, 9]) yardWithCopy [p, q] d' ∧
      p.subnet.nodeCount = 2 ∧ q.subnet.offset = 2 := by
  obtain ⟨e, t, d₁, he, hrole, hcount, hextract, hnodes, hcopies⟩ := extract_yardWithCopy
  obtain ⟨hruns, hn, hplaces⟩ := reuse_counts he hrole hcount hextract
  rw [hnodes, hcopies] at hn hplaces
  have hstart : ∃ start, integerField e offsetField = .ok start := by
    obtain rfl := Option.some.inj he
    exact ⟨none, rfl⟩
  have hkept : refreshedFrom streetContext yardWithCopy 2 (e.fields.get? drawingField) = none := by
    obtain rfl := Option.some.inj he
    rfl
  have hrun : ((placeAll streetContext 0 [2, 9]).run yardWithCopy).result.toOption.map List.length =
      some 2 := by cbv
  obtain ⟨placed, hplaced, hlength⟩ := Option.map_eq_some_iff.mp hrun
  obtain ⟨p, later, rfl, -, -, hp, hlater, -⟩ :=
    hplaces streetContext 0 [9] placed _ hkept ⟨toOption_eq_some.mp hplaced, rfl⟩
  obtain ⟨q, rfl⟩ := List.length_eq_one_iff.mp (Nat.succ.inj hlength)
  exact ⟨e, t, d₁, he, hrole, hcount, hextract, hnodes, (hruns 0).mpr hstart, hn 0, p, q, _,
    ⟨toOption_eq_some.mp hplaced, rfl⟩, hp, hlater.1⟩

/-- **A copy is counted**: the network has one node, and keeping the instance gives it two. -/
theorem copy_counted : ¬ ∀ (c : Catalog) (prune : Bool) (d d₁ d' : Diagram) (s : Slot) (e : Element)
    (t : Topology) (offset n : Nat), d.get? s = some e → e.role.isSubNetwork = true →
      e.fields.get? Connections.nodeCountField = none →
      Topology.extract c prune s d = .ok (t, d₁) → Edit.Runs (reuse s offset) d n d' →
        n = t.nodeCount := by
  intro h
  obtain ⟨e, t, d₁, he, hrole, hcount, hextract, hnodes, -⟩ := extract_yardWithCopy
  have hrun : ((reuse 2 0).run yardWithCopy).result.toOption = some 2 := by cbv
  have hn := h _ _ _ _ _ _ _ _ _ _ he hrole hcount hextract ⟨toOption_eq_some.mp hrun, rfl⟩
  rw [hnodes] at hn
  cases hn

end Assembly

end Netlist
