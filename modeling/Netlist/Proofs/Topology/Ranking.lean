import Netlist.Proofs.Diagram.Labels
import Netlist.Proofs.Topology.WellFormed

/-!
# Numbering by rank

The nodes of an extracted network are numbered by the order of their labels, and the
aliases follow the nodes they name. Only the order matters: labels that are other integers
in the same order give the same network and the same diagram.

- `Ranked`: the labels of a network before and after it is extracted.
- `collect_same`, `renumber_shifted`: the stages of an extraction where labels are shifted.
- `extract_ranks`: **extraction numbers the nodes in the order of their labels, moves the
  aliases along and changes no other label**, and shifting the labels changes nothing.
-/

namespace Netlist.Topology

variable {c : Catalog} {d d' : Diagram} {scope network : Slot} {t : Topology} {i : Slot}

/-! ## Aliases -/

/-- A node that is named by another one: a reference outside interfaces, or a copy inside
one that is no ground. -/
def IsAlias (d : Diagram) (network i : Slot) : Prop :=
  MainNode d network (· == .reference) i ∨ CopyNode d network (· != .ground) i

/-- A node whose label is a number of a node. -/
def IsNamed (d : Diagram) (network i : Slot) : Prop :=
  MainNode d network NodeKind.isNumbered i ∨ IsAlias d network i

theorem moves_iff (hcollect : collect d scope = .ok t) : Moves d t i ↔ IsNamed d t.network i :=
  or_congr (mem_nodes_iff hcollect) (mem_aliases_iff hcollect)

/-! ## Ranks -/

theorem finite_mainLabels (hcollected : Collected d t) : (mainLabels d t.network).Finite := by
  refine (List.finite_toSet (t.nodes.filterMap (numberAt d))).subset ?_
  rintro x ⟨i, e, hi, he, hx⟩
  exact List.mem_filterMap.mpr ⟨i, (hcollected.nodes i).mpr hi, numberAt_eq_some.mpr ⟨e, he, hx⟩⟩

/-- **Ranks are in the order of the labels.** -/
theorem rankOf_lt_iff (hcollected : Collected d t) {x y : Int} (hx : x ∈ mainLabels d t.network)
    (hy : y ∈ mainLabels d t.network) :
    rankOf d t.network x < rankOf d t.network y ↔ x < y := by
  have hlt : ∀ {x y : Int}, x ∈ mainLabels d t.network → x < y →
      rankOf d t.network x < rankOf d t.network y := by
    intro x y hx hxy
    refine Set.ncard_lt_ncard ⟨fun z hz => ⟨hz.1, hz.2.trans hxy⟩, fun hsub => ?_⟩
      ((finite_mainLabels hcollected).subset fun z hz => hz.1)
    exact Int.lt_irrefl x (hsub ⟨hx, hxy⟩).2
  refine ⟨fun h => ?_, hlt hx⟩
  rcases Int.lt_trichotomy x y with hxy | rfl | hyx
  · exact hxy
  · exact absurd h (Nat.lt_irrefl _)
  · exact absurd h (Nat.lt_asymm (hlt hy hyx))

/-- The labels of a network before and after it is extracted. -/
structure Ranked (d : Diagram) (t : Topology) (d' : Diagram) : Prop where
  nodes : ∀ i, i ∈ t.nodes ↔ MainNode d t.network NodeKind.isNumbered i
  nodup : t.nodes.Nodup
  places : ∀ (k : Nat) i, t.nodes[k]? = some i → Labelled d' i k
  order : ∀ (k l : Nat) i j, t.nodes[k]? = some i → t.nodes[l]? = some j →
    ∃ x y : Int, numberAt d i = some x ∧ numberAt d j = some y ∧ (k < l ↔ x < y)
  aliases : ∀ i, IsAlias d t.network i → ∃ (k : Nat) (j : Slot) (x : Int), t.nodes[k]? = some j ∧
    numberAt d i = some x ∧ numberAt d j = some x ∧ Labelled d' i k ∧
      ∀ other ∈ t.nodes, numberAt d other = some x → other = j
  kept : ∀ i e', d'.get? i = some e' → ¬ IsNamed d t.network i →
    ∃ e, d.get? i = some e ∧ e'.label = e.label

theorem Labelled.unique {k l : Nat} (hk : Labelled d i k) (hl : Labelled d i l) : k = l := by
  obtain ⟨e, he, hk⟩ := hk
  obtain ⟨e', he', hl⟩ := hl
  rw [he] at he'
  cases he'
  exact Text.toString_inj.mp (hk.symm.trans hl)

theorem ranked_of_extract {prune : Bool} (h : extract c prune scope d = .ok (t, d')) :
    Ranked d t d' := by
  obtain ⟨-, gone, hextracts⟩ := extract_eq_ok h
  obtain ⟨t₀, hcollect, -, -, hnarrows⟩ := extract_narrows h
  obtain ⟨-, hcollected⟩ := collect_eq_ok hcollect
  have hnamed : ∀ {i}, Moves d t i ↔ IsNamed d t.network i := by
    intro i
    rw [hnarrows.network, ← moves_iff hcollect, Moves, Moves, hnarrows.nodes.mem_iff,
      Topology.aliases, Topology.aliases, hnarrows.references, hnarrows.copies]
  -- A named node has the rank of its label, read as an integer, for its new label.
  have hrank : ∀ {i}, IsNamed d t.network i → ∃ x, numberAt d i = some x ∧
      x ∈ mainLabels d t₀.network ∧ Labelled d' i (rankOf d t₀.network x) := by
    intro i hi
    obtain ⟨e, x, he, hx, hmain, -, hget⟩ := hextracts.moved i (hnamed.mpr hi)
    rw [← hnarrows.network]
    exact ⟨x, numberAt_eq_some.mpr ⟨e, he, hx⟩, hmain, _, hget, Element.label_detachAll _ _⟩
  have hnodes : ∀ i, i ∈ t.nodes ↔ MainNode d t.network NodeKind.isNumbered i := by
    intro i
    rw [hnarrows.nodes.mem_iff, hnarrows.network]
    exact mem_nodes_iff hcollect
  have hplace : ∀ {k i x}, t.nodes[k]? = some i → numberAt d i = some x →
      k = rankOf d t₀.network x ∧ x ∈ mainLabels d t₀.network := by
    intro k i x hk hx
    obtain ⟨y, hy, hmain, hlabel⟩ := hrank (.inl ((hnodes i).mp (List.mem_of_getElem? hk)))
    rw [hx, Option.some.injEq] at hy
    subst hy
    exact ⟨(hnarrows.places k i hk).unique hlabel, hmain⟩
  have hnumber : ∀ {k i}, t.nodes[k]? = some i → ∃ x, numberAt d i = some x := fun hk =>
    (hrank (.inl ((hnodes _).mp (List.mem_of_getElem? hk)))).imp fun _ hx => hx.1
  refine ⟨hnodes, hnarrows.nodup, hnarrows.places, fun k l i j hk hl => ?_, fun i hi => ?_,
    fun i e' he' hi => ?_⟩
  · obtain ⟨x, hx⟩ := hnumber hk
    obtain ⟨y, hy⟩ := hnumber hl
    obtain ⟨rfl, hxmain⟩ := hplace hk hx
    obtain ⟨rfl, hymain⟩ := hplace hl hy
    exact ⟨x, y, hx, hy, rankOf_lt_iff hcollected hxmain hymain⟩
  · obtain ⟨x, hx, ⟨j, e, hj, he, hlabel⟩, hlabelled⟩ := hrank (.inr hi)
    have hmem : j ∈ t.nodes := hnarrows.nodes.mem_iff.mpr ((hcollected.nodes j).mpr hj)
    have hjx := numberAt_eq_some.mpr ⟨e, he, hlabel⟩
    obtain ⟨k, hk⟩ := List.getElem?_of_mem hmem
    obtain ⟨rfl, -⟩ := hplace hk hjx
    refine ⟨_, j, x, hk, hx, hjx, hlabelled, fun other hother hsame => ?_⟩
    obtain ⟨l, hl⟩ := List.getElem?_of_mem hother
    obtain ⟨rfl, -⟩ := hplace hl hsame
    exact Option.some.inj (hl.symm.trans hk)
  · by_cases hgone : i ∈ gone
    · rw [hextracts.removed i hgone] at he'
      cases he'
    · rw [hextracts.kept i hgone fun hmoves => hi (hnamed.mp hmoves), Option.map_eq_some_iff] at he'
      obtain ⟨e, he, rfl⟩ := he'
      exact ⟨e, he, Element.label_detachAll _ _⟩

/-! ## Shifted labels -/

/-- Two diagrams that differ in the labels of the named nodes of a network: as integers,
the latter are the former under `f`. -/
structure Shifted (f : Int → Int) (network : Slot) (d d' : Diagram) : Prop where
  bound : d'.bound = d.bound
  named : ∀ i, IsNamed d network i → numberAt d' i = (numberAt d i).map f ∧
    ∃ label, d'.get? i = (d.get? i).map fun e => { e with label := label }
  others : ∀ i, ¬ IsNamed d network i → d'.get? i = d.get? i

variable {f : Int → Int}

theorem Shifted.sameButLabels (h : Shifted f network d d') : d.SameButLabels d' := by
  refine ⟨h.bound, fun i => ?_⟩
  by_cases hi : IsNamed d network i
  · exact (h.named i hi).2
  · rw [h.others i hi]
    cases d.get? i with
    | none => exact ⟨"", rfl⟩
    | some e => exact ⟨e.label, rfl⟩

theorem homes_same (h : d.SameButLabels d') {nodes : List Slot}
    {pairs : List (Slot × Option Slot)} (hpairs : homes d nodes = .ok pairs) :
    homes d' nodes = .ok pairs := by
  induction nodes generalizing pairs with
  | nil => exact hpairs
  | cons i nodes ih =>
    rw [homes, bind_eq_ok] at hpairs ⊢
    obtain ⟨home, hhome, hpairs⟩ := hpairs
    rw [bind_eq_ok] at hpairs
    obtain ⟨rest, hrest, hpairs⟩ := hpairs
    exact ⟨home, h.nearestAncestor_eq_ok (fun _ _ _ => rfl) hhome,
      bind_eq_ok.mpr ⟨rest, ih hrest, hpairs⟩⟩

theorem withRole_same (h : d.SameButLabels d') (members : List Slot) (p : Role → Bool) :
    withRole d' members p = withRole d members p :=
  List.filter_congr fun _ _ => h.any fun _ _ => rfl

/-- **Collecting does not look at labels.** -/
theorem collect_same (h : d.SameButLabels d') (hcollect : collect d scope = .ok t) :
    collect d' scope = .ok t := by
  rw [collect, bind_eq_ok] at hcollect ⊢
  obtain ⟨network, hnetwork, hcollect⟩ := hcollect
  rw [bind_eq_ok] at hcollect
  obtain ⟨pairs, hpairs, hcollect⟩ := hcollect
  have hcontainers : containers d' scope = containers d scope := by
    simp only [containers, h.descendants]
    rw [List.filter_congr fun i _ => h.any fun _ _ => rfl,
      List.filter_congr fun i _ => h.any fun _ _ => rfl]
  have hmain : ∀ p, mainNodes d' pairs p = mainNodes d pairs p := fun p =>
    List.filterMap_congr fun pair _ => by
      obtain ⟨_, _⟩ := pair
      dsimp only
      rw [h.any fun _ _ => rfl]
  have hports : ∀ members links, portsOf d' members links = portsOf d members links := by
    intro members links
    rw [portsOf, portsOf, h.select fun _ _ => rfl]
    refine List.filter_congr fun i _ => ?_
    rw [funext fun link => h.any fun _ _ => rfl]
  refine ⟨network, ?_, bind_eq_ok.mpr ⟨pairs, ?_, ?_⟩⟩
  · rw [container, hcontainers, container_eq_ok hnetwork]
  · rw [h.descendants, withRole_same h]
    exact homes_same h hpairs
  · simp only [h.descendants, withRole_same h, hmain, hports]
    exact hcollect

/-! ## Numbering shifted labels -/

/-- Labelled nodes whose labels are shifted. -/
def shiftLabels (f : Int → Int) (labelled : List (Int × Slot)) : List (Int × Slot) :=
  labelled.map (Prod.map f id)

theorem readLabels_shifted (hf : StrictMono f) {nodes : List Slot} {labelled : List (Int × Slot)}
    (hnumbers : ∀ i ∈ nodes, numberAt d' i = (numberAt d i).map f)
    (h : readLabels d [] nodes = .ok labelled) :
    readLabels d' [] nodes = .ok (shiftLabels f labelled) := by
  obtain ⟨hnodup, hsnd, hall⟩ := readLabels_eq_ok h
  have hnumber : ∀ n ∈ labelled, numberAt d n.2 = some n.1 := fun n hn =>
    numberAt_eq_some.mpr (hall n hn)
  have hlabelled : labelled = nodes.map fun i => ((numberAt d i).getD 0, i) := by
    rw [← hsnd, List.map_map]
    refine (List.map_id labelled).symm.trans (List.map_congr_left fun n hn => ?_)
    rw [Function.comp_apply, hnumber n hn]
    rfl
  have hshifted : shiftLabels f labelled = nodes.map fun i => ((numberAt d' i).getD 0, i) := by
    rw [shiftLabels, ← hsnd, List.map_map]
    refine List.map_congr_left fun n hn => ?_
    rw [Function.comp_apply, hnumbers n.2 (hsnd ▸ List.mem_map_of_mem hn), hnumber n hn]
    rfl
  rw [hshifted]
  refine readLabels_of_labels (fun i hi => ?_) ?_ fun _ _ => List.not_mem_nil
  · obtain ⟨n, hn, rfl⟩ := List.mem_map.mp (hsnd ▸ hi)
    refine numberAt_eq_some.mp ?_
    rw [hnumbers n.2 hi, hnumber n hn]
    rfl
  · have hfst : (nodes.map fun i => (numberAt d' i).getD 0) = (labelled.map Prod.fst).map f := by
      rw [← hsnd, List.map_map, List.map_map]
      refine List.map_congr_left fun n hn => ?_
      rw [Function.comp_apply, hnumbers n.2 (hsnd ▸ List.mem_map_of_mem hn), hnumber n hn]
      rfl
    rw [hfst]
    exact hnodup.map hf.injective

theorem byLabel_shiftLabels (hf : StrictMono f) {labelled : List (Int × Slot)}
    (h : (labelled.map Prod.fst).Nodup) :
    byLabel (shiftLabels f labelled) = shiftLabels f (byLabel labelled) := by
  refine byLabel_eq ((byLabel_perm labelled).map _).symm ?_
  rw [shiftLabels, List.pairwise_map]
  exact (byLabel_sorted h).imp fun hlt => hf hlt

theorem rank?_shiftLabels (hf : StrictMono f) (labelled : List (Int × Slot)) (x : Int) :
    rank? (shiftLabels f labelled) (f x) = rank? labelled x := by
  rw [rank?, rank?, shiftLabels, List.findIdx?_map]
  refine congrArg (fun p => List.findIdx? p labelled) (funext fun n => ?_)
  rw [Function.comp_apply, Bool.eq_iff_iff, beq_iff_eq, beq_iff_eq]
  exact hf.injective.eq_iff

theorem bound_relabel (numbers : List (Slot × Nat)) (d : Diagram) :
    (relabel numbers d).bound = d.bound := by
  induction numbers generalizing d with
  | nil => rfl
  | cons n numbers ih => exact (ih _).trans (Diagram.bound_modify d n.1 _)

/-- **Numbering looks at the order of the labels only.** -/
theorem renumber_shifted (hf : StrictMono f) (hcollected : Collected d t)
    (hmoves : ∀ i, Moves d t i ↔ IsNamed d t.network i) (h : Shifted f t.network d d')
    {r : Topology × Diagram} (hrenumber : renumber d t = .ok r) : renumber d' t = .ok r := by
  have hsame := h.sameButLabels
  have hnumbers : ∀ i, Moves d t i → numberAt d' i = (numberAt d i).map f := fun i hi =>
    (h.named i ((hmoves i).mp hi)).1
  have haliases : aliases d' t = aliases d t := by
    rw [aliases, aliases]
    refine congrArg _ (List.filter_congr fun i _ => ?_)
    rw [hsame.any fun _ _ => rfl]
  rw [renumber, bind_eq_ok] at hrenumber
  obtain ⟨labelled, hread, hrenumber⟩ := hrenumber
  rw [bind_eq_ok] at hrenumber
  obtain ⟨moved, hmoved, hrenumber⟩ := hrenumber
  obtain ⟨hnodup, hsnd, -⟩ := readLabels_eq_ok hread
  obtain ⟨hfst, hranks⟩ := aliasNumbers_eq_ok hmoved
  have hmoved' : aliasNumbers d' (shiftLabels f (byLabel labelled)) (aliases d' t) = .ok moved := by
    rw [haliases, ← hfst]
    refine aliasNumbers_of_ranks fun n hn => ?_
    obtain ⟨e, x, he, hx, hrank⟩ := hranks n hn
    have hnumber : numberAt d' n.1 = some (f x) := by
      rw [hnumbers n.1 (.inr (hfst ▸ List.mem_map_of_mem hn)), numberAt_eq_some.mpr ⟨e, he, hx⟩,
        Option.map_some]
    obtain ⟨e', he', hx'⟩ := numberAt_eq_some.mp hnumber
    exact ⟨e', f x, he', hx', (rank?_shiftLabels hf _ x).trans hrank⟩
  have hnodes : (shiftLabels f (byLabel labelled)).map Prod.snd =
      (byLabel labelled).map Prod.snd := by
    rw [shiftLabels, List.map_map]
    rfl
  have hperm : ((byLabel labelled).map Prod.snd).Perm t.nodes :=
    hsnd ▸ (byLabel_perm labelled).map Prod.snd
  -- Every label that is shifted is overwritten.
  have hrelabel : relabel (((byLabel labelled).map Prod.snd).zipIdx ++ moved) d' =
      relabel (((byLabel labelled).map Prod.snd).zipIdx ++ moved) d := by
    have hkeys := nodup_keys_numbers hcollected hperm hfst
    refine Diagram.ext_get? (by rw [bound_relabel, bound_relabel, h.bound]) fun i => ?_
    by_cases hi : i ∈ (((byLabel labelled).map Prod.snd).zipIdx ++ moved).map Prod.fst
    · obtain ⟨⟨j, k⟩, hmem, rfl⟩ := List.mem_map.mp hi
      obtain ⟨label, hget⟩ := hsame.elements j
      rw [get?_relabel_of_mem hkeys hmem, get?_relabel_of_mem hkeys hmem, hget, Option.map_map]
      rfl
    · rw [get?_relabel_of_not_mem hi, get?_relabel_of_not_mem hi]
      refine h.others i fun hnamed => hi ?_
      rw [List.map_append, List.zipIdx_map_fst, hfst, List.mem_append, hperm.mem_iff]
      exact (hmoves i).mpr hnamed
  rw [renumber, readLabels_shifted hf (fun i hi => hnumbers i (.inl hi)) hread]
  show (aliasNumbers d' (byLabel (shiftLabels f labelled)) (aliases d' t) >>= _) = _
  rw [byLabel_shiftLabels hf hnodup, hmoved']
  show Except.ok ({ t with nodes := _ }, relabel _ d') = _
  rw [hnodes, hrelabel]
  exact hrenumber

/-- **Shifting the labels of a network changes nothing that is extracted.** -/
theorem extract_shifted {prune : Bool} {d₂ : Diagram} (hf : StrictMono f)
    (h : extract c prune scope d = .ok (t, d')) (hshifted : Shifted f t.network d d₂) :
    extract c prune scope d₂ = .ok (t, d') := by
  obtain ⟨t₀, domain, t₁, d₁, hcollect, hfilled, hdomain, hrenumber, hprune⟩ := extract_steps.mp h
  obtain ⟨t₀', hcollect', -, -, hnarrows⟩ := extract_narrows h
  obtain rfl : t₀ = t₀' := Except.ok.inj (hcollect.symm.trans hcollect')
  rw [hnarrows.network] at hshifted
  have hsame := hshifted.sameButLabels
  obtain ⟨hlive, hnodes, hlinks, hports⟩ := checkFilled_eq_ok.mp hfilled
  have hlive' : ∃ e, d₂.get? t₀.network = some e := by
    rw [← Diagram.isLive_iff, hsame.live]
    exact Diagram.isLive_iff.mpr hlive
  -- No link is a node, so the links keep their labels.
  have hlink : ∀ i ∈ t₀.links, ∃ e e', d.get? i = some e ∧ d₂.get? i = some e' ∧
      e'.locator = e.locator ∧ e'.role = e.role := by
    intro i hi
    rw [(collect_eq_ok hcollect).2.links, mem_withRole] at hi
    obtain ⟨-, e, he, hrole⟩ := hi
    refine ⟨e, e, he, ?_, rfl, rfl⟩
    rw [hshifted.others i fun hnamed => ?_, he]
    have hnode : ∃ p, (d.get? i).any (fun e => e.nodeKind?.any p) = true := by
      rcases hnamed with hmain | hmain | hcopy
      · exact ⟨_, hmain.kind⟩
      · exact ⟨_, hmain.kind⟩
      · exact ⟨_, hcopy.kind⟩
    obtain ⟨p, hnode⟩ := hnode
    rw [he, Option.any_some] at hnode
    obtain ⟨kind, hkind, -⟩ := Option.any_eq_true _ _ |>.mp hnode
    rw [nodeKind?_eq_some.mp hkind] at hrole
    cases hrole
  have hcollected : Collected d { t₀ with domain := domain } := { (collect_eq_ok hcollect).2 with }
  have hmoves : ∀ i, Moves d t₀ i ↔ IsNamed d t₀.network i := fun _ => moves_iff hcollect
  refine extract_steps.mpr ⟨t₀, domain, t₁, d₁, collect_same hsame hcollect,
    checkFilled_eq_ok.mpr ⟨hlive', hnodes, hlinks, hports⟩,
    agreedDomain_congr rfl rfl rfl hlive' (fun i _ => hsame.bind fun _ _ => rfl) hlink hdomain,
    renumber_shifted hf hcollected hmoves hshifted hrenumber, hprune⟩

/-- **Extraction numbers the nodes in the order of their labels and moves the aliases
along**, and only that order matters. -/
theorem extract_ranks {prune : Bool} (h : extract c prune scope d = .ok (t, d')) :
    Ranked d t d' ∧ ∀ f d₂, StrictMono f → Shifted f t.network d d₂ →
      extract c prune scope d₂ = .ok (t, d') :=
  ⟨ranked_of_extract h, fun _ _ hf hshifted => extract_shifted hf h hshifted⟩

/-! ## Other labels in the same order -/

theorem collect_strewn : collect (strewn "7" "-3" "007" "+7") Diagram.root =
    .ok { strewnTopology with nodes := [2, 3] } := by cbv

/-- The labels `100` and `0` are `7` and `-3` under an increasing function. -/
theorem shifted_strewn : Shifted (fun x => 10 * x + 30) 1 (strewn "7" "-3" "007" "+7")
    (strewn "100" "0" " 100" "100") := by
  have hnamed : ∀ i, IsNamed (strewn "7" "-3" "007" "+7") 1 i ↔ i ∈ [2, 3] ∨ i ∈ [4, 7] := by
    intro i
    have haliases : aliases (strewn "7" "-3" "007" "+7")
        { strewnTopology with nodes := [2, 3] } = [4, 7] := by cbv
    rw [← haliases]
    exact (moves_iff collect_strewn).symm
  refine ⟨rfl, fun i hi => ?_, fun i hi => ?_⟩
  · simp only [hnamed, List.mem_cons, List.not_mem_nil, or_false] at hi
    rcases hi with (rfl | rfl) | rfl | rfl
    · exact ⟨by cbv, "100", rfl⟩
    · exact ⟨by cbv, "0", rfl⟩
    · exact ⟨by cbv, " 100", rfl⟩
    · exact ⟨by cbv, "100", rfl⟩
  · rcases Nat.lt_or_ge i 10 with hlt | hge
    · have hall : ∀ j < 10, (j ∈ [2, 3] ∨ j ∈ [4, 7]) ∨
          (strewn "100" "0" " 100" "100").get? j = (strewn "7" "-3" "007" "+7").get? j := by decide
      exact (hall i hlt).resolve_left fun hmem => hi ((hnamed i).mpr hmem)
    · rw [Diagram.get?_of_bound_le hge, Diagram.get?_of_bound_le hge]

/-- Both give the nodes the numbers `1` and `0`. -/
theorem extract_ranks_strewn :
    Ranked (strewn "7" "-3" "007" "+7") strewnTopology (strewn "1" "0" "1" "1") ∧
      extract pipes true Diagram.root (strewn "100" "0" " 100" "100") =
        .ok (strewnTopology, strewn "1" "0" "1" "1") := by
  obtain ⟨hranked, hshifted⟩ := extract_ranks extract_strewn
  exact ⟨hranked, hshifted _ _ (fun x y hxy => by omega) shifted_strewn⟩

end Netlist.Topology
