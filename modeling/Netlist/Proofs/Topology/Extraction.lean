import Netlist.Proofs.Diagram.Removal
import Netlist.Proofs.Topology.Numbering
import Netlist.Topology.Extraction

/-!
# What extraction finds and does

Extracting a topology does three things to a diagram: the nodes of the network
and their aliases get new labels, grounds that no port reaches are removed, and
the ends of elements at removed grounds are cleared. Everything else stays.

- `Extracts`: the parts of an extracted topology in terms of the diagram before,
  and the diagram after it slot by slot.
- `extract_eq_ok`: what `extract` gives satisfies it.
- `Extracts.interfaceAround`: the scope of a node, which ports are compared by,
  is the nearest interface around it.
- `Extracts.get?_port`: the ports of the network stay as they are.
-/

namespace Netlist.Topology

variable {c : Catalog} {scope : Slot} {d d' : Diagram} {t : Topology}
  {gone : List Slot} {i : Slot}

/-- A topology extracted from a diagram, and the diagram after it. The slots in
`gone` held the grounds that were removed. -/
structure Extracts (d : Diagram) (t : Topology) (d' : Diagram) (gone : List Slot) : Prop where
  nodes : ∀ i, i ∈ t.nodes ↔ NodeIn d t.network none NodeKind.isNumbered i
  references : ∀ i, i ∈ t.references ↔ NodeIn d t.network none (· == .reference) i
  grounds : ∀ i, i ∈ t.grounds → NodeIn d t.network none (· == .ground) i
  copies : ∀ i interface, (i, interface) ∈ t.interfaceNodes ↔
    NodeIn d t.network (some interface) (fun _ => true) i
  links : t.links = withRole d (d.descendants t.network) Role.isLink
  spotters : t.spotters = withRole d (d.descendants t.network) Role.isSpotter
  interfaces : t.interfaces = withRole d (d.descendants t.network) Role.isInterface
  ports : t.ports = portsOf d (d.descendants t.network) t.links
  nodup_copies : (t.interfaceNodes.map Prod.fst).Nodup
  gone_ground : ∀ i ∈ gone, NodeIn d t.network none (· == .ground) i ∧ i ∉ t.grounds
  gone_free : ∀ i ∈ gone, ∀ p ∈ t.ports, ∀ e, d.get? p = some e → e.touches i = false
  removed : ∀ i ∈ gone, d'.get? i = none
  moved : ∀ i, Moves d t i → ∃ e x, d.get? i = some e ∧ e.labelNumber? = some x ∧
    x ∈ mainLabels d t.network ∧ rankOf d t.network x < t.nodes.length ∧
    d'.get? i = some ({ e with label := toString (rankOf d t.network x) }.detachAll gone)
  kept : ∀ i, i ∉ gone → ¬ Moves d t i → d'.get? i = (d.get? i).map (Element.detachAll gone)

/-! ## Ports and nodes -/

theorem mem_portsOf_iff {members links : List Slot} {p : Slot} : p ∈ portsOf d members links ↔
    (∃ e, d.get? p = some e ∧ e.role = .port) ∧
      (p ∈ members ∨ ∃ link ∈ links, (d.get? p).any (fun e => e.touches link) = true) := by
  rw [portsOf, List.mem_filter, Diagram.mem_select, Bool.or_eq_true, List.contains_iff_mem,
    List.any_eq_true]
  simp only [beq_iff_eq]

theorem mem_portsOf {members links : List Slot} {p : Slot} (h : p ∈ portsOf d members links) :
    ∃ e, d.get? p = some e ∧ e.role = .port := (mem_portsOf_iff.mp h).1

/-- What moves is a node. -/
theorem Extracts.nodeKind_of_moves (h : Extracts d t d' gone) (hi : Moves d t i) :
    ∃ home p, NodeIn d t.network home p i ∧ p .ground = false ∨
      NodeIn d t.network home p i ∧ (d.get? i).any Element.isGround = false := by
  rcases hi with hi | hi
  · exact ⟨none, _, .inl ⟨(h.nodes i).mp hi, rfl⟩⟩
  · rcases mem_aliases.mp hi with hi | ⟨interface, hi, hground⟩
    · exact ⟨none, _, .inl ⟨(h.references i).mp hi, rfl⟩⟩
    · exact ⟨some interface, _, .inr ⟨(h.copies i interface).mp hi, hground⟩⟩

/-- Grounds of the main network do not move. -/
theorem Extracts.not_moves_of_ground (h : Extracts d t d' gone)
    (hi : NodeIn d t.network none (· == .ground) i) : ¬ Moves d t i := by
  rintro (hmem | hmem)
  · obtain ⟨kind, hnumbered, hground⟩ := ((h.nodes i).mp hmem).kind_overlap hi
    rw [beq_iff_eq] at hground
    subst hground
    cases hnumbered
  · rcases mem_aliases.mp hmem with hmem | ⟨interface, hmem, -⟩
    · obtain ⟨kind, href, hground⟩ := ((h.references i).mp hmem).kind_overlap hi
      rw [beq_iff_eq] at href hground
      rw [href] at hground
      cases hground
    · cases ((h.copies i interface).mp hmem).home_unique hi

/-- Two elements differ at most in their labels and ends. -/
structure Alike (e e' : Element) : Prop where
  id : e'.id = e.id
  role : e'.role = e.role
  parent : e'.parent = e.parent
  fields : e'.fields = e.fields

/-- Whatever is not removed keeps all but its label and ends. -/
theorem Extracts.get?_of_not_gone (h : Extracts d t d' gone) {e : Element}
    (he : d.get? i = some e) (hi : i ∉ gone) : ∃ e', d'.get? i = some e' ∧ Alike e e' := by
  by_cases hmoves : Moves d t i
  · obtain ⟨e₁, x, he₁, -, -, -, hget⟩ := h.moved i hmoves
    rw [he] at he₁
    cases he₁
    exact ⟨_, hget, by simp, by simp, by simp, by simp⟩
  · rw [h.kept i hi hmoves, he]
    exact ⟨_, rfl, by simp, by simp, by simp, by simp⟩

/-- What is no node of a network keeps its label. -/
theorem Extracts.get?_of_not_node (h : Extracts d t d' gone) {e : Element}
    (he : d.get? i = some e) (hrole : e.role.nodeKind? = none) :
    d'.get? i = some (e.detachAll gone) := by
  have hnot : ∀ {home : Option Slot} {p : NodeKind → Bool}, ¬ NodeIn d t.network home p i := by
    intro home p hin
    obtain ⟨e', kind, he', hkind, -⟩ := hin.exists_kind
    rw [he] at he'
    cases he'
    rw [hkind] at hrole
    cases hrole
  rw [h.kept i, he, Option.map_some]
  · intro hi
    exact hnot (h.gone_ground i hi).1
  · intro hi
    obtain ⟨home, p, hin | hin⟩ := h.nodeKind_of_moves hi
    · exact hnot hin.1
    · exact hnot hin.1

/-- **The ports of the network stay as they are**, since none ends at a removed ground. -/
theorem Extracts.get?_port (h : Extracts d t d' gone) {p : Slot} (hp : p ∈ t.ports) :
    d'.get? p = d.get? p := by
  obtain ⟨e, he, hrole⟩ := mem_portsOf (h.ports ▸ hp)
  rw [h.get?_of_not_node he (by rw [hrole]; rfl), he,
    Element.detachAll_of_not_touches fun i hi => h.gone_free i hi p hp e he]

theorem interfaceOf?_eq_some (hnodup : (t.interfaceNodes.map Prod.fst).Nodup) {interface : Slot} :
    t.interfaceOf? i = some interface ↔ (i, interface) ∈ t.interfaceNodes := by
  rw [interfaceOf?, Option.map_eq_some_iff]
  constructor
  · rintro ⟨⟨n, interface'⟩, hfind, rfl⟩
    have hkey := List.find?_some hfind
    rw [beq_iff_eq] at hkey
    subst hkey
    exact List.mem_of_find?_eq_some hfind
  · intro hmem
    refine ⟨(i, interface), ?_, rfl⟩
    obtain ⟨pair, hfind⟩ := Option.isSome_iff_exists.mp
      (List.find?_isSome (p := fun copy : Slot × Slot => copy.1 == i) |>.mpr
        ⟨_, hmem, beq_self_eq_true _⟩)
    have hkey := List.find?_some hfind
    rw [beq_iff_eq] at hkey
    rw [hfind, Option.some.injEq]
    exact List.inj_on_of_nodup_map hnodup (List.mem_of_find?_eq_some hfind) hmem hkey

theorem isNode_iff (hnodup : (t.interfaceNodes.map Prod.fst).Nodup) :
    t.isNode i = true ↔ i ∈ t.nodes ∨ i ∈ t.references ∨ i ∈ t.grounds ∨
      ∃ interface, (i, interface) ∈ t.interfaceNodes := by
  simp only [isNode, Bool.or_eq_true, List.contains_iff_mem, Option.isSome_iff_exists,
    interfaceOf?_eq_some hnodup, or_assoc]

/-- **The scope of a node is the nearest interface around it.** -/
theorem Extracts.interfaceAround (h : Extracts d t d' gone) (hi : t.isNode i = true) :
    interfaceAround d i = .ok (t.interfaceOf? i) := by
  have hmain : ∀ {p : NodeKind → Bool}, NodeIn d t.network none p i →
      Topology.interfaceAround d i = .ok (t.interfaceOf? i) := by
    intro p hin
    rw [hin.home]
    cases hscope : t.interfaceOf? i with
    | none => rfl
    | some interface =>
      have := (h.copies i interface).mp ((interfaceOf?_eq_some h.nodup_copies).mp hscope)
      cases hin.home_unique this
  rcases (isNode_iff h.nodup_copies).mp hi with hi | hi | hi | ⟨interface, hi⟩
  · exact hmain ((h.nodes i).mp hi)
  · exact hmain ((h.references i).mp hi)
  · exact hmain (h.grounds i hi)
  · rw [(interfaceOf?_eq_some h.nodup_copies).mpr hi]
    exact ((h.copies i interface).mp hi).home

/-- A node of the network is still there after extraction. -/
theorem Extracts.not_gone (h : Extracts d t d' gone) (hi : t.isNode i = true) : i ∉ gone := by
  intro hgone
  obtain ⟨hground, hnot⟩ := h.gone_ground i hgone
  rcases (isNode_iff h.nodup_copies).mp hi with hi | hi | hi | ⟨interface, hi⟩
  · exact h.not_moves_of_ground hground (.inl hi)
  · exact h.not_moves_of_ground hground (.inr (mem_aliases.mpr (.inl hi)))
  · exact hnot hi
  · cases ((h.copies i interface).mp hi).home_unique hground

/-- Nothing but grounds is removed. -/
theorem Extracts.not_gone_of_role (h : Extracts d t d' gone) {e : Element} (he : d.get? i = some e)
    (hrole : e.role ≠ .node .ground) : i ∉ gone := by
  intro hi
  obtain ⟨e', kind, he', hkind, hground⟩ := (h.gone_ground i hi).1.exists_kind
  rw [beq_iff_eq] at hground
  rw [he, Option.some.injEq] at he'
  exact hrole (by rw [he', hkind, hground])

/-- A node of the network has the role of one. -/
theorem Extracts.exists_role (h : Extracts d t d' gone) (hi : t.isNode i = true) :
    ∃ e kind, d.get? i = some e ∧ e.role = .node kind := by
  have hkind : ∀ {home : Option Slot} {p : NodeKind → Bool}, NodeIn d t.network home p i →
      ∃ e kind, d.get? i = some e ∧ e.role = .node kind := by
    intro home p hin
    obtain ⟨e, kind, he, hrole, -⟩ := hin.exists_kind
    exact ⟨e, kind, he, hrole⟩
  rcases (isNode_iff h.nodup_copies).mp hi with hi | hi | hi | ⟨interface, hi⟩
  · exact hkind ((h.nodes i).mp hi)
  · exact hkind ((h.references i).mp hi)
  · exact hkind (h.grounds i hi)
  · exact hkind ((h.copies i interface).mp hi)

/-- A node of the network either is a ground or moves. -/
theorem Extracts.ground_or_moves (h : Extracts d t d' gone) (hi : t.isNode i = true) :
    (d.get? i).any Element.isGround = true ∨
      (d.get? i).any Element.isGround = false ∧ Moves d t i := by
  have hnot : ∀ {p : NodeKind → Bool}, NodeIn d t.network none p i → p .ground = false →
      (d.get? i).any Element.isGround = false := by
    intro p hin hp
    obtain ⟨e, kind, he, hrole, hkind⟩ := hin.exists_kind
    rw [he, Option.any_some, Element.isGround, hrole, beq_eq_false_iff_ne]
    intro heq
    cases heq
    rw [hp] at hkind
    cases hkind
  rcases (isNode_iff h.nodup_copies).mp hi with hi | hi | hi | ⟨interface, hi⟩
  · exact .inr ⟨hnot ((h.nodes i).mp hi) rfl, .inl hi⟩
  · exact .inr ⟨hnot ((h.references i).mp hi) rfl, .inr (mem_aliases.mpr (.inl hi))⟩
  · obtain ⟨e, kind, he, hrole, hground⟩ := (h.grounds i hi).exists_kind
    rw [beq_iff_eq] at hground
    subst hground
    exact .inl (by rw [he, Option.any_some, Element.isGround, hrole, beq_self_eq_true])
  · cases hground : (d.get? i).any Element.isGround with
    | true => exact .inl rfl
    | false => exact .inr ⟨rfl, .inr (mem_aliases.mpr (.inr ⟨interface, hi, hground⟩))⟩

/-! ## Extraction -/

/-- Renumbering extracts, as long as nothing is removed. -/
theorem Extracts.of_renumbers {t₀ : Topology} {d₁ : Diagram} (hcollected : Collected d t₀)
    (h : Renumbers d t₀ t d₁) : Extracts d t d₁ [] := by
  obtain ⟨nodes, hperm, rfl⟩ := h.topology
  have hmoves : ∀ i, Moves d { t₀ with nodes := nodes } i ↔ Moves d t₀ i := fun i => by
    rw [Moves, Moves, hperm.mem_iff]
    rfl
  exact {
    nodes := fun i => hperm.mem_iff.trans (hcollected.nodes i)
    references := hcollected.references
    grounds := fun i => (hcollected.grounds i).mp
    copies := hcollected.copies
    links := hcollected.links
    spotters := hcollected.spotters
    interfaces := hcollected.interfaces
    ports := hcollected.ports
    nodup_copies := hcollected.nodup_copies
    gone_ground := fun _ hmem => nomatch hmem
    gone_free := fun _ hmem => nomatch hmem
    removed := fun _ hmem => nomatch hmem
    moved := by
      intro i hi
      obtain ⟨e, x, he, hx, hmain, hlt, hget⟩ := h.moved i ((hmoves i).mp hi)
      exact ⟨e, x, he, hx, hmain, hperm.length_eq ▸ hlt, hget⟩
    kept := by
      intro i _ hi
      rw [h.kept i fun hm => hi ((hmoves i).mpr hm)]
      show d.get? i = (d.get? i).map id
      rw [Option.map_id, id] }

/-- Removing the grounds that no port reaches extracts too. -/
theorem Extracts.prune {d₁ : Diagram} (h : Extracts d t d₁ []) (hnodup : t.grounds.Nodup) :
    ∃ gone, Extracts d (pruneGrounds d₁ t).1 (pruneGrounds d₁ t).2 gone := by
  have hloose : (pruneGrounds d₁ t).2 =
      ((t.grounds.filter (not ∘ reaches d₁ t)).filter (· != Diagram.root)).foldl Diagram.remove d₁ := by
    rw [Diagram.foldl_remove_filter, pruneGrounds, List.partition_eq_filter_filter]
  have hkept : (pruneGrounds d₁ t).1.grounds = t.grounds.filter (reaches d₁ t) := by
    rw [pruneGrounds, List.partition_eq_filter_filter]
  let gone := (t.grounds.filter (not ∘ reaches d₁ t)).filter (· != Diagram.root)
  have hgone : ∀ i ∈ gone, i ∈ t.grounds ∧ reaches d₁ t i = false ∧ i ≠ Diagram.root := by
    intro i hi
    rw [List.mem_filter, List.mem_filter] at hi
    exact ⟨hi.1.1, by simpa using hi.1.2, by simpa using hi.2⟩
  -- Pruning is a run of removals, and the root is not among them.
  have hget : ∀ j, ((pruneGrounds d₁ t).2).get? j =
      if j ∈ gone then none else (d₁.get? j).map (Element.detachAll gone) := by
    intro j
    rw [hloose]
    refine Diagram.get?_foldl_remove ((hnodup.filter _).filter _) (fun i hi => ?_) j
    obtain ⟨hground, -, hroot⟩ := hgone i hi
    have hin := h.grounds i hground
    obtain ⟨e, kind, he, -⟩ := hin.exists_kind
    rw [h.kept i (by simp) (h.not_moves_of_ground hin), he]
    exact ⟨hroot, rfl⟩
  refine ⟨gone, {
    nodes := h.nodes
    references := h.references
    grounds := fun i hi => h.grounds i (List.mem_of_mem_filter (hkept ▸ hi))
    copies := h.copies
    links := h.links
    spotters := h.spotters
    interfaces := h.interfaces
    ports := h.ports
    nodup_copies := h.nodup_copies
    gone_ground := ?_
    gone_free := ?_
    removed := ?_
    moved := ?_
    kept := ?_ }⟩
  · intro i hi
    obtain ⟨hground, hreaches, -⟩ := hgone i hi
    refine ⟨h.grounds i hground, fun hmem => ?_⟩
    rw [hkept, List.mem_filter, hreaches] at hmem
    cases hmem.2
  · intro i hi p hp e he
    obtain ⟨-, hreaches, -⟩ := hgone i hi
    rw [reaches, List.any_eq_false] at hreaches
    have := hreaches p hp
    rw [h.get?_port hp, he, Option.any_some] at this
    simpa using this
  · intro i hi
    rw [hget, if_pos hi]
  · intro i hi
    obtain ⟨e, x, he, hx, hmain, hlt, hget₁⟩ := h.moved i hi
    have hnot : i ∉ gone := fun hmem => h.not_moves_of_ground (h.grounds i (hgone i hmem).1) hi
    refine ⟨e, x, he, hx, hmain, hlt, ?_⟩
    rw [hget, if_neg hnot, hget₁]
    rfl
  · intro i hi hmoves
    rw [hget, if_neg hi, h.kept i (by simp) hmoves, Option.map_map]
    rfl

/-- The steps of an extraction in a row. -/
theorem extract_steps {prune : Bool} : extract c prune scope d = .ok (t, d') ↔
    ∃ t₀ domain t₁ d₁, collect d scope = .ok t₀ ∧ checkFilled d t₀ = .ok () ∧
      agreedDomain c d t₀ = .ok domain ∧ renumber d { t₀ with domain := domain } = .ok (t₁, d₁) ∧
      (if prune then pruneGrounds d₁ t₁ else (t₁, d₁)) = (t, d') := by
  simp only [extract, bind_eq_ok, Prod.exists]
  constructor
  · rintro ⟨t₀, hcollect, _, hfilled, domain, hdomain, t₁, d₁, hrenumber, h⟩
    exact ⟨t₀, domain, t₁, d₁, hcollect, hfilled, hdomain, hrenumber, Except.ok.inj h⟩
  · rintro ⟨t₀, domain, t₁, d₁, hcollect, hfilled, hdomain, hrenumber, h⟩
    exact ⟨t₀, hcollect, (), hfilled, domain, hdomain, t₁, d₁, hrenumber, congrArg Except.ok h⟩

/-- An extraction that removes no grounds. -/
theorem extract_numbered (h : extract c false scope d = .ok (t, d')) :
    container d scope = .ok t.network ∧ Extracts d t d' [] ∧ t.grounds.Nodup := by
  obtain ⟨t₀, domain, t₁, d₁, hcollect, -, -, hrenumber, h⟩ := extract_steps.mp h
  cases h
  obtain ⟨hcontainer, hcollected⟩ := collect_eq_ok hcollect
  have hcollected' : Collected d { t₀ with domain := domain } := { hcollected with }
  have hrenumbers := renumber_eq_ok hcollected' hrenumber
  have hextracts := Extracts.of_renumbers hcollected' hrenumbers
  obtain ⟨nodes, -, rfl⟩ := hrenumbers.topology
  exact ⟨hcontainer, hextracts, hcollected.nodup_grounds⟩

/-- What becomes of a numbered network: its loose grounds are removed, or kept. -/
def finish (prune : Bool) (r : Topology × Diagram) : Topology × Diagram :=
  if prune then pruneGrounds r.2 r.1 else r

/-- Removing grounds comes last, and does not fail. -/
theorem extract_eq (c : Catalog) (prune : Bool) (scope : Slot) (d : Diagram) :
    extract c prune scope d = (extract c false scope d).map (finish prune) := by
  simp only [extract, map_bind_except]
  rfl

theorem parts_finish (prune : Bool) (r : Topology × Diagram) : (finish prune r).1 =
    { r.1 with
      grounds := (finish prune r).1.grounds
      prunedGrounds := (finish prune r).1.prunedGrounds } := by
  cases prune <;> rfl

/-- **What extraction finds and does.** The network is the one container of the
scope. -/
theorem extract_eq_ok {prune : Bool} (h : extract c prune scope d = .ok (t, d')) :
    container d scope = .ok t.network ∧ ∃ gone, Extracts d t d' gone := by
  rw [extract_eq] at h
  cases hnumbered : extract c false scope d with
  | error f =>
    rw [hnumbered] at h
    cases h
  | ok r =>
    obtain ⟨hcontainer, hextracts, hnodup⟩ := extract_numbered hnumbered
    rw [hnumbered] at h
    have hfinish : finish prune r = (t, d') := Except.ok.inj h
    have hnetwork : t.network = r.1.network := by
      rw [← show _ = t from congrArg Prod.fst hfinish, parts_finish]
    refine ⟨hnetwork ▸ hcontainer, ?_⟩
    cases prune with
    | false =>
      have hsame : r = (t, d') := hfinish
      rw [hsame] at hextracts
      exact ⟨[], hextracts⟩
    | true =>
      have hpruned : pruneGrounds r.2 r.1 = (t, d') := hfinish
      obtain ⟨gone, hgone⟩ := hextracts.prune hnodup
      rw [hpruned] at hgone
      exact ⟨gone, hgone⟩

end Netlist.Topology
