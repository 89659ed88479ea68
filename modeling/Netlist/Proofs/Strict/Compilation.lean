import Netlist.Proofs.Compilation.Switching
import Netlist.Proofs.Strict.Lookup

/-!
# Compiling finds what it looks for

A compilation looks for elements that it has sorted into a topology before. On the way it
renames some and removes some, but what it removes are grounds that no port reaches, and
it does not look for these again. So with strict lookups it does the same, on every
diagram: dangling parents and ends, and loops, are met by other checks.

- `extract_eq`, `finds_extract`: extracting, with strict lookups and without.
- `Extracts.exists_of_isNode`, `Extracts.exists_of_role`: what is left after extraction.
- `finds_build`: the port maps are read off elements that are there.
- `guards_compile`: **a compilation does the same with strict lookups, and none of them is
  in vain.**
-/

namespace Netlist

open Strict (look isLost Finds finds_fetch finds_violation look_eq_ok)

variable {c : Catalog} {d d₁ d' : Diagram} {t : Topology} {scope i : Slot} {gone : List Slot}

namespace Topology

/-! ## Collecting -/

/-- The second container of a scope that has several is there. -/
theorem finds_container (d : Diagram) (scope : Slot) : Finds (container d scope) := by
  rw [container]
  split
  · exact never_ok
  · exact finds_violation
  · rename_i first second rest hcontainers
    have hmem : second ∈ containers d scope := by simp [hcontainers]
    obtain ⟨-, e, he, -⟩ := mem_containers.mp hmem
    exact (finds_fetch he).bind fun _ _ => finds_violation

theorem finds_homes (d : Diagram) (nodes : List Slot) : Finds (homes d nodes) := by
  induction nodes with
  | nil => exact never_ok
  | cons i nodes ih =>
    rw [homes]
    exact (Strict.finds_nearestAncestor d i _).bind fun _ _ => ih.bind fun _ _ => never_ok

theorem finds_collect (d : Diagram) (scope : Slot) : Finds (collect d scope) :=
  (finds_container d scope).bind fun _ _ => (finds_homes d _).bind fun _ _ => never_ok

theorem NodeIn.exists_element {network : Slot} {home : Option Slot} {p : NodeKind → Bool}
    (h : NodeIn d network home p i) : ∃ e, d.get? i = some e := by
  obtain ⟨e, _, he, -⟩ := h.exists_kind
  exact ⟨e, he⟩

theorem exists_of_withRole {members : List Slot} {p : Role → Bool}
    (h : i ∈ withRole d members p) : ∃ e, d.get? i = some e := by
  obtain ⟨-, e, he, -⟩ := mem_withRole.mp h
  exact ⟨e, he⟩

/-- The nodes inside interfaces are there. -/
theorem Collected.exists_of_copy (h : Collected d t) (hi : i ∈ t.interfaceNodes.map Prod.fst) :
    ∃ e, d.get? i = some e := by
  obtain ⟨⟨n, interface⟩, hmem, rfl⟩ := List.mem_map.mp hi
  exact ((h.copies n interface).mp hmem).exists_element

theorem Collected.exists_of_alias (h : Collected d t) (hi : i ∈ aliases d t) :
    ∃ e, d.get? i = some e := by
  rcases mem_aliases.mp hi with hi | ⟨interface, hi, -⟩
  · exact ((h.references i).mp hi).exists_element
  · exact ((h.copies i interface).mp hi).exists_element

/-! ## Numbering -/

theorem finds_linkDomain {seen : Option (Domain × Locator)} {links : List Slot}
    (h : ∀ i ∈ links, ∃ e, d.get? i = some e) : Finds (linkDomain c d seen links) := by
  induction links generalizing seen with
  | nil => exact never_ok
  | cons i links ih =>
    obtain ⟨⟨e, he⟩, h⟩ := List.forall_mem_cons.mp h
    rw [linkDomain]
    refine (finds_fetch he).bind fun link _ => ?_
    split
    · exact finds_violation
    · split
      · exact ih h
      · exact ih h
      · split
        · exact ih h
        · exact finds_violation

theorem finds_readLabels {seen : List (Int × Slot)} {nodes : List Slot}
    (h : ∀ i ∈ nodes, ∃ e, d.get? i = some e) (hseen : ∀ s ∈ seen, ∃ e, d.get? s.2 = some e) :
    Finds (readLabels d seen nodes) := by
  induction nodes generalizing seen with
  | nil => exact never_ok
  | cons i nodes ih =>
    obtain ⟨⟨e, he⟩, h⟩ := List.forall_mem_cons.mp h
    rw [readLabels]
    refine (finds_fetch he).bind fun node _ => ?_
    split
    · exact finds_violation
    · split
      · rename_i number holder hfound
        obtain ⟨first, hfirst⟩ := hseen _ (List.mem_of_find?_eq_some hfound)
        exact (finds_fetch hfirst).bind fun _ _ => finds_violation
      · exact ih h (List.forall_mem_cons.mpr ⟨⟨e, he⟩, hseen⟩)

theorem finds_aliasNumbers {labelled : List (Int × Slot)} {slots : List Slot}
    (h : ∀ i ∈ slots, ∃ e, d.get? i = some e) : Finds (aliasNumbers d labelled slots) := by
  induction slots with
  | nil => exact never_ok
  | cons i slots ih =>
    obtain ⟨⟨e, he⟩, h⟩ := List.forall_mem_cons.mp h
    rw [aliasNumbers]
    refine (finds_fetch he).bind fun node _ => ?_
    split
    · exact finds_violation
    · exact (ih h).bind fun _ _ => never_ok

theorem Collected.finds_agreedDomain (h : Collected d t)
    (hnetwork : ∃ e, d.get? t.network = some e) : Finds (agreedDomain c d t) := by
  obtain ⟨e, he⟩ := hnetwork
  rw [agreedDomain]
  refine (finds_fetch he).bind fun network _ => ?_
  split
  · exact finds_violation
  · refine (finds_linkDomain fun i hi => exists_of_withRole (h.links ▸ hi)).bind fun o _ => ?_
    split
    · exact never_ok
    · split
      · exact never_ok
      · exact finds_violation

theorem finds_checkFilled (hnetwork : ∃ e, d.get? t.network = some e) : Finds (checkFilled d t) := by
  obtain ⟨e, he⟩ := hnetwork
  rw [checkFilled]
  refine (finds_fetch he).bind fun network _ => ?_
  dsimp only
  split_ifs
  · exact finds_violation
  · exact finds_violation
  · exact finds_violation
  · exact never_ok

theorem Collected.finds_renumber (h : Collected d t) : Finds (renumber d t) := by
  rw [renumber]
  refine (finds_readLabels (fun i hi => ((h.nodes i).mp hi).exists_element)
    fun _ hs => (List.not_mem_nil hs).elim).bind fun labelled _ => ?_
  exact (finds_aliasNumbers fun i hi => h.exists_of_alias hi).bind fun _ _ => never_ok

/-- **Extracting finds what it looks for.** -/
theorem finds_extract (c : Catalog) (prune : Bool) (scope : Slot) (d : Diagram) :
    Finds (extract c prune scope d) := by
  rw [extract]
  refine (finds_collect d scope).bind fun t hcollect => ?_
  obtain ⟨hcontainer, hcollected⟩ := collect_eq_ok hcollect
  obtain ⟨e, he, -⟩ := exists_of_container hcontainer
  refine (finds_checkFilled ⟨e, he⟩).bind fun _ _ => ?_
  refine (hcollected.finds_agreedDomain ⟨e, he⟩).bind fun domain _ => ?_
  have hcollected' : Collected d { t with domain := domain } := { hcollected with }
  exact hcollected'.finds_renumber.bind fun _ _ => never_ok

/-! ## After extraction -/

/-- What is no ground is left. -/
theorem Extracts.exists_of_role (h : Extracts d t d' gone) {e : Element} (he : d.get? i = some e)
    (hrole : e.role ≠ .node .ground) : ∃ e', d'.get? i = some e' := by
  obtain ⟨e', he', -⟩ := h.get?_of_not_gone he (h.not_gone_of_role he hrole)
  exact ⟨e', he'⟩

/-- What plays a role that no ground plays is left. -/
theorem Extracts.exists_of_played (h : Extracts d t d' gone) {p : Role → Bool} {e : Element}
    (he : d.get? i = some e) (hp : p e.role = true) (hground : p (.node .ground) = false) :
    ∃ e', d'.get? i = some e' := by
  refine h.exists_of_role he fun hrole => ?_
  rw [hrole, hground] at hp
  cases hp

/-- The nodes of the network are left. -/
theorem Extracts.exists_of_isNode (h : Extracts d t d' gone) (hi : t.isNode i = true) :
    ∃ e', d'.get? i = some e' := by
  obtain ⟨e, kind, he, -⟩ := h.exists_role hi
  obtain ⟨e', he', -⟩ := h.get?_of_not_gone he (h.not_gone hi)
  exact ⟨e', he'⟩

theorem Extracts.exists_of_copy (h : Extracts d t d' gone)
    (hi : i ∈ t.interfaceNodes.map Prod.fst) : ∃ e', d'.get? i = some e' := by
  obtain ⟨⟨n, interface⟩, hmem, rfl⟩ := List.mem_map.mp hi
  exact h.exists_of_isNode ((isNode_iff h.nodup_copies).mpr (.inr (.inr (.inr ⟨interface, hmem⟩))))

theorem Extracts.exists_of_port (h : Extracts d t d' gone) (hi : i ∈ t.ports) :
    ∃ e', d'.get? i = some e' := by
  obtain ⟨e, he, -⟩ := mem_portsOf (h.ports ▸ hi)
  exact ⟨e, (h.get?_port hi).trans he⟩

theorem Extracts.exists_of_link (h : Extracts d t d' gone) (hi : i ∈ t.links) :
    ∃ e', d'.get? i = some e' := by
  rw [h.links] at hi
  obtain ⟨-, e, he, hlink⟩ := mem_withRole.mp hi
  exact h.exists_of_played he hlink rfl

theorem Extracts.exists_of_spotter (h : Extracts d t d' gone) (hi : i ∈ t.spotters) :
    ∃ e', d'.get? i = some e' := by
  rw [h.spotters] at hi
  obtain ⟨-, e, he, hspotter⟩ := mem_withRole.mp hi
  exact h.exists_of_played he hspotter rfl

theorem Extracts.exists_of_network (h : Extracts d t d' gone)
    (hcontainer : container d scope = .ok t.network) : ∃ e', d'.get? t.network = some e' := by
  obtain ⟨e, he, hnetwork⟩ := exists_of_container hcontainer
  exact h.exists_of_played he hnetwork rfl

end Topology

/-! ## Port maps -/

namespace PortMap

open Netlist.Topology (Extracts)

/-- The drawn ports of a link can be looked up at both ends. -/
structure Grounded (d : Diagram) (p : DrawnPort) : Prop where
  edge : ∃ e, d.get? p.edge = some e
  node : ∃ e, d.get? p.node = some e

theorem grounded_of_isDrawn {link : Slot} {p : DrawnPort} {d₀ : Diagram}
    (h : Extracts d₀ t d gone) (hdrawn : IsDrawn d t link p) : Grounded d p := by
  obtain ⟨e, he, -, hnode⟩ := farNode?_eq_some hdrawn.far
  exact ⟨⟨e, he⟩, h.exists_of_isNode hnode⟩

theorem finds_drawnPorts {link : Slot} {owner : Locator} {edges : List Slot}
    (h : ∀ i ∈ edges, ∃ e, d.get? i = some e) : Finds (drawnPorts d t link owner edges) := by
  induction edges with
  | nil => exact never_ok
  | cons edge edges ih =>
    obtain ⟨⟨e, he⟩, h⟩ := List.forall_mem_cons.mp h
    have hread : Finds (readPort d t link owner edge) := by
      rw [readPort]
      refine (finds_fetch he).bind fun port _ => ?_
      split
      · exact finds_violation
      · split
        · exact finds_violation
        · exact never_ok
    rw [drawnPorts]
    refine (finds_fetch he).bind fun port _ => ?_
    split
    · exact hread.bind fun _ _ => (ih h).bind fun _ _ => never_ok
    · exact ih h

theorem finds_target {node : Slot} (h : ∃ e, d.get? node = some e) : Finds (target d node) := by
  obtain ⟨e, he⟩ := h
  rw [target]
  refine (finds_fetch he).bind fun _ _ => ?_
  split
  · exact never_ok
  · split
    · exact never_ok
    · exact finds_violation

theorem finds_fill {owner : Locator} {slots : List (Option Claim)} {drawn : List DrawnPort}
    (h : ∀ p ∈ drawn, Grounded d p) : Finds (fill d t owner slots drawn) := by
  induction drawn generalizing slots with
  | nil => exact never_ok
  | cons port drawn ih =>
    obtain ⟨⟨⟨edge, hedge⟩, hnode⟩, h⟩ := List.forall_mem_cons.mp h
    rw [fill]
    refine (finds_fetch hedge).bind fun _ _ => ?_
    split
    · exact finds_violation
    · refine (finds_target hnode).bind fun _ _ => ?_
      split
      · exact finds_violation
      · exact ih h

theorem finds_resolve {d₀ : Diagram} {link : Slot} {owner : Locator} {master : Master}
    (h : Extracts d₀ t d gone) : Finds (resolve d t link owner master) := by
  rw [resolve]
  refine (finds_drawnPorts fun i hi => h.exists_of_port hi).bind fun drawn hdrawn => ?_
  split
  · exact finds_violation
  · refine (finds_fill fun p hp => ?_).bind fun _ _ => never_ok
    exact grounded_of_isDrawn h ((drawnPorts_eq_ok hdrawn).1 p hp)

theorem finds_resolveAll {d₀ : Diagram} {links : List Slot} (h : Extracts d₀ t d gone)
    (hlinks : links ⊆ t.links) : Finds (resolveAll c d t links) := by
  induction links with
  | nil => exact never_ok
  | cons i links ih =>
    obtain ⟨hi, hlinks⟩ := List.cons_subset.mp hlinks
    obtain ⟨e, he⟩ := h.exists_of_link hi
    rw [resolveAll]
    refine (finds_fetch he).bind fun link _ => ?_
    split
    · exact finds_violation
    · refine (finds_resolve h).bind fun _ _ => (ih hlinks).bind fun _ _ => ?_
      split <;> exact never_ok

/-- **Port maps are read off elements that are there.** -/
theorem finds_build {d₀ : Diagram} (h : Extracts d₀ t d gone) : Finds (PortMaps.build c t d) :=
  (finds_resolveAll h fun _ hi => hi).bind fun _ _ => never_ok

/-- The links of port maps are links of the topology. -/
theorem mem_links_of_build {maps : PortMaps} (h : PortMaps.build c t d = .ok maps)
    {resolved : ResolvedLink} (hmem : resolved ∈ maps.links) : resolved.link ∈ t.links := by
  obtain ⟨i, hi, hresolves⟩ := forall₂_mem_right (build_eq_ok h).1 hmem
  rw [hresolves.link_eq]
  rw [setUpOrder, List.mem_append] at hi
  exact hi.elim List.mem_of_mem_filter List.mem_of_mem_filter

end PortMap

/-! ## Reading off the network -/

namespace Compilation

theorem finds_nodeRecords {number : Nat} {nodes : List Slot}
    (h : ∀ i ∈ nodes, ∃ e, d.get? i = some e) : Finds (nodeRecords d number nodes) := by
  induction nodes generalizing number with
  | nil => exact never_ok
  | cons i nodes ih =>
    obtain ⟨⟨e, he⟩, h⟩ := List.forall_mem_cons.mp h
    rw [nodeRecords]
    exact (finds_fetch he).bind fun _ _ => (ih h).bind fun _ _ => never_ok

theorem finds_linkRecords {links : List ResolvedLink}
    (h : ∀ resolved ∈ links, ∃ e, d.get? resolved.link = some e) : Finds (linkRecords d links) := by
  induction links with
  | nil => exact never_ok
  | cons resolved links ih =>
    obtain ⟨⟨e, he⟩, h⟩ := List.forall_mem_cons.mp h
    rw [linkRecords]
    refine (finds_fetch he).bind fun _ _ => (ih h).bind fun _ _ => ?_
    split <;> exact never_ok

theorem finds_spotterRecords {spotters : List Slot}
    (h : ∀ i ∈ spotters, ∃ e, d.get? i = some e) : Finds (spotterRecords d spotters) := by
  induction spotters with
  | nil => exact never_ok
  | cons i spotters ih =>
    obtain ⟨⟨e, he⟩, h⟩ := List.forall_mem_cons.mp h
    rw [spotterRecords]
    refine (finds_fetch he).bind fun _ _ => (ih h).bind fun _ _ => ?_
    split <;> exact never_ok

/-- The parts of a network that it is read off. -/
structure Readable (d : Diagram) (t : Topology) (maps : PortMaps) : Prop where
  network : ∃ e, d.get? t.network = some e
  nodes : ∀ i ∈ t.nodes, ∃ e, d.get? i = some e
  links : ∀ resolved ∈ maps.links, ∃ e, d.get? resolved.link = some e
  spotters : ∀ i ∈ t.spotters, ∃ e, d.get? i = some e

theorem Readable.finds_readNetwork {maps : PortMaps} (h : Readable d t maps)
    (entries : List InterfaceEntry) : Finds (readNetwork t maps entries d) := by
  obtain ⟨e, he⟩ := h.network
  rw [readNetwork]
  refine (finds_fetch he).bind fun _ _ => (finds_nodeRecords h.nodes).bind fun _ _ => ?_
  exact (finds_linkRecords h.links).bind fun _ _ =>
    (finds_spotterRecords h.spotters).bind fun _ _ => never_ok

/-- Neither reconciling nor recording removes anything. -/
theorem exists_of_recorded {d₂ : Diagram} {slots : List Slot} {maps : PortMaps}
    {entries : List InterfaceEntry} {e : Element} (hframe : SameButFields slots d₁ d₂)
    (hrecorded : List.Forall₂ (Recording.Recorded t maps d₂ d') t.interfaces entries)
    (hothers : ∀ j ∉ t.interfaces, d'.get? j = d₂.get? j) (he : d₁.get? i = some e) :
    ∃ e', d'.get? i = some e' := by
  obtain ⟨e₂, he₂, -⟩ := hframe.role he
  by_cases hi : i ∈ t.interfaces
  · obtain ⟨entry, -, e₃, found, -, -, -, hget⟩ := forall₂_mem_left hrecorded hi
    exact ⟨_, hget⟩
  · exact ⟨e₂, (hothers i hi).trans he₂⟩

/-- An extracted network can be read off as long as nothing else is removed. -/
theorem readable_of_extracts {maps : PortMaps} (h : Topology.Extracts d t d₁ gone)
    (hcontainer : Topology.container d scope = .ok t.network)
    (hbuild : PortMaps.build c t d₁ = .ok maps)
    (hleft : ∀ i e, d₁.get? i = some e → ∃ e', d'.get? i = some e') : Readable d' t maps := by
  have hstays : ∀ {i}, (∃ e, d₁.get? i = some e) → ∃ e, d'.get? i = some e :=
    fun ⟨e, he⟩ => hleft _ e he
  refine ⟨hstays (h.exists_of_network hcontainer), fun i hi => hstays ?_, fun resolved hres => ?_,
    fun i hi => hstays (h.exists_of_spotter hi)⟩
  · exact h.exists_of_isNode ((Topology.isNode_iff h.nodup_copies).mpr (.inl hi))
  · exact hstays (h.exists_of_link (PortMap.mem_links_of_build hbuild hres))

end Compilation

namespace Strict

/-! ## The strict stages -/

theorem container_eq (d : Diagram) (scope : Slot) :
    container d scope = Topology.container d scope := by
  rw [container, look_descendants]
  rfl

theorem homes_eq (d : Diagram) (nodes : List Slot) : homes d nodes = Topology.homes d nodes := by
  induction nodes with
  | nil => rfl
  | cons i nodes ih => rw [homes, Topology.homes, nearestAncestor_eq, ih, Topology.interfaceAround]

theorem collect_eq (d : Diagram) (scope : Slot) : collect d scope = Topology.collect d scope := by
  rw [collect, Topology.collect, container_eq]
  refine bind_congr_ok fun network _ => ?_
  dsimp only
  rw [look_descendants, homes_eq]
  rfl

theorem agreedDomain_eq (h : Topology.Collected d t) :
    agreedDomain c d t = Topology.agreedDomain c d t := by
  rw [agreedDomain, look_eq_ok.mpr]
  · rfl
  · intro i hi
    rcases List.mem_append.mp hi with hi | hi
    · exact ((h.nodes i).mp hi).exists_element
    · exact h.exists_of_copy hi

theorem renumber_eq (h : Topology.Collected d t) : renumber d t = Topology.renumber d t := by
  rw [renumber, look_eq_ok.mpr fun i hi => h.exists_of_copy hi]
  rfl

/-- The grounds that are removed are there until their turn comes. -/
theorem pruneGrounds_eq (h : Topology.Extracts d t d₁ []) (hnodup : t.grounds.Nodup) :
    pruneGrounds d₁ t = .ok (Topology.pruneGrounds d₁ t) := by
  rw [pruneGrounds, look_eq_ok.mpr fun i hi => h.exists_of_port hi, Topology.pruneGrounds,
    List.partition_eq_filter_filter]
  show removeEach _ d₁ >>= _ = _
  rw [removeEach_eq (hnodup.filter _)]
  · rfl
  · intro i hi
    obtain ⟨e, he⟩ := (h.grounds i (List.mem_of_mem_filter hi)).exists_element
    obtain ⟨e', he', -⟩ := h.get?_of_not_gone he List.not_mem_nil
    exact ⟨e', he'⟩

/-- **Extracting does the same with strict lookups.** -/
theorem extract_eq (c : Catalog) (prune : Bool) (scope : Slot) (d : Diagram) :
    extract c prune scope d = Topology.extract c prune scope d := by
  rw [extract, Topology.extract, collect_eq]
  refine bind_congr_ok fun t hcollect => bind_congr_ok fun _ hfilled => ?_
  obtain ⟨-, hcollected⟩ := Topology.collect_eq_ok hcollect
  rw [agreedDomain_eq hcollected]
  refine bind_congr_ok fun domain hdomain => ?_
  have hcollected' : Topology.Collected d { t with domain := domain } := { hcollected with }
  rw [renumber_eq hcollected']
  refine bind_congr_ok fun r hrenumber => ?_
  have hnumbered : Topology.extract c false scope d = .ok r :=
    Topology.extract_steps.mpr ⟨t, domain, r.1, r.2, hcollect, hfilled, hdomain, hrenumber, rfl⟩
  obtain ⟨-, hextracts, hnodup⟩ := Topology.extract_numbered hnumbered
  cases prune with
  | false => rfl
  | true => exact pruneGrounds_eq hextracts hnodup

theorem buildMaps_eq (h : Topology.Extracts d t d₁ gone) :
    buildMaps c t d₁ = PortMaps.build c t d₁ := by
  rw [buildMaps, look_eq_ok.mpr fun i hi => h.exists_of_copy hi]
  rfl

theorem compile_eq (c : Catalog) (switches : Switches) (scope : Slot) :
    compile c switches scope = (do
      Edit.check Diagram.validate
      let t ← Edit.change (extract c switches.pruneGrounds scope)
      let maps ← Edit.check (buildMaps c t)
      let reconciliation ← Compilation.reconcileIf c switches t
      let interfaces ← Recording.record t maps
      let network ← Edit.check (Compilation.readNetwork t maps interfaces)
      return ⟨network, t, reconciliation⟩) := by
  obtain ⟨prune, reconcile⟩ := switches
  cases reconcile <;> rfl

/-- **A compilation does the same with strict lookups**, and none of them is in vain. -/
theorem guards_compile (c : Catalog) (switches : Switches) (scope : Slot) (d : Diagram) :
    Edit.Guards isLost d (compile c switches scope) (Netlist.compile c switches scope) := by
  rw [compile_eq, Compilation.compile_eq]
  refine .check_bind rfl (finds_validate d) fun _ _ => ?_
  refine .bind (Edit.guards_change (extract_eq c _ scope d) (Topology.finds_extract c _ scope d))
    fun t d₁ hextract => ?_
  obtain ⟨hcontainer, gone, hextracts⟩ := Topology.extract_eq_ok (Edit.runs_change.mp hextract)
  refine .check_bind (buildMaps_eq hextracts) (PortMap.finds_build hextracts)
    fun maps hbuild => ?_
  obtain ⟨r, d₂, hreconcile⟩ := Compilation.exists_reconcileIf c switches t d₁
  refine .bind (Edit.guards_of_runs hreconcile) fun r' d₂' hrun => ?_
  obtain ⟨rfl, rfl⟩ := hreconcile.unique hrun
  have hframe := Compilation.reconcileIf_frame hreconcile
  obtain ⟨entries, d₃, hrecord, hrecorded, hothers⟩ :=
    Compilation.record_runs_of_reconciled hextracts hbuild hframe
  refine .bind (Edit.guards_of_runs hrecord) fun entries' d₃' hrun => ?_
  obtain ⟨rfl, rfl⟩ := hrecord.unique hrun
  have hreadable := Compilation.readable_of_extracts hextracts hcontainer hbuild
    fun i e he => Compilation.exists_of_recorded hframe hrecorded hothers he
  exact .check_bind rfl (hreadable.finds_readNetwork _) fun _ _ => Edit.guards_pure

end Strict

end Netlist
