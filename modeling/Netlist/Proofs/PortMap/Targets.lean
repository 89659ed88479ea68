import Netlist.Proofs.Edit.Blames
import Netlist.Proofs.PortMap.Drawn
import Netlist.Proofs.PortMap.Sockets
import Netlist.Proofs.Strict.Compilation
import Netlist.Proofs.Topology.WellFormed

/-!
# Where ports lead to

Building port maps looks up the master of every link and reads the number of every node that a
port ends at. Either could fail, but extraction has seen to both: it refuses links without a
master, and it writes the numbers of the nodes itself. So what is left to go wrong is what is
drawn at the ports, and what comes out leads to nodes that there are.

- `exists_master`, `Extracts.exists_target`: what extraction has seen to.
- `PortFault`: what can be wrong with the ports of a link; `faults_build`: nothing else can.
- `Counted`: a target that is a node is one of the numbered nodes.
- `Resolves.filled`: with more numbers drawn than ports declared, no number is left out.
- `build_counts`: **after extraction, port maps fail for ports alone and lead to numbered
  nodes.**
-/

namespace Netlist

variable {c : Catalog} {d d' : Diagram} {t : Topology} {scope i link : Slot} {gone : List Slot}

/-! ## What extraction has seen to -/

namespace Topology

/-- After extraction every link has a master. -/
theorem exists_master {prune : Bool} (h : extract c prune scope d = .ok (t, d'))
    (hi : i ∈ t.links) : ∃ e master, d'.get? i = some e ∧ c.masterOf? e.role = some master := by
  obtain ⟨-, gone, hextracts⟩ := extract_eq_ok h
  obtain ⟨hinside, e, he, hlink⟩ := mem_withRole.mp (hextracts.links ▸ hi)
  obtain ⟨e', master, he', hmaster, -⟩ :=
    (wellFormed_of_extract h).linkDomains i hinside ⟨e, he, hlink⟩
  obtain rfl : e = e' := Option.some.inj (he.symm.trans he')
  exact ⟨_, master, hextracts.get?_of_not_node he (Role.nodeKind?_of_isLink hlink),
    by rwa [Element.role_detachAll]⟩

/-- A target that is a node is one of the numbered nodes. -/
def Counted (t : Topology) (target : PortTarget) : Prop := ∀ n, target = .node n → n < t.nodeCount

/-- After extraction every node of the network is a target: a ground, or a number of a node. -/
theorem Extracts.exists_target (h : Extracts d t d' gone) (hfew : t.nodeCount < 2 ^ 32)
    (hi : t.isNode i = true) : ∃ target, PortMap.target d' i = .ok target ∧ t.Counted target := by
  rcases h.ground_or_moves hi with hground | ⟨hground, hmoves⟩
  · obtain ⟨e, he, hrole⟩ := Option.any_eq_true _ _ |>.mp hground
    obtain ⟨e', he', halike⟩ := h.get?_of_not_gone he (h.not_gone hi)
    have hground' : e'.isGround = true := by
      rw [Element.isGround, halike.role]
      exact hrole
    refine ⟨.ground, ?_, fun n hn => by cases hn⟩
    rw [PortMap.target, Diagram.fetch_eq_ok.mpr he', ok_bind, if_pos hground']
    rfl
  · -- the label is one that extraction wrote, so it reads back
    obtain ⟨e, x, he, -, -, hlt, hget⟩ := h.moved i hmoves
    generalize rankOf d t.network x = rank at hlt hget
    generalize hmoved : ({ e with label := toString rank } : Element).detachAll gone = e' at hget
    have hlabel : e'.label = toString rank := by
      rw [← hmoved, Element.label_detachAll]
    have hground' : e'.isGround = false := by
      rw [he, Option.any_some] at hground
      rw [← hmoved, Element.isGround, Element.role_detachAll]
      exact hground
    have hlimit : rank ≤ Text.nodeLimit := Nat.le_sub_one_of_lt (hlt.trans hfew)
    have hnumber := Element.labelNatural?_of_toString hlabel hlimit (hlimit.trans (by decide))
    refine ⟨.node rank, ?_, fun n hn => ?_⟩
    · rw [PortMap.target, Diagram.fetch_eq_ok.mpr hget, ok_bind,
        if_neg (by rw [hground']; exact Bool.false_ne_true), hnumber]
      rfl
    · cases hn
      exact hlt

end Topology

namespace PortMap

open Netlist.Topology (Counted Extracts)

variable {owner : Locator} {master : Master} {portMap : List PortTarget}

/-! ## What is left to go wrong -/

/-- What can be wrong with the ports of a link: one has no number, one ends at no node of the
network, one that must be drawn is not, one has a number beyond the slots, or two share one. -/
inductive PortFault (d : Diagram) (t : Topology) (link : Slot) (owner : Locator)
    (master : Master) : Fault → Prop
  | unread {p : Slot} {e : Element} (drawn : p ∈ edgesOf d t link) (here : d.get? p = some e)
      (unread : e.labelNatural? Text.countLimit = none) :
      PortFault d t link owner master (.topology (some e.locator) (.portLabelNotNumber e.label))
  | dangling {p : Slot} {e : Element} (drawn : p ∈ edgesOf d t link) (here : d.get? p = some e)
      (dangling : farNode? d t link p = none) :
      PortFault d t link owner master (.violation (.danglingPort owner e.locator))
  | missing {number : Nat} (required : number ∈ master.required)
      (missing : portsAt d t link number = []) :
      PortFault d t link owner master (.violation (.missingRequiredPort owner number))
  | outside {p : Slot} {e : Element} {number size : Nat} (drawn : p ∈ portsAt d t link number)
      (here : d.get? p = some e)
      (slots : size = max master.ports {k | portsAt d t link k ≠ []}.ncard)
      (outside : size ≤ number) :
      PortFault d t link owner master (.topology (some e.locator) (.portOutside number size owner))
  | duplicate {p : Slot} {e : Element} {number : Nat} (drawn : p ∈ portsAt d t link number)
      (here : d.get? p = some e) (noticed : Noticed d t link number) :
      PortFault d t link owner master (.violation (.duplicatePort owner e.locator number))

theorem faults_readPort {p : Slot} (hp : p ∈ edgesOf d t link) :
    Blames (PortFault d t link owner master) (readPort d t link owner p) := by
  obtain ⟨-, e, he, -⟩ := mem_edgesOf.mp hp
  rw [readPort, Diagram.fetch_eq_ok.mpr he, ok_bind]
  split
  next hnone => exact blames_error (.unread hp he hnone)
  next number hnumber =>
    split
    next hfar =>
      have hdangling : farNode? d t link p = none := by
        rw [farNode?, he, Option.bind_some]
        exact hfar
      exact blames_error (.dangling hp he hdangling)
    next node hfar => exact blames_ok

theorem faults_drawnPorts {edges : List Slot} (hedges : ∀ p ∈ edges, p ∈ t.ports)
    (hlive : ∀ p ∈ t.ports, ∃ e, d.get? p = some e) :
    Blames (PortFault d t link owner master) (drawnPorts d t link owner edges) := by
  induction edges with
  | nil => exact blames_ok
  | cons p edges ih =>
    obtain ⟨hp, hedges⟩ := List.forall_mem_cons.mp hedges
    obtain ⟨e, he⟩ := hlive p hp
    rw [drawnPorts, Diagram.fetch_eq_ok.mpr he, ok_bind]
    split
    next htouch =>
      exact (faults_readPort (mem_edgesOf.mpr ⟨hp, e, he, htouch⟩)).bind fun _ _ =>
        (ih hedges).bind fun _ _ => blames_ok
    next => exact ih hedges

/-- Ports whose ends are targets fail to fill their slots only if they are outside or share one. -/
theorem faults_fill {slots : List (Option Claim)} {drawn : List DrawnPort}
    (hedges : ∀ p ∈ drawn, ∃ e, d.get? p.edge = some e)
    (hnodes : ∀ p ∈ drawn, ∃ target, PortMap.target d p.node = .ok target) :
    Blames (fun f => ∃ p ∈ drawn, ∃ e, d.get? p.edge = some e ∧
      (f = .violation (.duplicatePort owner e.locator p.number) ∨ slots.length ≤ p.number ∧
        f = .topology (some e.locator) (.portOutside p.number slots.length owner)))
      (fill d t owner slots drawn) := by
  -- on the ports to come; claims change, the number of slots does not
  induction drawn generalizing slots with
  | nil => exact blames_ok
  | cons port rest ih =>
    obtain ⟨⟨e, he⟩, hedges⟩ := List.forall_mem_cons.mp hedges
    obtain ⟨⟨target, htarget⟩, hnodes⟩ := List.forall_mem_cons.mp hnodes
    rw [fill, Diagram.fetch_eq_ok.mpr he, ok_bind]
    split
    next hnone =>
      exact blames_error ⟨port, List.mem_cons_self, e, he,
        .inr ⟨List.getElem?_eq_none_iff.mp hnone, rfl⟩⟩
    next held hheld =>
      rw [htarget, ok_bind]
      split
      next => exact blames_error ⟨port, List.mem_cons_self, e, he, .inl rfl⟩
      next claim hclaim =>
        intro f hf
        obtain ⟨p, hp, hfault⟩ := ih hedges hnodes f hf
        rw [List.length_set] at hfault
        exact ⟨p, List.mem_cons_of_mem port hp, hfault⟩

/-- **A link is resolved unless something is wrong with its ports**, if its ports are there and
every node of the network is a target. -/
theorem faults_resolve (hlive : ∀ p ∈ t.ports, ∃ e, d.get? p = some e)
    (htargets : ∀ i, t.isNode i = true → ∃ target, PortMap.target d i = .ok target) :
    Blames (PortFault d t link owner master) (resolve d t link owner master) := by
  intro f hf
  have hresolve := hf
  -- reading the ports, looking for those that must be drawn, and filling the slots
  rw [resolve, bind_eq_error] at hf
  rcases hf with hf | ⟨drawn, hdrawn, hf⟩
  · exact faults_drawnPorts (fun _ hp => hp) hlive f hf
  split at hf
  next number hfound =>
    cases hf
    have hnone : number ∉ drawn.map DrawnPort.number := by
      simpa using List.find?_some hfound
    exact .missing (List.mem_of_find?_eq_some hfound) ((portsAt_eq_nil_iff hdrawn).mpr hnone)
  next =>
    rw [bind_eq_error] at hf
    rcases hf with hf | ⟨filled, -, hf⟩
    · obtain ⟨hall, hedges⟩ := drawnPorts_eq_ok hdrawn
      have hnodes : ∀ p ∈ drawn, ∃ target, PortMap.target d p.node = .ok target := by
        intro p hp
        obtain ⟨-, -, -, hnode⟩ := farNode?_eq_some (hall p hp).far
        exact htargets p.node hnode
      have hhere : ∀ p ∈ drawn, ∃ e, d.get? p.edge = some e := by
        intro p hp
        obtain ⟨e, he, -⟩ := carries_iff.mp (hall p hp).carries
        exact ⟨e, he⟩
      obtain ⟨p, hp, e, he, hfault⟩ := faults_fill hhere hnodes f hf
      have hport := mem_portsAt_of_drawn hdrawn hp
      rcases hfault with rfl | ⟨houtside, rfl⟩
      · exact .duplicate hport he (resolve_eq_duplicate hresolve).2
      · refine .outside hport he ?_ houtside
        rw [List.length_replicate, slotCount, length_eraseDups_number hdrawn]
    · cases hf

/-- What is wrong with the ports of some link that has a master. -/
def FaultOf (c : Catalog) (d : Diagram) (t : Topology) (links : List Slot) (f : Fault) : Prop :=
  ∃ link ∈ links, ∃ e master, d.get? link = some e ∧ c.masterOf? e.role = some master ∧
    PortFault d t link e.locator master f

theorem faults_resolveAll {links : List Slot} (hlive : ∀ p ∈ t.ports, ∃ e, d.get? p = some e)
    (htargets : ∀ i, t.isNode i = true → ∃ target, PortMap.target d i = .ok target)
    (hmasters : ∀ i ∈ links, ∃ e master, d.get? i = some e ∧ c.masterOf? e.role = some master) :
    Blames (FaultOf c d t links) (resolveAll c d t links) := by
  induction links with
  | nil => exact blames_ok
  | cons link links ih =>
    obtain ⟨⟨e, master, he, hmaster⟩, hmasters⟩ := List.forall_mem_cons.mp hmasters
    rw [resolveAll, Diagram.fetch_eq_ok.mpr he, ok_bind]
    split
    next hnone => cases hnone.symm.trans hmaster
    next found hfound =>
      intro f hf
      rcases bind_eq_error.mp hf with hf | ⟨_, -, hf⟩
      · exact ⟨link, List.mem_cons_self, e, found, he, hfound, faults_resolve hlive htargets f hf⟩
      rcases bind_eq_error.mp hf with hf | ⟨_, -, hf⟩
      · obtain ⟨other, hother, hfault⟩ := ih hmasters f hf
        exact ⟨other, List.mem_cons_of_mem link hother, hfault⟩
      · split at hf <;> cases hf

/-! ## What comes out -/

/-- Before its plugs are set apart, a link has the slots that its drawn ports give it. -/
theorem resolves_of_wiring? (h : wiring? c d t link = some portMap) :
    ∃ e master, d.get? link = some e ∧ c.masterOf? e.role = some master ∧
      Resolves d t master link portMap := by
  obtain ⟨e, he, h⟩ := Option.bind_eq_some_iff.mp h
  obtain ⟨master, hmaster, h⟩ := Option.bind_eq_some_iff.mp h
  obtain ⟨⟨resolved, bindings⟩, hresolve, rfl⟩ := Option.map_eq_some_iff.mp h
  obtain ⟨-, hresolves, -⟩ := resolve_eq_ok (toOption_eq_some.mp hresolve)
  exact ⟨e, master, he, hmaster, hresolves⟩

/-- **With more numbers drawn than ports declared, no number is left out**: the numbers are
those of the slots, and each slot is wired to what a port of its number meets. -/
theorem Resolves.filled (h : Resolves d t master link portMap)
    (hmany : master.ports < {k | portsAt d t link k ≠ []}.ncard) :
    {k | portsAt d t link k ≠ []} = Set.Iio portMap.length ∧
      ∀ k target, portMap[k]? = some target →
        ∃ p ∈ portsAt d t link k, Meets d t link p target := by
  -- as many numbers below the length as the length
  have hall : {k | portsAt d t link k ≠ []} = Set.Iio portMap.length := by
    refine Set.eq_of_subset_of_ncard_le h.within ?_ (Set.finite_Iio _)
    rw [Set.ncard_Iio_nat, h.length, max_eq_right hmany.le]
  refine ⟨hall, fun k target hk => ?_⟩
  rcases (h.slot k target hk).meets_or_free with hmeets | ⟨hnil, -⟩
  · exact hmeets
  · have hdrawn : k ∈ {k | portsAt d t link k ≠ []} :=
      hall ▸ (List.getElem?_eq_some_iff.mp hk).1
    exact absurd hnil hdrawn

/-- The slots of a link are wired to numbered nodes and to grounds. -/
theorem Resolves.counted (h : Resolves d t master link portMap)
    (htargets : ∀ i, t.isNode i = true →
      ∃ target, PortMap.target d i = .ok target ∧ Counted t target) :
    ∀ target ∈ portMap, Counted t target := by
  intro target hmem
  obtain ⟨k, hk⟩ := List.getElem?_of_mem hmem
  rcases (h.slot k target hk).meets_or_free with ⟨p, -, node, hfar, htarget⟩ | ⟨-, rfl⟩
  · obtain ⟨-, -, -, hnode⟩ := farNode?_eq_some hfar
    obtain ⟨counted, hcounted, hlt⟩ := htargets node hnode
    obtain rfl : target = counted := Except.ok.inj (htarget.symm.trans hcounted)
    exact hlt
  · exact fun n hn => nomatch hn

/-- The port map of a link leads to numbered nodes and has no fewer slots than ports were
declared. If more numbers are drawn, they are those of the slots, and before plugs are set apart
no slot is filled by default. -/
structure Leads (c : Catalog) (d : Diagram) (t : Topology) (resolved : ResolvedLink) : Prop where
  counted : ∀ target ∈ resolved.portMap, Counted t target
  plugged : resolved.portMap = (plugged c d t resolved.link).2
  slots : ∃ e master, d.get? resolved.link = some e ∧ c.masterOf? e.role = some master ∧
    master.ports ≤ resolved.portMap.length ∧
    (master.ports < {k | portsAt d t resolved.link k ≠ []}.ncard →
      {k | portsAt d t resolved.link k ≠ []} = Set.Iio resolved.portMap.length ∧
      ∀ k target, (wiring c d t resolved.link)[k]? = some target →
        ∃ p ∈ portsAt d t resolved.link k, Meets d t resolved.link p target)

/-- **After extraction, port maps fail for ports alone and lead to numbered nodes.** -/
theorem build_counts {prune : Bool} (h : Topology.extract c prune scope d = .ok (t, d'))
    (hfew : t.nodeCount < 2 ^ 32) :
    (∀ f, PortMaps.build c t d' = .error f → FaultOf c d' t t.links f) ∧
    ∀ maps, PortMaps.build c t d' = .ok maps →
      (∀ resolved ∈ maps.links, Leads c d' t resolved) ∧
      ∀ list ∈ maps.socketLists, Counted t list.node := by
  obtain ⟨-, gone, hextracts⟩ := Topology.extract_eq_ok h
  have htargets : ∀ i, t.isNode i = true →
      ∃ target, PortMap.target d' i = .ok target ∧ Counted t target :=
    fun i hi => hextracts.exists_target hfew hi
  constructor
  · intro f hf
    have hbuild : Blames (FaultOf c d' t t.links) (PortMaps.build c t d') :=
      (faults_resolveAll (fun p hp => hextracts.exists_of_port hp)
        (fun i hi => (htargets i hi).imp fun _ h => h.1)
        fun i hi => Topology.exists_master h hi).bind fun _ _ => blames_ok
    exact hbuild f hf
  · intro maps hmaps
    obtain ⟨hlists, hlinks⟩ := build_socketLists hmaps
    -- what plugs were wired to before is in their socket lists
    have hplugged : ∀ {link resolved}, Plugged c d' t link resolved →
        (∀ list ∈ (plugged c d' t link).1, Counted t list.node) ∧ Leads c d' t resolved := by
      rintro link resolved ⟨hwired, rfl, -⟩
      obtain ⟨e, master, he, hmaster, hresolves⟩ := resolves_of_wiring? hwired
      obtain ⟨hnodes, hslots⟩ := forall_plug (fun _ _ hn => nomatch hn) (labelOf d' link)
        (plugPorts c d' link) (hresolves.counted htargets)
      have hlength : (plugged c d' t link).2.length = (wiring c d' t link).length :=
        length_plug _ _ _
      refine ⟨hnodes, hslots, rfl, e, master, he, hmaster, ?_, fun hmany => ?_⟩
      · rw [hlength, hresolves.length]
        exact le_max_left _ _
      · rw [hlength]
        exact hresolves.filled hmany
    refine ⟨fun resolved hresolved => ?_, fun list hlist => ?_⟩
    · obtain ⟨link, -, hlink⟩ := forall₂_mem_right hlinks hresolved
      exact (hplugged hlink).2
    · rw [hlists] at hlist
      obtain ⟨link, hlink, hlist⟩ := List.mem_flatMap.mp hlist
      obtain ⟨resolved, -, hlink⟩ := forall₂_mem_left hlinks (mem_setUpOrder.mpr hlink)
      exact (hplugged hlink).1 list hlist

/-! ## A resistor with more ports than declared -/

/-- The library of one master, a resistor that declares one port. -/
def stubs : Catalog :=
  ⟨[{ kind := .link, subtype := "Resistor", domain := some .basic, ports := 1, required := [0] }]⟩

/-- Ports `0` and `1` fill both slots of the resistor; a second port `1` is refused. -/
theorem build_counts_stub :
    Leads stubs (resistorWith [3]) { resistorTopology with ports := [8, 9] }
        ⟨4, [.node 0, .node 1]⟩ ∧
      FaultOf stubs (resistorWith [3, 3]) { resistorTopology with ports := [8, 9, 10] } [4]
        (.violation (.duplicatePort ⟨"r", "R1", none⟩ ⟨"1", "1", none⟩ 1)) := by
  have hextract : Topology.extract stubs true Diagram.root (resistorWith [3]) =
      .ok ({ resistorTopology with ports := [8, 9] }, resistorWith [3]) := by cbv
  have hbuild : PortMaps.build stubs { resistorTopology with ports := [8, 9] } (resistorWith [3]) =
      .ok ⟨[⟨4, [.node 0, .node 1]⟩], [], []⟩ := by cbv
  have htwice : Topology.extract stubs true Diagram.root (resistorWith [3, 3]) =
      .ok ({ resistorTopology with ports := [8, 9, 10] }, resistorWith [3, 3]) := by cbv
  have hrefused : PortMaps.build stubs { resistorTopology with ports := [8, 9, 10] }
      (resistorWith [3, 3]) =
        .error (.violation (.duplicatePort ⟨"r", "R1", none⟩ ⟨"1", "1", none⟩ 1)) := by cbv
  exact ⟨((build_counts hextract (by decide)).2 _ hbuild).1 _ List.mem_cons_self,
    (build_counts htwice (by decide)).1 _ hrefused⟩

end PortMap

end Netlist
