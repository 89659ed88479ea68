import Mathlib.Data.Set.Card
import Netlist.Proofs.Lists
import Netlist.Proofs.PortMap.Slots
import Netlist.Proofs.Text.Decimal

/-!
# Resolved links

What `PortMaps.build` gives, one link at a time and in terms of what is drawn.

- `Wired`: what a slot of a link is wired to, given the ports with its number.
- `Resolves`: the port map of one link before its plugs are set apart; what
  `resolve` gives satisfies it (`resolve_eq_ok`).
- `plug_getElem?`: setting plugs apart leaves all other slots alone.
- `build_eq_ok`: **the links of the port maps are the links of the topology,
  jumpers last**, each resolved by itself.
-/

namespace Netlist.PortMap

variable {c : Catalog} {d : Diagram} {t : Topology} {link : Slot} {owner : Locator}
  {master : Master}

/-! ## The slots of one link -/

/-- Whether a port of a link ends in the main network. -/
def inMain (d : Diagram) (t : Topology) (link edge : Slot) : Bool :=
  scope? d t link edge == some none

/-- What a port of a link is wired to. -/
def Meets (d : Diagram) (t : Topology) (link edge : Slot) (target : PortTarget) : Prop :=
  ∃ node, farNode? d t link edge = some node ∧ PortMap.target d node = .ok target

/-- What a slot of a link is wired to: its one port in the main network, else
the first of its ports, else ground. -/
inductive Wired (d : Diagram) (t : Topology) (link : Slot) (number : Nat) : PortTarget → Prop
  | main {edge : Slot} {target : PortTarget}
      (only : (portsAt d t link number).filter (inMain d t link) = [edge])
      (meets : Meets d t link edge target) : Wired d t link number target
  | inner {edge : Slot} {target : PortTarget}
      (none_main : ∀ p ∈ portsAt d t link number, inMain d t link p = false)
      (first : (portsAt d t link number).head? = some edge)
      (meets : Meets d t link edge target) : Wired d t link number target
  | free (none_drawn : portsAt d t link number = []) : Wired d t link number .ground

/-- A slot is wired to what one of its ports meets, or to ground if it has none. -/
theorem Wired.meets_or_free {number : Nat} {target : PortTarget}
    (h : Wired d t link number target) :
    (∃ edge ∈ portsAt d t link number, Meets d t link edge target) ∨
      portsAt d t link number = [] ∧ target = .ground := by
  cases h with
  | @main edge _ only meets =>
    have hedge : edge ∈ (portsAt d t link number).filter (inMain d t link) :=
      only ▸ List.mem_singleton_self edge
    exact .inl ⟨edge, List.mem_of_mem_filter hedge, meets⟩
  | inner _ first meets => exact .inl ⟨_, List.mem_of_mem_head? first, meets⟩
  | free none_drawn => exact .inr ⟨none_drawn, rfl⟩

/-- The port map of a link, as it follows from what is drawn. -/
structure Resolves (d : Diagram) (t : Topology) (master : Master) (link : Slot)
    (portMap : List PortTarget) : Prop where
  length : portMap.length = max master.ports {k | portsAt d t link k ≠ []}.ncard
  required : ∀ k ∈ master.required, portsAt d t link k ≠ []
  within : ∀ k, portsAt d t link k ≠ [] → k < portMap.length
  slot : ∀ k target, portMap[k]? = some target → Wired d t link k target
  distinct : ∀ k, ∃ scopes, (portsAt d t link k).map (scope? d t link) = scopes.map some ∧
    ¬ Collides scopes

/-- Claims that do not collide have at most one among them in the main network. -/
theorem filter_isMain_of_not_collides {claims : List Claim} {winner : Claim}
    (h : ¬ Collides (claims.map Claim.scope)) (hfind : claims.find? Claim.isMain = some winner) :
    claims.filter Claim.isMain = [winner] := by
  obtain ⟨hmain, before, after, rfl, hbefore⟩ := List.find?_eq_some_iff_append.mp hfind
  have hnone : winner.scope = none := Option.isNone_iff_eq_none.mp hmain
  have hafter : ∀ c ∈ after, ¬ c.isMain = true := by
    intro c hc hcmain
    obtain ⟨between, rest, rfl⟩ := List.append_of_mem hc
    refine h ⟨before.map Claim.scope, none, between.map Claim.scope, rest.map Claim.scope, ?_,
      .inl rfl⟩
    simp [hnone, Option.isNone_iff_eq_none.mp hcmain]
  have hbefore' : ∀ c ∈ before, ¬ c.isMain = true := fun c hc => by simpa using hbefore c hc
  rw [List.filter_append, List.filter_cons_of_pos hmain, List.filter_eq_nil_iff.mpr hafter,
    List.filter_eq_nil_iff.mpr hbefore', List.nil_append]

/-- After `fill`, every port that was read has a slot. -/
theorem fill_within {slots filled : List (Option Claim)} {drawn : List DrawnPort}
    (h : fill d t owner slots drawn = .ok filled) : ∀ p ∈ drawn, p.number < slots.length := by
  induction drawn generalizing slots with
  | nil => simp
  | cons port rest ih =>
    obtain ⟨held, new, claim, hheld, -, -, hrest⟩ := fill_cons_eq_ok h
    refine List.forall_mem_cons.mpr ⟨(List.getElem?_eq_some_iff.mp hheld).1, fun p hp => ?_⟩
    have := ih hrest p hp
    rwa [List.length_set] at this

/-- The slots counted are those that are drawn. -/
theorem length_eraseDups_number {drawn : List DrawnPort}
    (h : drawnPorts d t link owner t.ports = .ok drawn) :
    (drawn.map DrawnPort.number).eraseDups.length = {k | portsAt d t link k ≠ []}.ncard := by
  have hmem : {k | portsAt d t link k ≠ []} =
      ((drawn.map DrawnPort.number).eraseDups.toFinset : Set Nat) := by
    ext k
    simp only [Set.mem_ofPred_eq, ne_eq, portsAt_eq_nil_iff h, not_not, List.coe_toFinset,
      List.mem_eraseDups]
  rw [hmem, Set.ncard_coe_finset, List.toFinset_card_of_nodup (nodup_eraseDups _)]

/-- The claims on a slot, each with the port that makes it. -/
theorem forall₂_makes {drawn : List DrawnPort} {claims : List Claim}
    (h : drawnPorts d t link owner t.ports = .ok drawn) {number : Nat}
    (hclaims : List.Forall₂ (Makes d t) (drawn.filter fun p => p.number == number) claims) :
    List.Forall₂ (fun edge claim => scope? d t link edge = some claim.scope ∧
      Meets d t link edge claim.target) (portsAt d t link number) claims := by
  have hdrawn : ∀ p ∈ drawn.filter (fun p => p.number == number), IsDrawn d t link p :=
    fun p hp => (drawnPorts_eq_ok h).1 p (List.mem_of_mem_filter hp)
  rw [← edges_drawnPorts h, List.forall₂_map_left_iff]
  refine (List.forall₂_and_left _ _ |>.mpr ⟨hdrawn, hclaims⟩).imp fun p c ⟨hp, hc⟩ => ?_
  exact ⟨by rw [scope?, hp.far, hc.scope]; rfl, p.node, hp.far, hc.target⟩

/-- A claim is in the main network iff its port ends there. -/
theorem inMain_eq_isMain {edge : Slot} {claim : Claim}
    (h : scope? d t link edge = some claim.scope) : inMain d t link edge = claim.isMain := by
  rw [inMain, h, Claim.isMain]
  cases claim.scope <;> rfl

/-- The winner among the claims is made by the port the slot is wired to. -/
theorem wired_of_settle {number : Nat} {claims : List Claim} {winner : Option Claim}
    (hclaims : List.Forall₂ (fun edge claim => scope? d t link edge = some claim.scope ∧
      Meets d t link edge claim.target) (portsAt d t link number) claims)
    (hsettle : settle none claims = some winner) :
    Wired d t link number ((winner.map Claim.target).getD .ground) := by
  have hnoclash : ¬ Collides (claims.map Claim.scope) := by
    intro hcollides
    rw [(settle_eq_none_iff none claims).mpr ((clash_none _).mpr hcollides)] at hsettle
    cases hsettle
  rw [settle_none_eq_some hsettle]
  cases hfind : claims.find? Claim.isMain with
  | some claim =>
    have hfilter := List.rel_filter (p := inMain d t link) (q := Claim.isMain)
      (fun _ _ h => iff_of_eq (congrArg (· = true) (inMain_eq_isMain h.1))) hclaims
    rw [filter_isMain_of_not_collides hnoclash hfind] at hfilter
    obtain ⟨edge, rest, hedge, hrest, hports⟩ := List.forall₂_cons_right_iff.mp hfilter
    rw [List.forall₂_nil_right_iff.mp hrest] at hports
    exact .main hports hedge.2
  | none =>
    have hinner : ∀ p ∈ portsAt d t link number, inMain d t link p = false := by
      intro p hp
      obtain ⟨claim, hclaim, h⟩ := forall₂_mem_left hclaims hp
      rw [inMain_eq_isMain h.1]
      simpa using List.find?_eq_none.mp hfind claim hclaim
    cases claims with
    | nil => exact .free (List.forall₂_nil_right_iff.mp hclaims)
    | cons claim rest =>
      obtain ⟨edge, edges, hedge, -, hports⟩ := List.forall₂_cons_right_iff.mp hclaims
      exact .inner hinner (by rw [hports]; rfl) hedge.2

/-- **The port map of a link says what is drawn.** -/
theorem resolve_eq_ok {resolved : ResolvedLink} {bindings : List InterfaceBinding}
    (h : resolve d t link owner master = .ok (resolved, bindings)) :
    resolved.link = link ∧ Resolves d t master link resolved.portMap ∧
      ∃ drawn, drawnPorts d t link owner t.ports = .ok drawn ∧
        bindings = drawn.filterMap (binding? d t link) := by
  rw [resolve, bind_eq_ok] at h
  obtain ⟨drawn, hdrawn, h⟩ := h
  split at h
  · cases h
  rename_i hrequired
  rw [bind_eq_ok] at h
  obtain ⟨filled, hfill, h⟩ := h
  cases h
  obtain ⟨hlength, hslots⟩ := fill_eq_ok hfill
  rw [List.length_replicate] at hlength
  have hwithin : ∀ k, portsAt d t link k ≠ [] → k < filled.length := by
    intro k hk
    rw [ne_eq, portsAt_eq_nil_iff hdrawn, not_not] at hk
    obtain ⟨p, hp, rfl⟩ := List.mem_map.mp hk
    have hlt := fill_within hfill p hp
    rwa [List.length_replicate, ← hlength] at hlt
  -- Each slot holds the claim that wins among the ports of its number.
  have hsettled : ∀ k < filled.length, ∃ claims winner,
      List.Forall₂ (fun edge claim => scope? d t link edge = some claim.scope ∧
        Meets d t link edge claim.target) (portsAt d t link k) claims ∧
      filled[k]? = some winner ∧ settle none claims = some winner := by
    intro k hk
    obtain ⟨claims, hclaims, winner, hwinner, hsettle⟩ :=
      hslots k none (List.getElem?_replicate_of_lt (hlength ▸ hk))
    exact ⟨claims, winner, forall₂_makes hdrawn hclaims, hwinner, hsettle⟩
  refine ⟨rfl, ⟨?_, ?_, ?_, ?_, ?_⟩, drawn, hdrawn, rfl⟩
  · rw [List.length_map, hlength, slotCount, length_eraseDups_number hdrawn]
  · intro k hk
    have hfound := List.find?_eq_none.mp hrequired k hk
    rw [ne_eq, portsAt_eq_nil_iff hdrawn]
    simpa using hfound
  · intro k hk
    rw [List.length_map]
    exact hwithin k hk
  · intro k target htarget
    rw [List.getElem?_map, Option.map_eq_some_iff] at htarget
    obtain ⟨winner, hwinner, rfl⟩ := htarget
    obtain ⟨claims, winner', hclaims, hwinner', hsettle⟩ :=
      hsettled k (List.getElem?_eq_some_iff.mp hwinner).1
    rw [hwinner, Option.some.injEq] at hwinner'
    subst hwinner'
    exact wired_of_settle hclaims hsettle
  · intro k
    refine ⟨scopesAt drawn t k, map_scope?_portsAt hdrawn k, fun hcollides => ?_⟩
    have hk : portsAt d t link k ≠ [] := by
      intro hnil
      rw [← edges_drawnPorts hdrawn, List.map_eq_nil_iff] at hnil
      -- Ports that collide are there, so the slot is one that was filled.
      obtain ⟨before, s, between, after, hscopes, -⟩ := hcollides
      rw [scopesAt, hnil] at hscopes
      simp at hscopes
    obtain ⟨claims, hclaims, winner, -, hsettle⟩ :=
      hslots k none (List.getElem?_replicate_of_lt (hlength ▸ hwithin k hk))
    -- Colliding ports leave no winner, but filling the slots succeeded.
    have hclash : clash none (claims.map Claim.scope) = true := by
      rw [Makes.map_scope hclaims]
      exact (clash_none _).mpr hcollides
    rw [(settle_eq_none_iff none claims).mpr hclash] at hsettle
    cases hsettle

/-! ## Plugs -/

theorem length_plug (label : String) (ports : List Nat) (portMap : List PortTarget) :
    (plug label ports portMap).2.length = portMap.length := by
  induction ports generalizing portMap with
  | nil => rfl
  | cons port rest ih =>
    rw [plug]
    cases hport : portMap[port]? with
    | none => exact ih portMap
    | some node =>
      show (plug label rest (portMap.set port _)).2.length = _
      rw [ih, List.length_set]

/-- Setting plugs apart leaves the other slots alone. -/
theorem plug_getElem? (label : String) {ports : List Nat} (portMap : List PortTarget) {k : Nat}
    (hk : k ∉ ports) : (plug label ports portMap).2[k]? = portMap[k]? := by
  induction ports generalizing portMap with
  | nil => rfl
  | cons port rest ih =>
    rw [List.mem_cons, not_or] at hk
    rw [plug]
    cases hport : portMap[port]? with
    | none => exact ih portMap hk.2
    | some node =>
      show (plug label rest (portMap.set port _)).2[k]? = _
      rw [ih _ hk.2, List.getElem?_set_ne (Ne.symm hk.1)]

/-- A slot is wired to nothing but nodes with numbers in range. -/
def InRange (target : PortTarget) : Prop := ∀ number, target = .node number → number ≤ Text.nodeLimit

theorem inRange_target {node : Slot} {target : PortTarget}
    (h : PortMap.target d node = .ok target) : InRange target := by
  rw [PortMap.target, bind_eq_ok] at h
  obtain ⟨e, -, h⟩ := h
  rintro number rfl
  split at h
  · cases h
  · split at h
    · rename_i n hn
      cases h
      exact Element.labelNatural?_le hn
    · cases h

theorem Wired.inRange {number : Nat} {target : PortTarget} (h : Wired d t link number target) :
    InRange target := by
  rcases h.meets_or_free with ⟨edge, -, node, -, htarget⟩ | ⟨-, rfl⟩
  · exact inRange_target htarget
  · exact fun _ h => nomatch h

/-- Setting plugs apart keeps what holds of all slots and of socket lists. -/
theorem forall_plug {P : PortTarget → Prop} (hlist : ∀ name, P (.socketList name)) (label : String)
    (ports : List Nat) {portMap : List PortTarget} (h : ∀ target ∈ portMap, P target) :
    (∀ list ∈ (plug label ports portMap).1, P list.node) ∧
      ∀ target ∈ (plug label ports portMap).2, P target := by
  induction ports generalizing portMap with
  | nil => exact ⟨fun _ hmem => (nomatch hmem), h⟩
  | cons port rest ih =>
    rw [plug]
    cases hport : portMap[port]? with
    | none => exact ih h
    | some node =>
      have hset : ∀ target ∈ portMap.set port (.socketList (socketName label port)), P target := by
        intro target hmem
        rcases List.mem_or_eq_of_mem_set hmem with hmem | rfl
        · exact h target hmem
        · exact hlist _
      obtain ⟨hlists, htargets⟩ := ih hset
      exact ⟨List.forall_mem_cons.mpr ⟨h node (List.mem_of_getElem? hport), hlists⟩, htargets⟩

/-! ## All links -/

/-- Whether a link has plugs. -/
def isJumper (c : Catalog) (d : Diagram) (link : Slot) : Bool :=
  ((d.get? link).bind fun e => c.masterOf? e.role).any fun master => !master.plugs.isEmpty

/-- A link of the port maps is a link of the topology, resolved by itself. -/
structure ResolvesLink (c : Catalog) (d : Diagram) (t : Topology) (link : Slot)
    (resolved : ResolvedLink) : Prop where
  link_eq : resolved.link = link
  drawn : ∃ e master portMap, d.get? link = some e ∧ c.masterOf? e.role = some master ∧
    Resolves d t master link portMap ∧ resolved.portMap.length = portMap.length ∧
    ∀ k ∉ master.plugs, resolved.portMap[k]? = portMap[k]?
  inRange : ∀ target ∈ resolved.portMap, InRange target

/-- A binding is read off a port that ends at a keyed node of an interface. -/
structure Binds (d : Diagram) (t : Topology) (b : InterfaceBinding) : Prop where
  port : ∃ edge ∈ t.ports, carries d b.link b.port edge = true ∧
    farNode? d t b.link edge = some b.node
  interface : t.interfaceOf? b.node = some b.interface

/-- What resolving some links comes to. -/
structure Progresses (c : Catalog) (d : Diagram) (t : Topology) (slots : List Slot)
    (progress : Progress) : Prop where
  links : List.Forall₂ (ResolvesLink c d t) (slots.filter fun i => !isJumper c d i) progress.links
  jumpers : List.Forall₂ (ResolvesLink c d t) (slots.filter (isJumper c d)) progress.jumpers
  lists : ∀ list ∈ progress.socketLists, InRange list.node
  bindings : ∀ b ∈ progress.bindings, b.link ∈ slots ∧ Binds d t b

theorem binds_of_drawn {drawn : List DrawnPort} {b : InterfaceBinding}
    (h : drawnPorts d t link owner t.ports = .ok drawn)
    (hb : b ∈ drawn.filterMap (binding? d t link)) : b.link = link ∧ Binds d t b := by
  obtain ⟨p, hp, hbinding⟩ := List.mem_filterMap.mp hb
  have hedge := mem_portsAt_of_drawn h hp
  have hdrawn := (drawnPorts_eq_ok h).1 p hp
  rw [binding?, Option.bind_eq_some_iff] at hbinding
  obtain ⟨interface, hinterface, hbinding⟩ := hbinding
  split_ifs at hbinding
  cases hbinding
  exact ⟨rfl, ⟨p.edge, List.mem_of_mem_filter hedge, hdrawn.carries, hdrawn.far⟩, hinterface⟩

/-- **Links are resolved one by one**, and jumpers are kept apart. -/
theorem resolveAll_eq_ok {links : List Slot} {progress : Progress}
    (h : resolveAll c d t links = .ok progress) : Progresses c d t links progress := by
  induction links generalizing progress with
  | nil =>
    cases h
    exact ⟨.nil, .nil, fun _ hmem => (nomatch hmem), fun _ hmem => (nomatch hmem)⟩
  | cons link links ih =>
    rw [resolveAll, bind_eq_ok] at h
    obtain ⟨e, he, h⟩ := h
    rw [Diagram.fetch_eq_ok] at he
    split at h
    · cases h
    rename_i master hmaster
    rw [bind_eq_ok] at h
    obtain ⟨⟨resolved, bindings⟩, hresolve, h⟩ := h
    rw [bind_eq_ok] at h
    obtain ⟨later, hlater, h⟩ := h
    obtain ⟨hlinks, hjumpers, hlists, hbindings⟩ := ih hlater
    obtain ⟨hlink, hresolves, drawn, hdrawn, rfl⟩ := resolve_eq_ok hresolve
    have hjumper : isJumper c d link = !master.plugs.isEmpty := by
      rw [isJumper, he, Option.bind_some, hmaster, Option.any_some]
    have hinRange : ∀ target ∈ resolved.portMap, InRange target := fun target hmem => by
      obtain ⟨k, hk⟩ := List.getElem?_of_mem hmem
      exact (hresolves.slot k target hk).inRange
    have hbound : ∀ b ∈ drawn.filterMap (binding? d t link) ++ later.bindings,
        b.link ∈ link :: links ∧ Binds d t b := by
      intro b hb
      rcases List.mem_append.mp hb with hb | hb
      · obtain ⟨rfl, hbinds⟩ := binds_of_drawn hdrawn hb
        exact ⟨List.mem_cons_self, hbinds⟩
      · exact ⟨List.mem_cons_of_mem link (hbindings b hb).1, (hbindings b hb).2⟩
    -- Only a master with plugs makes a jumper, and only its slots at plugs are replaced.
    cases hplugs : master.plugs.isEmpty with
    | true =>
      simp only [hplugs, if_true] at h
      cases h
      refine ⟨?_, ?_, hlists, hbound⟩
      · rw [List.filter_cons_of_pos (by simp [hjumper, hplugs])]
        exact .cons ⟨hlink, ⟨e, master, _, he, hmaster, hresolves, rfl, fun _ _ => rfl⟩, hinRange⟩
          hlinks
      · rw [List.filter_cons_of_neg (by simp [hjumper, hplugs])]
        exact hjumpers
    | false =>
      simp only [hplugs, Bool.false_eq_true, if_false] at h
      cases h
      obtain ⟨hnewLists, hnewTargets⟩ :=
        forall_plug (fun _ _ h => nomatch h) e.label master.plugs hinRange
      refine ⟨?_, ?_, fun list hmem => ?_, hbound⟩
      · rw [List.filter_cons_of_neg (by simp [hjumper, hplugs])]
        exact hlinks
      · rw [List.filter_cons_of_pos (by simp [hjumper, hplugs])]
        refine .cons ⟨hlink, ⟨e, master, _, he, hmaster, hresolves, ?_, fun k hk => ?_⟩,
          hnewTargets⟩ hjumpers
        · exact length_plug _ _ _
        · exact plug_getElem? _ _ hk
      · rcases List.mem_append.mp hmem with hmem | hmem
        · exact hnewLists list hmem
        · exact hlists list hmem

/-- The links of a network in the order they are set up: jumpers come last. -/
def setUpOrder (c : Catalog) (d : Diagram) (links : List Slot) : List Slot :=
  (links.filter fun i => !isJumper c d i) ++ links.filter (isJumper c d)

/-- **The links of the port maps are the links of the topology**, jumpers last,
each resolved by itself. -/
theorem build_eq_ok {maps : PortMaps} (h : PortMaps.build c t d = .ok maps) :
    List.Forall₂ (ResolvesLink c d t) (setUpOrder c d t.links) maps.links ∧
      (∀ list ∈ maps.socketLists, InRange list.node) ∧
      ∀ b ∈ maps.bindings, b.link ∈ t.links ∧ Binds d t b := by
  rw [PortMaps.build, bind_eq_ok] at h
  obtain ⟨progress, hprogress, h⟩ := h
  cases h
  obtain ⟨hlinks, hjumpers, hlists, hbindings⟩ := resolveAll_eq_ok hprogress
  exact ⟨List.rel_append hlinks hjumpers, hlists, hbindings⟩

end Netlist.PortMap
