import Netlist.Proofs.Diagram.Enclosure
import Netlist.Proofs.Diagram.Loops
import Netlist.Proofs.Topology.Again

/-!
# Well-formed networks

Extraction checks one rule after the other and stops at the first that is broken. This
module says what all rules together come to: which networks are extracted.

- `MainNode`, `CopyNode`: the nodes of a network outside and inside interfaces.
- `agreedDomain_iff`, `renumber_succeeds_iff`: what the stages of an extraction accept.
- `WellFormed`: a network that keeps all rules.
- `extract_succeeds_iff`: **a diagram without loops has its network extracted iff that is
  well-formed**, and the domain is the one of its nodes.
-/

namespace Netlist.Topology

variable {c : Catalog} {d : Diagram} {scope : Slot} {t : Topology} {i network : Slot}
  {domain : Domain} {p : NodeKind → Bool}

/-! ## Nodes outside and inside interfaces -/

/-- Whether a slot holds an interface. -/
def isInterfaceAt (d : Diagram) (i : Slot) : Bool := (d.get? i).any fun e => e.role.isInterface

/-- A node of a network that passes a test on its subtype and lies outside all interfaces. -/
structure MainNode (d : Diagram) (network : Slot) (p : NodeKind → Bool) (i : Slot) : Prop where
  inside : i ∈ d.descendants network
  kind : (d.get? i).any (fun e => e.nodeKind?.any p) = true
  outside : ∀ a, d.Encloses a i → isInterfaceAt d a = false

/-- A node of a network that passes a test on its subtype and lies inside an interface. -/
structure CopyNode (d : Diagram) (network : Slot) (p : NodeKind → Bool) (i : Slot) : Prop where
  inside : i ∈ d.descendants network
  kind : (d.get? i).any (fun e => e.nodeKind?.any p) = true
  within : ∃ a, d.Encloses a i ∧ isInterfaceAt d a = true

theorem NodeIn.main (h : NodeIn d network none p i) : MainNode d network p i := by
  refine ⟨h.inside, h.kind, fun a ha => ?_⟩
  obtain ⟨e, he⟩ := ha.live
  rw [isInterfaceAt, he]
  exact (Diagram.nearestAncestor_eq_none_iff.mp h.home).2 a e ha he

theorem NodeIn.copy {interface : Slot} (h : NodeIn d network (some interface) p i) :
    CopyNode d network p i := by
  obtain ⟨ha, e, he, hrole⟩ := Diagram.encloses_of_nearestAncestor h.home
  exact ⟨h.inside, h.kind, interface, ha, by rw [isInterfaceAt, he]; exact hrole⟩

/-- The search for the interface around a node finds what the node lies in. -/
theorem MainNode.nodeIn (h : MainNode d network p i)
    (hhome : ∃ home, interfaceAround d i = .ok home) :
    NodeIn d network none p i := by
  obtain ⟨home, hhome⟩ := hhome
  cases home with
  | none => exact ⟨h.inside, h.kind, hhome⟩
  | some a =>
    obtain ⟨ha, e, he, hrole⟩ := Diagram.encloses_of_nearestAncestor hhome
    have hout := h.outside a ha
    rw [isInterfaceAt, he, Option.any_some, hrole] at hout
    cases hout

theorem CopyNode.nodeIn (h : CopyNode d network p i)
    (hhome : ∃ home, interfaceAround d i = .ok home) :
    ∃ interface, NodeIn d network (some interface) p i := by
  obtain ⟨home, hhome⟩ := hhome
  cases home with
  | some a => exact ⟨a, h.inside, h.kind, hhome⟩
  | none =>
    obtain ⟨a, ha, hrole⟩ := h.within
    obtain ⟨e, he⟩ := ha.live
    rw [isInterfaceAt, he, Option.any_some,
      (Diagram.nearestAncestor_eq_none_iff.mp hhome).2 a e ha he] at hrole
    cases hrole

/-! ## Agreement on a domain -/

theorem commonDomain_eq_some {domains : List Domain} (h : domains ≠ []) :
    commonDomain domains = some domain ↔ ∀ x ∈ domains, x = domain := by
  cases domains with
  | nil => exact absurd rfl h
  | cons first rest =>
    rw [commonDomain, List.forall_mem_cons]
    constructor
    · intro h
      split_ifs at h with hall
      cases h
      exact ⟨rfl, fun x hx => beq_iff_eq.mp (List.all_eq_true.mp hall x hx)⟩
    · rintro ⟨rfl, hall⟩
      rw [if_pos (List.all_eq_true.mpr fun x hx => beq_iff_eq.mpr (hall x hx))]

/-- A link has a master, and that is for the given domain if it declares one. -/
def Suits (c : Catalog) (d : Diagram) (domain : Domain) (i : Slot) : Prop :=
  ∃ e master, d.get? i = some e ∧ c.masterOf? e.role = some master ∧
    ∀ x, master.domain = some x → x = domain

/-- A link with a master hands its domain on, unless another one was seen. -/
theorem linkDomain_cons {links : List Slot} {seen : Option (Domain × Locator)} {e : Element}
    {master : Master} (he : d.get? i = some e) (hmaster : c.masterOf? e.role = some master) :
    linkDomain c d seen (i :: links) = match master.domain, seen with
      | none, _ => linkDomain c d seen links
      | some x, none => linkDomain c d (some (x, e.locator)) links
      | some x, some (first, _) => if x = first then linkDomain c d seen links
        else .error (.topology (some e.locator) .mixedLinks) := by
  rw [linkDomain, Diagram.fetch_eq_ok.mpr he, ok_bind]
  cases hfound : c.masterOf? e.role with
  | none => cases hfound.symm.trans hmaster
  | some found =>
    obtain rfl : found = master := Option.some.inj (hfound.symm.trans hmaster)
    rfl

/-- **Links have a domain iff they suit each other**, and whatever was seen before. -/
theorem linkDomain_eq_ok {links : List Slot} {seen : Option (Domain × Locator)} :
    (∃ found, linkDomain c d seen links = .ok found ∧ ∀ x ∈ found, x.1 = domain) ↔
      (∀ x ∈ seen, x.1 = domain) ∧ ∀ i ∈ links, Suits c d domain i := by
  induction links generalizing seen with
  | nil =>
    constructor
    · rintro ⟨found, h, hfound⟩
      cases h
      exact ⟨hfound, List.forall_mem_nil _⟩
    · exact fun h => ⟨seen, rfl, h.1⟩
  | cons i links ih =>
    rw [List.forall_mem_cons]
    constructor
    · rintro ⟨found, h, hfound⟩
      rw [linkDomain, bind_eq_ok] at h
      obtain ⟨e, he, h⟩ := h
      rw [Diagram.fetch_eq_ok] at he
      split at h
      · cases h
      rename_i master hmaster
      split at h
      · rename_i hnone
        -- A link without a domain suits every network, and what was seen goes on.
        obtain ⟨hseen, hlinks⟩ := ih.mp ⟨found, h, hfound⟩
        refine ⟨hseen, ⟨e, master, he, hmaster, fun x hx => ?_⟩, hlinks⟩
        rw [hnone] at hx
        cases hx
      · rename_i x hdomain
        obtain ⟨hseen, hlinks⟩ := ih.mp ⟨found, h, hfound⟩
        -- This is the first domain, and the later links are measured by it.
        refine ⟨fun x hmem => absurd hmem (Option.not_mem_none x),
          ⟨e, master, he, hmaster, fun y hy => ?_⟩, hlinks⟩
        rw [hdomain] at hy
        cases hy
        exact hseen _ rfl
      · rename_i x first locator hdomain
        -- A second domain has to be the first one again.
        split_ifs at h with heq
        obtain ⟨hseen, hlinks⟩ := ih.mp ⟨found, h, hfound⟩
        refine ⟨hseen, ⟨e, master, he, hmaster, fun y hy => ?_⟩, hlinks⟩
        rw [hdomain] at hy
        cases hy
        exact heq.trans (hseen _ rfl)
    · rintro ⟨hseen, ⟨e, master, he, hmaster, hdomain⟩, hlinks⟩
      rw [linkDomain_cons he hmaster]
      cases hx : master.domain with
      | none => exact ih.mpr ⟨hseen, hlinks⟩
      | some x =>
        have hsame := hdomain x hx
        cases seen with
        | none =>
          refine ih.mpr ⟨fun y hy => ?_, hlinks⟩
          cases hy
          exact hsame
        | some first =>
          dsimp only
          rw [if_pos (hsame.trans (hseen _ rfl).symm)]
          exact ih.mpr ⟨hseen, hlinks⟩

theorem mem_nodeDomains {nodes : List Slot} : domain ∈ nodeDomains d nodes ↔
    ∃ i ∈ nodes, ∃ e kind, d.get? i = some e ∧ e.nodeKind? = some kind ∧
      kind.domain? = some domain := by
  simp only [nodeDomains, List.mem_filterMap, Option.bind_eq_some_iff]
  constructor
  · rintro ⟨i, hi, kind, ⟨e, he, hkind⟩, hdomain⟩
    exact ⟨i, hi, e, kind, he, hkind, hdomain⟩
  · rintro ⟨i, hi, e, kind, he, hkind, hdomain⟩
    exact ⟨i, hi, kind, ⟨e, he, hkind⟩, hdomain⟩

/-- **A network agrees on the one domain of its nodes** if its links suit that. -/
theorem agreedDomain_iff (hnetwork : ∃ e, d.get? t.network = some e)
    (hnodes : nodeDomains d (t.nodes ++ t.interfaceNodes.map Prod.fst) ≠ []) :
    agreedDomain c d t = .ok domain ↔
      (∀ x ∈ nodeDomains d (t.nodes ++ t.interfaceNodes.map Prod.fst), x = domain) ∧
        ∀ i ∈ t.links, Suits c d domain i := by
  rw [← commonDomain_eq_some hnodes, agreedDomain, bind_eq_ok]
  constructor
  · rintro ⟨e, -, h⟩
    split at h
    · cases h
    rename_i nodes hcommon
    rw [bind_eq_ok] at h
    obtain ⟨found, hfound, h⟩ := h
    -- The nodes settle the domain, and the links are asked whether they agree.
    have hagree : nodes = domain ∧ ∀ x ∈ found, x.1 = nodes := by
      split at h
      · cases h
        exact ⟨rfl, fun x hmem => absurd hmem (Option.not_mem_none x)⟩
      · split_ifs at h with heq
        cases h
        refine ⟨rfl, fun y hy => ?_⟩
        cases hy
        exact heq
    obtain ⟨rfl, hagree⟩ := hagree
    exact ⟨hcommon, (linkDomain_eq_ok.mp ⟨found, hfound, hagree⟩).2⟩
  · rintro ⟨hcommon, hlinks⟩
    obtain ⟨e, he⟩ := hnetwork
    have hnone : ∀ x ∈ (none : Option (Domain × Locator)), x.1 = domain :=
      fun x hx => absurd hx (Option.not_mem_none x)
    obtain ⟨found, hfound, hagree⟩ := linkDomain_eq_ok.mpr ⟨hnone, hlinks⟩
    refine ⟨e, Diagram.fetch_eq_ok.mpr he, ?_⟩
    rw [hcommon]
    dsimp only
    rw [hfound]
    cases found with
    | none => rfl
    | some first =>
      show (if first.1 = domain then _ else _) = _
      rw [if_pos (hagree _ rfl)]
      rfl

/-! ## Numbers that can be given -/

/-- The integer that the label of a slot is. -/
def numberAt (d : Diagram) (i : Slot) : Option Int := (d.get? i).bind Element.labelNumber?

theorem numberAt_eq_some {x : Int} :
    numberAt d i = some x ↔ ∃ e, d.get? i = some e ∧ e.labelNumber? = some x :=
  Option.bind_eq_some_iff

theorem exists_rank? {labelled : List (Int × Slot)} {x : Int} (h : x ∈ labelled.map Prod.fst) :
    ∃ k, rank? labelled x = some k := by
  obtain ⟨n, hn, rfl⟩ := List.mem_map.mp h
  exact Option.isSome_iff_exists.mp
    (List.findIdx?_isSome.trans (List.any_eq_true.mpr ⟨n, hn, beq_self_eq_true _⟩))

/-- **Nodes are numbered iff their labels are distinct integers**, and the aliases have
labels of nodes. -/
theorem renumber_succeeds_iff (hnodup : t.nodes.Nodup) :
    (∃ r, renumber d t = .ok r) ↔
      (∀ i ∈ t.nodes, ∃ x, numberAt d i = some x) ∧
      (∀ i ∈ t.nodes, ∀ j ∈ t.nodes, numberAt d i = numberAt d j → i = j) ∧
      ∀ i ∈ aliases d t, ∃ j ∈ t.nodes, ∃ x, numberAt d i = some x ∧ numberAt d j = some x := by
  constructor
  · rintro ⟨r, h⟩
    rw [renumber, bind_eq_ok] at h
    obtain ⟨labelled, hread, h⟩ := h
    rw [bind_eq_ok] at h
    obtain ⟨moved, hmoved, -⟩ := h
    obtain ⟨hdistinct, hsnd, hall⟩ := readLabels_eq_ok hread
    obtain ⟨hfst, haliases⟩ := aliasNumbers_eq_ok hmoved
    -- What was read for a node is its number.
    have hnumber : ∀ i ∈ t.nodes, ∃ x, (x, i) ∈ labelled ∧ numberAt d i = some x := by
      intro i hi
      obtain ⟨⟨x, j⟩, hmem, rfl⟩ := List.mem_map.mp (hsnd ▸ hi)
      exact ⟨x, hmem, numberAt_eq_some.mpr (hall _ hmem)⟩
    refine ⟨fun i hi => (hnumber i hi).imp fun _ h => h.2, fun i hi j hj hij => ?_, fun i hi => ?_⟩
    · obtain ⟨x, hx, hix⟩ := hnumber i hi
      obtain ⟨y, hy, hjy⟩ := hnumber j hj
      obtain rfl : x = y := Option.some.inj (hix.symm.trans (hij.trans hjy))
      exact congrArg Prod.snd (List.inj_on_of_nodup_map hdistinct hx hy rfl)
    · obtain ⟨n, hn, rfl⟩ := List.mem_map.mp (hfst ▸ hi)
      obtain ⟨e, x, he, hx, hrank⟩ := haliases n hn
      obtain ⟨j, hj⟩ := rank?_eq_some hrank
      have hmem := (byLabel_perm labelled).mem_iff.mp (List.mem_of_getElem? hj)
      exact ⟨j, hsnd ▸ List.mem_map_of_mem hmem, x, numberAt_eq_some.mpr ⟨e, he, hx⟩,
        numberAt_eq_some.mpr (hall _ hmem)⟩
  · rintro ⟨hlabels, hdistinct, haliases⟩
    -- A number for every slot, to speak of the list that is read.
    have : ∀ i, ∃ x, i ∈ t.nodes → numberAt d i = some x := fun i => by
      by_cases hi : i ∈ t.nodes
      · exact (hlabels i hi).imp fun _ h _ => h
      · exact ⟨0, fun h => absurd h hi⟩
    choose number hnumber using this
    have hread : readLabels d [] t.nodes = .ok (t.nodes.map fun i => (number i, i)) := by
      refine readLabels_of_labels (fun i hi => numberAt_eq_some.mp (hnumber i hi)) ?_
        fun _ _ => List.not_mem_nil
      refine hnodup.map_on fun i hi j hj hij => hdistinct i hi j hj ?_
      rw [hnumber i hi, hnumber j hj, hij]
    -- An alias takes the place of the node that it names.
    have hranked : ∀ i, ∃ k, i ∈ aliases d t → ∃ e x, d.get? i = some e ∧ e.labelNumber? = some x ∧
        rank? (byLabel (t.nodes.map fun i => (number i, i))) x = some k := by
      intro i
      by_cases hi : i ∈ aliases d t
      · obtain ⟨j, hj, x, hix, hjx⟩ := haliases i hi
        obtain ⟨e, he, hx⟩ := numberAt_eq_some.mp hix
        have hmem : x ∈ (byLabel (t.nodes.map fun i => (number i, i))).map Prod.fst := by
          rw [((byLabel_perm _).map Prod.fst).mem_iff, List.map_map]
          exact List.mem_map.mpr ⟨j, hj, Option.some.inj ((hnumber j hj).symm.trans hjx)⟩
        obtain ⟨k, hk⟩ := exists_rank? hmem
        exact ⟨k, fun _ => ⟨e, x, he, hx, hk⟩⟩
      · exact ⟨0, fun h => absurd h hi⟩
    choose place hplace using hranked
    exact ⟨_, bind_eq_ok.mpr ⟨_, hread, bind_eq_ok.mpr ⟨_, aliasNumbers_of_labels hplace, rfl⟩⟩⟩

theorem renumber_setDomain (hnodup : t.nodes.Nodup) :
    (∃ r, renumber d { t with domain := domain } = .ok r) ↔ ∃ r, renumber d t = .ok r :=
  Iff.trans (renumber_succeeds_iff hnodup) (renumber_succeeds_iff hnodup).symm

/-! ## Networks that keep all rules -/

/-- Whether the role of a slot passes a test. -/
def roleAt (d : Diagram) (p : Role → Bool) (i : Slot) : Prop :=
  ∃ e, d.get? i = some e ∧ p e.role = true

/-- A node has the label of a numbered node outside interfaces, read as an integer. -/
def NamesNode (d : Diagram) (network i : Slot) : Prop :=
  ∃ j, MainNode d network NodeKind.isNumbered j ∧
    ∃ x, numberAt d i = some x ∧ numberAt d j = some x

/-- A network that keeps all rules of extraction. -/
structure WellFormed (c : Catalog) (d : Diagram) (scope network : Slot) (domain : Domain) :
    Prop where
  only : ∀ n, (n = scope ∨ n ∈ d.descendants scope) ∧ roleAt d Role.isSubNetwork n ↔ n = network
  node : ∃ i, MainNode d network NodeKind.isNumbered i
  link : ∃ l ∈ d.descendants network, roleAt d Role.isLink l
  port : ∃ p e, d.get? p = some e ∧ e.role = .port ∧ (p ∈ d.descendants network ∨
    ∃ l ∈ d.descendants network, roleAt d Role.isLink l ∧ e.touches l = true)
  nodeDomains : ∀ i ∈ d.descendants network, ∀ e kind x, d.get? i = some e →
    e.role = .node kind → kind.domain? = some x → x = domain
  linkDomains : ∀ l ∈ d.descendants network, roleAt d Role.isLink l → Suits c d domain l
  labels : ∀ i, MainNode d network NodeKind.isNumbered i → ∃ x, numberAt d i = some x
  distinct : ∀ i j, MainNode d network NodeKind.isNumbered i →
    MainNode d network NodeKind.isNumbered j → numberAt d i = numberAt d j → i = j
  references : ∀ i, MainNode d network (· == .reference) i → NamesNode d network i
  copies : ∀ i, CopyNode d network (· != .ground) i → NamesNode d network i

/-- A scope has one container iff that is the only one in it. -/
theorem container_eq_ok_iff : container d scope = .ok network ↔
    ∀ n, (n = scope ∨ n ∈ d.descendants scope) ∧ roleAt d Role.isSubNetwork n ↔ n = network := by
  have hnodup : (containers d scope).Nodup := by
    rw [containers, List.nodup_append]
    refine ⟨(List.nodup_singleton scope).filter _, (nodup_descendants d scope).filter _, ?_⟩
    rintro i hi j hj rfl
    obtain rfl := List.mem_singleton.mp (List.mem_of_mem_filter hi)
    exact (Diagram.mem_descendants.mp (List.mem_of_mem_filter hj)).2.1 rfl
  have hmem : (∀ n, (n = scope ∨ n ∈ d.descendants scope) ∧ roleAt d Role.isSubNetwork n ↔
      n = network) ↔ containers d scope = [network] := by
    rw [← List.perm_singleton, List.perm_ext_iff_of_nodup hnodup (List.nodup_singleton network)]
    exact forall_congr' fun n => by rw [mem_containers, List.mem_singleton]; rfl
  rw [hmem]
  exact ⟨container_eq_ok, fun h => by rw [container, h]⟩

/-- Collecting found the nearest interface around every node of the network. -/
theorem exists_home_of_collect (hcollect : collect d scope = .ok t)
    (hinside : i ∈ d.descendants t.network)
    (hkind : (d.get? i).any (fun e => e.nodeKind?.any p) = true) :
    ∃ home, interfaceAround d i = .ok home := by
  rw [collect, bind_eq_ok] at hcollect
  obtain ⟨network, -, h⟩ := hcollect
  rw [bind_eq_ok] at h
  obtain ⟨pairs, hpairs, h⟩ := h
  cases h
  obtain ⟨hfst, hall⟩ := homes_eq_ok hpairs
  obtain ⟨e, he, hp⟩ := Option.any_eq_true _ _ |>.mp hkind
  have hi : i ∈ pairs.map Prod.fst :=
    hfst ▸ mem_withRole.mpr ⟨hinside, e, he, any_nodeKind?_isSome p hp⟩
  obtain ⟨⟨n, home⟩, hmem, rfl⟩ := List.mem_map.mp hi
  exact ⟨home, hall n home hmem⟩

section

variable (hcollect : collect d scope = .ok t)

include hcollect

theorem mem_nodes_iff : i ∈ t.nodes ↔ MainNode d t.network NodeKind.isNumbered i :=
  ((collect_eq_ok hcollect).2.nodes i).trans
    ⟨NodeIn.main, fun hi => hi.nodeIn (exists_home_of_collect hcollect hi.inside hi.kind)⟩

/-- The aliases are the references outside interfaces, and the copies in them. -/
theorem mem_aliases_iff : i ∈ aliases d t ↔
    MainNode d t.network (· == .reference) i ∨ CopyNode d t.network (· != .ground) i := by
  obtain ⟨-, h⟩ := collect_eq_ok hcollect
  rw [mem_aliases, h.references]
  refine or_congr
    ⟨NodeIn.main, fun hi => hi.nodeIn (exists_home_of_collect hcollect hi.inside hi.kind)⟩ ?_
  constructor
  · rintro ⟨interface, hcopy, hground⟩
    have hin := (h.copies i interface).mp hcopy
    obtain ⟨e, kind, he, hrole, -⟩ := hin.exists_kind
    refine ⟨hin.inside, ?_, hin.copy.within⟩
    rw [he, Option.any_some, Element.isGround, hrole] at hground
    rw [he, Option.any_some, nodeKind?_eq_some.mpr hrole, Option.any_some]
    simpa using hground
  · intro hcopy
    obtain ⟨interface, hin⟩ :=
      hcopy.nodeIn (exists_home_of_collect hcollect hcopy.inside hcopy.kind)
    obtain ⟨e, kind, he, hrole, hkind⟩ := hin.exists_kind
    refine ⟨interface, (h.copies i interface).mpr ⟨hin.inside, ?_, hin.home⟩, ?_⟩
    · rw [he, Option.any_some, nodeKind?_eq_some.mpr hrole, Option.any_some]
    · rw [he, Option.any_some, Element.isGround, hrole]
      simpa using hkind

/-- The domains of a network are those of all nodes in it. -/
theorem mem_nodeDomains_iff {x : Domain} :
    x ∈ nodeDomains d (t.nodes ++ t.interfaceNodes.map Prod.fst) ↔
      ∃ i ∈ d.descendants t.network, ∃ e kind, d.get? i = some e ∧ e.role = .node kind ∧
        kind.domain? = some x := by
  obtain ⟨-, h⟩ := collect_eq_ok hcollect
  rw [mem_nodeDomains]
  simp only [nodeKind?_eq_some]
  refine exists_congr fun i => ⟨?_, ?_⟩
  · rintro ⟨hi, hdomain⟩
    refine ⟨?_, hdomain⟩
    rcases List.mem_append.mp hi with hi | hi
    · exact ((h.nodes i).mp hi).inside
    · obtain ⟨⟨n, interface⟩, hcopy, rfl⟩ := List.mem_map.mp hi
      exact ((h.copies n interface).mp hcopy).inside
  · rintro ⟨hi, e, kind, he, hrole, hx⟩
    refine ⟨List.mem_append.mpr ?_, e, kind, he, hrole, hx⟩
    have hkind : ∀ p : NodeKind → Bool, p kind = true →
        (d.get? i).any (fun e => e.nodeKind?.any p) = true := fun p hp => by
      rw [he, Option.any_some, nodeKind?_eq_some.mpr hrole, Option.any_some, hp]
    obtain ⟨home, hhome⟩ := exists_home_of_collect hcollect hi (hkind (fun _ => true) rfl)
    cases home with
    | none =>
      refine .inl ((h.nodes i).mpr ⟨hi, hkind _ ?_, hhome⟩)
      rw [NodeKind.isNumbered, hx]
      rfl
    | some interface =>
      exact .inr (List.mem_map_of_mem (f := Prod.fst)
        ((h.copies i interface).mpr ⟨hi, hkind _ rfl, hhome⟩))

end

/-- **The rules, stage by stage**: a collected network keeps all of them iff it is filled,
agrees on its domain and can be numbered. -/
theorem wellFormed_iff_of_collect (hcollect : collect d scope = .ok t) :
    WellFormed c d scope t.network domain ↔
      checkFilled d t = .ok () ∧ agreedDomain c d t = .ok domain ∧ ∃ r, renumber d t = .ok r := by
  obtain ⟨hcontainer, hcollected⟩ := collect_eq_ok hcollect
  have honly := container_eq_ok_iff.mp hcontainer
  obtain ⟨e, hlive, -⟩ := ((honly t.network).mpr rfl).2
  -- The parts that were collected are those that the rules speak of.
  have hnode : (∃ i, MainNode d t.network NodeKind.isNumbered i) ↔ t.nodes ≠ [] := by
    constructor
    · rintro ⟨i, hi⟩
      exact List.ne_nil_of_mem ((mem_nodes_iff hcollect).mpr hi)
    · intro hne
      obtain ⟨i, hi⟩ := List.exists_mem_of_ne_nil _ hne
      exact ⟨i, (mem_nodes_iff hcollect).mp hi⟩
  have hlinks : ∀ l, l ∈ t.links ↔ l ∈ d.descendants t.network ∧ roleAt d Role.isLink l := by
    intro l
    rw [hcollected.links, mem_withRole]
    rfl
  have hports : ∀ p, p ∈ t.ports ↔ ∃ e, d.get? p = some e ∧ e.role = .port ∧
      (p ∈ d.descendants t.network ∨
        ∃ l ∈ d.descendants t.network, roleAt d Role.isLink l ∧ e.touches l = true) := by
    intro p
    rw [hcollected.ports, mem_portsOf_iff]
    constructor
    · rintro ⟨⟨e, he, hrole⟩, hreach⟩
      simp only [he, Option.any_some, hlinks, and_assoc] at hreach
      exact ⟨e, he, hrole, hreach⟩
    · rintro ⟨e, he, hrole, hreach⟩
      simp only [he, Option.any_some, hlinks, and_assoc]
      exact ⟨⟨e, rfl, hrole⟩, hreach⟩
  -- A numbered node has a domain, so there is one to agree on.
  have hdomains : t.nodes ≠ [] →
      nodeDomains d (t.nodes ++ t.interfaceNodes.map Prod.fst) ≠ [] := by
    intro hne
    obtain ⟨i, hi⟩ := List.exists_mem_of_ne_nil _ hne
    obtain ⟨e, kind, he, hrole, hnumbered⟩ := ((hcollected.nodes i).mp hi).exists_kind
    obtain ⟨x, hx⟩ := Option.isSome_iff_exists.mp hnumbered
    exact List.ne_nil_of_mem ((mem_nodeDomains_iff hcollect).mpr
      ⟨i, ((hcollected.nodes i).mp hi).inside, e, kind, he, hrole, hx⟩)
  rw [checkFilled_eq_ok, renumber_succeeds_iff hcollected.nodup_nodes]
  constructor
  · intro h
    have hne := hnode.mp h.node
    refine ⟨⟨⟨e, hlive⟩, hne, ?_, ?_⟩, ?_, fun i hi => ?_, fun i hi j hj => ?_, fun i hi => ?_⟩
    · obtain ⟨l, hl⟩ := h.link
      exact List.ne_nil_of_mem ((hlinks l).mpr hl)
    · obtain ⟨p, hp⟩ := h.port
      exact List.ne_nil_of_mem ((hports p).mpr hp)
    · refine (agreedDomain_iff ⟨e, hlive⟩ (hdomains hne)).mpr ⟨fun x hx => ?_, fun l hl => ?_⟩
      · obtain ⟨i, hi, e, kind, he, hrole, hx⟩ := (mem_nodeDomains_iff hcollect).mp hx
        exact h.nodeDomains i hi e kind x he hrole hx
      · exact h.linkDomains l ((hlinks l).mp hl).1 ((hlinks l).mp hl).2
    · exact h.labels i ((mem_nodes_iff hcollect).mp hi)
    · exact h.distinct i j ((mem_nodes_iff hcollect).mp hi) ((mem_nodes_iff hcollect).mp hj)
    · obtain ⟨j, hj, hnames⟩ := ((mem_aliases_iff hcollect).mp hi).elim
        (h.references i) (h.copies i)
      exact ⟨j, (mem_nodes_iff hcollect).mpr hj, hnames⟩
  · rintro ⟨⟨-, hne, hlink, hport⟩, hagreed, hlabels, hdistinct, haliases⟩
    obtain ⟨hnodeDomains, hlinkDomains⟩ := (agreedDomain_iff ⟨e, hlive⟩ (hdomains hne)).mp hagreed
    have hnames : ∀ i ∈ aliases d t, NamesNode d t.network i := by
      intro i hi
      obtain ⟨j, hj, hnames⟩ := haliases i hi
      exact ⟨j, (mem_nodes_iff hcollect).mp hj, hnames⟩
    exact {
      only := honly
      node := hnode.mpr hne
      link := by
        obtain ⟨l, hl⟩ := List.exists_mem_of_ne_nil _ hlink
        exact ⟨l, (hlinks l).mp hl⟩
      port := by
        obtain ⟨p, hp⟩ := List.exists_mem_of_ne_nil _ hport
        exact ⟨p, (hports p).mp hp⟩
      nodeDomains := fun i hi e kind x he hrole hx => hnodeDomains x
        ((mem_nodeDomains_iff hcollect).mpr ⟨i, hi, e, kind, he, hrole, hx⟩)
      linkDomains := fun l hl hlink => hlinkDomains l ((hlinks l).mpr ⟨hl, hlink⟩)
      labels := fun i hi => hlabels i ((mem_nodes_iff hcollect).mpr hi)
      distinct := fun i j hi hj => hdistinct i ((mem_nodes_iff hcollect).mpr hi) j
        ((mem_nodes_iff hcollect).mpr hj)
      references := fun i hi => hnames i ((mem_aliases_iff hcollect).mpr (.inl hi))
      copies := fun i hi => hnames i ((mem_aliases_iff hcollect).mpr (.inr hi)) }

/-- **A network that is extracted keeps all rules.** -/
theorem wellFormed_of_extract {prune : Bool} {d' : Diagram}
    (h : extract c prune scope d = .ok (t, d')) : WellFormed c d scope t.network t.domain := by
  obtain ⟨t₀, hcollect, hfilled, hagreed, hnarrows⟩ := extract_narrows h
  obtain ⟨t₁, domain, t₂, d₂, hcollect₁, -, -, hrenumber, -⟩ := extract_steps.mp h
  obtain rfl : t₀ = t₁ := Except.ok.inj (hcollect.symm.trans hcollect₁)
  rw [hnarrows.network, wellFormed_iff_of_collect hcollect]
  exact ⟨hfilled, hagreed,
    (renumber_setDomain (collect_eq_ok hcollect).2.nodup_nodes).mp ⟨_, hrenumber⟩⟩

/-- **A diagram without loops has its network extracted iff that is well-formed**, and the
domain reported is the one of its nodes. -/
theorem extract_succeeds_iff {prune : Bool} (hvalid : d.validate = .ok ()) :
    (∃ t d', extract c prune scope d = .ok (t, d') ∧ t.network = network ∧ t.domain = domain) ↔
      WellFormed c d scope network domain := by
  constructor
  · rintro ⟨t, d', h, rfl, rfl⟩
    exact wellFormed_of_extract h
  · intro h
    have hhomes : ∀ i, ∃ home, interfaceAround d i = .ok home := fun i =>
      Diagram.exists_nearestAncestor (fun _ => Diagram.not_inside_self hvalid) i _
    obtain ⟨t₀, hcollect, hnetwork, -⟩ := exists_collect (container_eq_ok_iff.mpr h.only) hhomes
    rw [← hnetwork, wellFormed_iff_of_collect hcollect] at h
    obtain ⟨hfilled, hagreed, hrenumber⟩ := h
    obtain ⟨⟨t₁, d₁⟩, hrenumber⟩ : ∃ r, renumber d { t₀ with domain := domain } = .ok r :=
      (renumber_setDomain (collect_eq_ok hcollect).2.nodup_nodes).mpr hrenumber
    obtain ⟨⟨t, d'⟩, hprune⟩ : ∃ r, r = if prune then pruneGrounds d₁ t₁ else (t₁, d₁) := ⟨_, rfl⟩
    have hextract : extract c prune scope d = .ok (t, d') :=
      extract_steps.mpr ⟨t₀, domain, t₁, d₁, hcollect, hfilled, hagreed, hrenumber, hprune.symm⟩
    obtain ⟨t₀', hcollect', -, hagreed', hnarrows⟩ := extract_narrows hextract
    obtain rfl : t₀ = t₀' := Except.ok.inj (hcollect.symm.trans hcollect')
    exact ⟨t, d', hextract, hnarrows.network.trans hnetwork,
      Except.ok.inj (hagreed'.symm.trans hagreed)⟩

/-! ## Nodes in any order -/

/-- The library of one master, a pipe with two ports. -/
def pipes : Catalog :=
  ⟨[{ kind := .link, subtype := "Pipe", domain := some .basic, ports := 2, required := [0, 1] }]⟩

/-- Two nodes and a pipe between them, with a reference, and a copy in an interface. The
labels are those of the nodes, the reference and the copy. -/
def strewn (first second reference copy : String) : Diagram :=
  let elements : List Element :=
    [{ id := "root", role := .root },
      { id := "net", role := .network .sub, parent := some 0 },
      { id := "a", role := .node .basic, label := first, parent := some 1 },
      { id := "b", role := .node .basic, label := second, parent := some 1 },
      { id := "r", role := .node .reference, label := reference, parent := some 1 },
      { id := "v", role := .link ⟨"Pipe", none⟩, label := "V", parent := some 1 },
      { id := "i", role := .interface ⟨none, none⟩, label := "inlet", parent := some 1 },
      { id := "k", role := .node .basic, label := copy, parent := some 6 },
      { id := "p", role := .port, label := "0", parent := some 1, source := some 5,
        target := some 2 },
      { id := "q", role := .port, label := "1", parent := some 1, source := some 5,
        target := some 3 }]
  ⟨(elements.map some).toArray⟩

/-- What is extracted from such a network if the second label is the smaller one. -/
def strewnTopology : Topology where
  network := 1
  domain := .basic
  nodes := [3, 2]
  references := [4]
  grounds := []
  links := [5]
  ports := [8, 9]
  spotters := []
  interfaces := [6]
  interfaceNodes := [(7, 6)]
  prunedGrounds := 0

theorem extract_strewn : extract pipes true Diagram.root (strewn "7" "-3" "007" "+7") =
    .ok (strewnTopology, strewn "1" "0" "1" "1") := by cbv

/-- The network is well-formed, and `007` and `+7` name the node `7`. -/
theorem extract_succeeds_iff_strewn : (strewn "7" "-3" "007" "+7").validate = .ok () ∧
    WellFormed pipes (strewn "7" "-3" "007" "+7") Diagram.root 1 .basic := by
  have hvalid : (strewn "7" "-3" "007" "+7").validate = .ok () := by cbv
  exact ⟨hvalid, (extract_succeeds_iff hvalid).mp ⟨_, _, extract_strewn, rfl, rfl⟩⟩

end Netlist.Topology
