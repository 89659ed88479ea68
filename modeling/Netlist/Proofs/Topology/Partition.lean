import Netlist.Proofs.Element.Role
import Netlist.Proofs.Topology.Pruning
import Netlist.Proofs.Topology.WellFormed

/-!
# The buckets of a network

Collecting a topology puts every element of a network into the bucket of the part it plays.
The interface that a node is a copy in is searched upwards, past the network if there is none
in it; that the search does not leave the network follows from the check that the network
has nodes of its own, as long as the root is not drawn inside it.

- `Part`, `Plays`: the parts, and what plays them; `Plays.unique`: one part at most.
- `mem_bucket_iff`: **what is in a bucket** plays its part, but for loose grounds and for the
  ports that touch a link from outside.
- `mem_interfaces_of_around`: an interface around an element of the network is in it.
- `buckets_partition`: **the buckets are a partition of the network.**
- `copy_astray`: a network with the root inside it, and an interface around it.
-/

namespace Netlist

namespace Topology

open Diagram (root)

variable {c : Catalog} {prune : Bool} {scope network : Slot} {d d' : Diagram} {t t₀ : Topology}
  {a i : Slot} {p : NodeKind → Bool}

/-! ## Parts -/

/-- The parts that elements play in a network. -/
inductive Part where
  | node
  | reference
  | ground
  | copy
  | link
  | port
  | spotter
  | interface
deriving DecidableEq

variable {part : Part}

/-- The elements that a topology lists for a part. -/
def bucket (t : Topology) : Part → List Slot
  | .node => t.nodes
  | .reference => t.references
  | .ground => t.grounds
  | .copy => t.interfaceNodes.map Prod.fst
  | .link => t.links
  | .port => t.ports
  | .spotter => t.spotters
  | .interface => t.interfaces

/-- The part of a node outside all interfaces. -/
def partOfKind : NodeKind → Part
  | .reference => .reference
  | .ground => .ground
  | _ => .node

/-- The part of an element with a role. Nodes within interfaces are copies. -/
def partOf (within : Bool) : Role → Option Part
  | .node kind => if within then some .copy else some (partOfKind kind)
  | .link _ => some .link
  | .port => some .port
  | .spotter _ => some .spotter
  | .interface _ => some .interface
  | _ => none

/-- An interface is around an element. -/
def InInterface (d : Diagram) (i : Slot) : Prop := ∃ a, d.Encloses a i ∧ isInterfaceAt d a = true

/-- An element of a network plays a part. -/
structure Plays (d : Diagram) (network : Slot) (part : Part) (i : Slot) : Prop where
  inside : i ∈ d.descendants network
  plays : ∃ e within, d.get? i = some e ∧ (within = true ↔ InInterface d i) ∧
    partOf within e.role = some part

/-- **An element plays one part at most.** -/
theorem Plays.unique {part' : Part} (h : Plays d network part i) (h' : Plays d network part' i) :
    part = part' := by
  obtain ⟨e, within, he, hwithin, hpart⟩ := h.plays
  obtain ⟨e', within', he', hwithin', hpart'⟩ := h'.plays
  rw [he, Option.some.injEq] at he'
  rw [← he', Bool.eq_iff_iff.mpr (hwithin'.trans hwithin.symm), hpart, Option.some.injEq] at hpart'
  exact hpart'

/-- **Nodes outside all interfaces play the part of their kind.** -/
theorem plays_iff_main (kind₀ : NodeKind)
    (hkind₀ : ∀ kind, p kind = true ↔ partOfKind kind = partOfKind kind₀) :
    Plays d network (partOfKind kind₀) i ↔ MainNode d network p i := by
  have hpart : ∀ within r, partOf within r = some (partOfKind kind₀) ↔
      within = false ∧ r.nodeKind?.any p = true := by
    intro within r
    cases r with
    | node kind =>
      cases within with
      | true => cases kind₀ <;> simp [partOf, partOfKind]
      | false => simp [partOf, Role.nodeKind?, hkind₀]
    | _ => cases kind₀ <;> simp [partOf, partOfKind, Role.nodeKind?]
  constructor
  · rintro ⟨hin, e, within, he, hwithin, h⟩
    obtain ⟨rfl, hkind⟩ := (hpart within e.role).mp h
    refine ⟨hin, by rw [he]; exact hkind, fun a ha => Bool.eq_false_iff.mpr fun hrole => ?_⟩
    exact Bool.false_ne_true (hwithin.mpr ⟨a, ha, hrole⟩)
  · rintro ⟨hin, hkind, houtside⟩
    obtain ⟨e, he, hkind⟩ := Option.any_eq_true _ _ |>.mp hkind
    refine ⟨hin, e, false, he, iff_of_false Bool.false_ne_true ?_, (hpart false e.role).mpr
      ⟨rfl, hkind⟩⟩
    rintro ⟨a, ha, hrole⟩
    rw [houtside a ha] at hrole
    exact Bool.false_ne_true hrole

/-- Nodes within interfaces are copies. -/
theorem plays_iff_copy : Plays d network .copy i ↔ CopyNode d network (fun _ => true) i := by
  have hpart : ∀ within r, partOf within r = some .copy ↔
      within = true ∧ r.nodeKind?.any (fun _ => true) = true := by
    intro within r
    cases r with
    | node kind => cases within <;> cases kind <;> decide
    | _ => simp [partOf, Role.nodeKind?]
  constructor
  · rintro ⟨hin, e, within, he, hwithin, h⟩
    obtain ⟨htrue, hkind⟩ := (hpart within e.role).mp h
    exact ⟨hin, by rw [he]; exact hkind, hwithin.mp htrue⟩
  · rintro ⟨hin, hkind, hwithin⟩
    obtain ⟨e, he, hkind⟩ := Option.any_eq_true _ _ |>.mp hkind
    exact ⟨hin, e, true, he, iff_of_true rfl hwithin, (hpart true e.role).mpr ⟨rfl, hkind⟩⟩

/-- What is no node plays the part of its role. -/
theorem partOf_eq_some (within : Bool) (r : Role) :
    (partOf within r = some .link ↔ r.isLink = true) ∧
    (partOf within r = some .port ↔ (r == .port) = true) ∧
    (partOf within r = some .spotter ↔ r.isSpotter = true) ∧
    (partOf within r = some .interface ↔ r.isInterface = true) := by
  cases r with
  | node kind => cases within <;> cases kind <;> decide
  | _ => simp [partOf, Role.isLink, Role.isSpotter, Role.isInterface]

theorem plays_iff_role {q : Role → Bool}
    (hpart : ∀ within r, partOf within r = some part ↔ q r = true) :
    Plays d network part i ↔ i ∈ d.descendants network ∧ roleAt d q i := by
  classical
  constructor
  · rintro ⟨hin, e, within, he, -, h⟩
    exact ⟨hin, e, he, (hpart within e.role).mp h⟩
  · rintro ⟨hin, e, he, hrole⟩
    exact ⟨hin, e, decide (InInterface d i), he, decide_eq_true_iff, (hpart _ e.role).mpr hrole⟩

/-! ## Buckets -/

theorem nodeIn_main_iff (h : collect d scope = .ok t₀) :
    NodeIn d t₀.network none p i ↔ MainNode d t₀.network p i :=
  ⟨NodeIn.main, fun hmain => hmain.nodeIn (exists_home_of_collect h hmain.inside hmain.kind)⟩

/-- A copy is paired with the nearest interface that is met on the way up. -/
theorem nodeIn_copy_iff (h : collect d scope = .ok t₀) :
    NodeIn d t₀.network (some a) (fun _ => true) i ↔
      Plays d t₀.network .copy i ∧ d.Encloses a i ∧ d.Nearest (fun _ e => e.role.isInterface) i a := by
  rw [plays_iff_copy]
  constructor
  · intro hin
    exact ⟨hin.copy, (Diagram.encloses_of_nearestAncestor hin.home).1,
      Diagram.nearestAncestor_eq_some hin.home⟩
  · rintro ⟨hcopy, -, hnearest⟩
    obtain ⟨interface, hin⟩ := hcopy.nodeIn (exists_home_of_collect h hcopy.inside hcopy.kind)
    rwa [hnearest.unique (Diagram.nearestAncestor_eq_some hin.home)]

/-- A ground that is removed: no port of the network touches it. -/
def Loose (prune : Bool) (d : Diagram) (t : Topology) (i : Slot) : Prop :=
  prune = true ∧ Plays d t.network .ground i ∧
    ∀ p ∈ t.ports, ∀ e, d.get? p = some e → e.touches i = false

/-- A port that touches a link of the network. -/
def TouchesLink (d : Diagram) (t : Topology) (i : Slot) : Prop :=
  ∃ e, d.get? i = some e ∧ e.role = .port ∧ ∃ link ∈ t.links, e.touches link = true

theorem reaches_eq_true_iff : reaches d t i = true ↔
    ∃ p ∈ t.ports, ∃ e, d.get? p = some e ∧ e.touches i = true := by
  rw [reaches, List.any_eq_true]
  simp only [Option.any_eq_true]

/-- Numbering leaves the grounds as they were collected. -/
theorem mem_grounds_numbered (h : extract c false scope d = .ok (t, d')) :
    i ∈ t.grounds ↔ NodeIn d t.network none (· == .ground) i := by
  obtain ⟨t₀, domain, t₁, d₁, hcollect, -, -, hrenumber, hsame⟩ := extract_steps.mp h
  obtain ⟨rfl, rfl⟩ := Prod.mk.inj hsame
  obtain ⟨-, hcollected⟩ := collect_eq_ok hcollect
  have hcollected' : Collected d { t₀ with domain := domain } := { hcollected with }
  obtain ⟨nodes, -, rfl⟩ := (renumber_eq_ok hcollected' hrenumber).topology
  exact hcollected.grounds i

/-- **Which grounds an extraction keeps**: all of them, or those that a port touches. -/
theorem mem_grounds_iff (h : extract c prune scope d = .ok (t, d')) :
    i ∈ t.grounds ↔ NodeIn d t.network none (· == .ground) i ∧
      (prune = true → reaches d t i = true) := by
  obtain ⟨-, gone, hextracts⟩ := extract_eq_ok h
  obtain ⟨t₀, -, -, -, hnarrows⟩ := extract_narrows h
  refine ⟨fun hi => ⟨hextracts.grounds i hi, fun hprune => hnarrows.reached hprune i hi⟩, ?_⟩
  rintro ⟨hin, hreached⟩
  cases prune with
  | false => exact (mem_grounds_numbered h).mpr hin
  | true =>
    -- without pruning the same network is extracted, with all of its grounds
    obtain ⟨p, hp, e, he, htouches⟩ := reaches_eq_true_iff.mp (hreached rfl)
    rcases extract_either c true false scope d with ⟨f, hfails, -⟩ | ⟨t₁, d₁, t₂, d₂, h₁, h₂, hsame⟩
    · cases h.symm.trans hfails
    · cases h.symm.trans h₁
      refine (hsame.grounds p hp e he i htouches).mp ((mem_grounds_numbered h₂).mpr ?_)
      rw [hsame.parts]
      exact hin

/-- Only a ground can be loose. -/
theorem Plays.not_loose (h : Plays d t.network part i) (hpart : part ≠ .ground) :
    ¬ Loose prune d t i := fun hloose => hpart (h.unique hloose.2.1)

theorem plays_ground_iff : Plays d network .ground i ↔ MainNode d network (· == .ground) i :=
  plays_iff_main .ground fun kind => by cases kind <;> decide

/-- A ground is loose or kept. -/
theorem mem_grounds_iff_plays (h : extract c prune scope d = .ok (t, d')) :
    i ∈ t.grounds ↔ Plays d t.network .ground i ∧ ¬ Loose prune d t i := by
  obtain ⟨t₀, hcollect, -, -, hnarrows⟩ := extract_narrows h
  have hmain : NodeIn d t.network none (· == .ground) i ↔ Plays d t.network .ground i := by
    rw [hnarrows.network, nodeIn_main_iff hcollect, plays_ground_iff]
  have hreach : reaches d t i = true ↔
      ¬ ∀ p ∈ t.ports, ∀ e, d.get? p = some e → e.touches i = false := by
    rw [reaches_eq_true_iff]
    push Not
    simp only [ne_eq, Bool.not_eq_false]
  rw [mem_grounds_iff h, hmain, hreach]
  refine and_congr_right fun hplays => ?_
  rw [Loose, not_and, not_and]
  exact imp_congr_right fun _ => ⟨fun h _ => h, fun h => h hplays⟩

/-- **What is in a bucket** plays its part, but for loose grounds and for ports outside. -/
theorem mem_bucket_iff (h : extract c prune scope d = .ok (t, d')) :
    i ∈ t.bucket part ↔ Plays d t.network part i ∧ ¬ Loose prune d t i ∨
      part = .port ∧ TouchesLink d t i := by
  obtain ⟨-, gone, hextracts⟩ := extract_eq_ok h
  obtain ⟨t₀, hcollect, -, -, hnarrows⟩ := extract_narrows h
  have hnode : ∀ {p}, NodeIn d t.network none p i ↔ MainNode d t.network p i := by
    intro p
    rw [hnarrows.network]
    exact nodeIn_main_iff hcollect
  have hplays : part ≠ .ground → part ≠ .port → (i ∈ t.bucket part ↔ Plays d t.network part i) →
      (i ∈ t.bucket part ↔ Plays d t.network part i ∧ ¬ Loose prune d t i ∨
        part = .port ∧ TouchesLink d t i) := by
    intro hground hport hbucket
    rw [hbucket, or_iff_left fun h => hport h.1]
    exact ⟨fun h => ⟨h, h.not_loose hground⟩, And.left⟩
  cases part with
  | node =>
    refine hplays nofun nofun ((hextracts.nodes i).trans (hnode.trans ?_))
    exact (plays_iff_main .basic fun kind => by cases kind <;> decide).symm
  | reference =>
    refine hplays nofun nofun ((hextracts.references i).trans (hnode.trans ?_))
    exact (plays_iff_main .reference fun kind => by cases kind <;> decide).symm
  | ground =>
    rw [or_iff_left fun h => nomatch h.1]
    exact mem_grounds_iff_plays h
  | copy =>
    refine hplays nofun nofun ?_
    show i ∈ t.interfaceNodes.map Prod.fst ↔ _
    rw [List.mem_map]
    constructor
    · rintro ⟨⟨i, a⟩, hcopy, rfl⟩
      exact plays_iff_copy.mpr ((hextracts.copies i a).mp hcopy).copy
    · intro hplays
      rw [hnarrows.network] at hplays
      have hcopy := plays_iff_copy.mp hplays
      -- collecting searched upwards from every node, so the search did not fail here
      obtain ⟨a, hin⟩ := hcopy.nodeIn (exists_home_of_collect hcollect hcopy.inside hcopy.kind)
      exact ⟨(i, a), (hextracts.copies i a).mpr (hnarrows.network ▸ hin), rfl⟩
  | link =>
    refine hplays nofun nofun ?_
    show i ∈ t.links ↔ _
    rw [hextracts.links, mem_withRole]
    exact (plays_iff_role fun within r => (partOf_eq_some within r).1).symm
  | spotter =>
    refine hplays nofun nofun ?_
    show i ∈ t.spotters ↔ _
    rw [hextracts.spotters, mem_withRole]
    exact (plays_iff_role fun within r => (partOf_eq_some within r).2.2.1).symm
  | interface =>
    refine hplays nofun nofun ?_
    show i ∈ t.interfaces ↔ _
    rw [hextracts.interfaces, mem_withRole]
    exact (plays_iff_role fun within r => (partOf_eq_some within r).2.2.2).symm
  | port =>
    have hport : Plays d t.network .port i ↔ i ∈ d.descendants t.network ∧
        roleAt d (· == .port) i :=
      plays_iff_role fun within r => (partOf_eq_some within r).2.1
    show i ∈ t.ports ↔ _
    rw [hextracts.ports, mem_portsOf_iff]
    constructor
    · rintro ⟨⟨e, he, hrole⟩, hin | ⟨link, hlink, htouches⟩⟩
      · have hplays := hport.mpr ⟨hin, e, he, beq_iff_eq.mpr hrole⟩
        exact .inl ⟨hplays, hplays.not_loose nofun⟩
      · rw [he, Option.any_some] at htouches
        exact .inr ⟨rfl, e, he, hrole, link, hlink, htouches⟩
    · rintro (⟨hplays, -⟩ | ⟨-, e, he, hrole, link, hlink, htouches⟩)
      · obtain ⟨hin, e, he, hrole⟩ := hport.mp hplays
        exact ⟨⟨e, he, beq_iff_eq.mp hrole⟩, .inl hin⟩
      · exact ⟨⟨e, he, hrole⟩, .inr ⟨link, hlink, by rw [he]; exact htouches⟩⟩

theorem TouchesLink.not_loose (h : TouchesLink d t i) : ¬ Loose prune d t i := by
  obtain ⟨e, he, hrole, -⟩ := h
  rintro ⟨-, ⟨-, e', within, he', -, hpart⟩, -⟩
  rw [he, Option.some.injEq] at he'
  rw [← he', hrole] at hpart
  cases hpart

/-- A loose ground is in no bucket. -/
theorem Loose.not_mem_bucket (h : extract c prune scope d = .ok (t, d'))
    (hloose : Loose prune d t i) (part : Part) : i ∉ t.bucket part := by
  rw [mem_bucket_iff h]
  rintro (⟨-, hnot⟩ | ⟨-, htouches⟩)
  · exact hnot hloose
  · exact htouches.not_loose hloose

/-- Buckets share nothing. -/
theorem part_unique {part' : Part} (h : extract c prune scope d = .ok (t, d'))
    (hi : i ∈ t.bucket part) (hi' : i ∈ t.bucket part') : part = part' := by
  -- a port outside the network plays no part, and one within plays its own
  have hport : ∀ {part}, TouchesLink d t i → Plays d t.network part i → part = .port := by
    rintro part ⟨e, he, hrole, -⟩ ⟨-, e', within, he', -, hpart⟩
    rw [he, Option.some.injEq] at he'
    rw [← he', hrole] at hpart
    exact (Option.some.inj hpart).symm
  rcases (mem_bucket_iff h).mp hi with ⟨hplays, -⟩ | ⟨rfl, htouches⟩
  · rcases (mem_bucket_iff h).mp hi' with ⟨hplays', -⟩ | ⟨rfl, htouches⟩
    · exact hplays.unique hplays'
    · exact hport htouches hplays
  · rcases (mem_bucket_iff h).mp hi' with ⟨hplays', -⟩ | ⟨rfl, -⟩
    · exact (hport htouches hplays').symm
    · rfl

/-- **Every bucket but that of the numbered nodes is in document order.** -/
theorem sorted_bucket (h : extract c prune scope d = .ok (t, d')) (hpart : part ≠ .node) :
    (t.bucket part).Pairwise (· < ·) := by
  obtain ⟨-, gone, hextracts⟩ := extract_eq_ok h
  obtain ⟨t₀, hcollect, -, -, hnarrows⟩ := extract_narrows h
  have hordered := collect_inOrder hcollect
  cases part with
  | node => exact absurd rfl hpart
  | reference =>
    rw [bucket, hnarrows.references]
    exact hordered.references
  | ground => exact hordered.grounds.sublist hnarrows.grounds
  | copy =>
    rw [bucket, hnarrows.copies]
    exact hordered.copies
  | link =>
    rw [bucket, hextracts.links]
    exact sorted_withRole d t.network _
  | port =>
    rw [bucket, hextracts.ports]
    exact sorted_portsOf d _ _
  | spotter =>
    rw [bucket, hextracts.spotters]
    exact sorted_withRole d t.network _
  | interface =>
    rw [bucket, hextracts.interfaces]
    exact sorted_withRole d t.network _

/-! ## Interfaces around nodes -/

/-- An extracted network has a node outside all interfaces. -/
theorem exists_mainNode (h : extract c prune scope d = .ok (t, d')) :
    ∃ k, MainNode d t.network NodeKind.isNumbered k := by
  obtain ⟨t₀, hcollect, hfilled, -, hnarrows⟩ := extract_narrows h
  obtain ⟨-, hnodes, -⟩ := checkFilled_eq_ok.mp hfilled
  obtain ⟨k, hk⟩ := List.exists_mem_of_ne_nil _ hnodes
  exact ⟨k, hnarrows.network ▸ (mem_nodes_iff hcollect).mp hk⟩

/-- **An interface around an element of the network is in the network**, unless the root is:
an interface around the network would be around all of its nodes. -/
theorem mem_interfaces_of_around (h : extract c prune scope d = .ok (t, d'))
    (hroot : ¬ d.Inside root t.network) (hin : d.Inside i t.network)
    (haround : interfaceAround d i = .ok (some a)) : a ∈ t.interfaces := by
  obtain ⟨hcontainer, gone, hextracts⟩ := extract_eq_ok h
  obtain ⟨hencloses, e, he, hrole⟩ := Diagram.encloses_of_nearestAncestor haround
  obtain ⟨network, hnetwork, hsub⟩ := exists_of_container hcontainer
  have hne : a ≠ t.network := by
    rintro rfl
    rw [he, Option.some.injEq] at hnetwork
    rw [← hnetwork, Role.isSubNetwork_of_isInterface hrole] at hsub
    cases hsub
  rw [hextracts.interfaces, mem_withRole]
  refine ⟨Diagram.mem_descendants.mpr ⟨⟨network, hnetwork⟩, hne, ?_⟩, e, he, hrole⟩
  rcases hencloses.within_or_around hin with heq | hwithin | ⟨hbelow, habove⟩
  · exact absurd heq hne
  · exact hwithin
  · -- around the network: then it is around a node of the main network, which has none
    obtain ⟨k, hmain⟩ := exists_mainNode h
    have hk := (Diagram.mem_descendants.mp hmain.inside).2.2
    have hfails := hmain.outside a (habove.within hbelow ⟨network, hnetwork⟩ hroot hk)
    rw [isInterfaceAt, he, Option.any_some, hrole] at hfails
    cases hfails

/-! ## The partition -/

/-- Whether an element with a role plays a part in its network. -/
def hasPart (r : Role) : Bool :=
  r.nodeKind?.isSome || r.isLink || r == .port || r.isSpotter || r.isInterface

theorem exists_plays (hin : i ∈ d.descendants network) (hrole : roleAt d hasPart i) :
    ∃ part, Plays d network part i := by
  classical
  obtain ⟨e, he, hpart⟩ := hrole
  obtain ⟨part, hpart⟩ : ∃ part, partOf (decide (InInterface d i)) e.role = some part := by
    generalize decide (InInterface d i) = within
    cases hr : e.role with
    | node kind => cases within <;> exact ⟨_, rfl⟩
    | link shape => exact ⟨_, rfl⟩
    | port => exact ⟨_, rfl⟩
    | spotter shape => exact ⟨_, rfl⟩
    | interface payload => exact ⟨_, rfl⟩
    | _ => rw [hr] at hpart; cases hpart
  exact ⟨part, hin, e, _, he, decide_eq_true_iff, hpart⟩

/-- The buckets of a topology divide a network of the diagram `d`. The diagram `d'` is what
is left of it. -/
structure Divides (prune : Bool) (d : Diagram) (t : Topology) (d' : Diagram) : Prop where
  /-- What is in a bucket plays its part in the network, or is a port at a link of it. -/
  content : ∀ part i, i ∈ t.bucket part ↔
    Plays d t.network part i ∧ ¬ Loose prune d t i ∨ part = .port ∧ TouchesLink d t i
  /-- Whatever plays a part is in one bucket, unless it is a loose ground. -/
  one : ∀ i ∈ d.descendants t.network, roleAt d hasPart i → ¬ Loose prune d t i →
    ∃! part, i ∈ t.bucket part
  /-- Nothing is in two buckets. -/
  disjoint : ∀ part part' i, i ∈ t.bucket part → i ∈ t.bucket part' → part = part'
  /-- Nothing is in a bucket twice. -/
  nodup : ∀ part, (t.bucket part).Nodup
  /-- All buckets but that of the numbered nodes are in document order. -/
  sorted : ∀ part, part ≠ .node → (t.bucket part).Pairwise (· < ·)
  /-- A copy is paired with the nearest interface that is met on the way up. -/
  nearest : ∀ i a, (i, a) ∈ t.interfaceNodes ↔ Plays d t.network .copy i ∧ d.Encloses a i ∧
    d.Nearest (fun _ e => e.role.isInterface) i a
  /-- A ground is left out iff loose ones are removed and no port of the network touches it. -/
  pruned : ∀ i, Plays d t.network .ground i → (i ∉ t.grounds ↔
    prune = true ∧ ∀ p ∈ t.ports, ∀ e, d.get? p = some e → e.touches i = false)
  /-- What is left out is in no other bucket, and is removed. -/
  gone : ∀ i, Loose prune d t i → (∀ part, i ∉ t.bucket part) ∧ (i ≠ root → d'.get? i = none)
  /-- Interfaces of copies are in the network, unless the root is. -/
  paired : ¬ d.Inside root t.network → ∀ i a, (i, a) ∈ t.interfaceNodes → a ∈ t.interfaces

/-- **The buckets are a partition of the network**, but for the grounds that are removed and
the ports that are drawn outside it. -/
theorem buckets_partition (h : extract c prune scope d = .ok (t, d')) : Divides prune d t d' := by
  obtain ⟨-, gone, hextracts⟩ := extract_eq_ok h
  obtain ⟨t₀, hcollect, -, -, hnarrows⟩ := extract_narrows h
  exact {
    content := fun part i => mem_bucket_iff h
    one := by
      intro i hin hrole hloose
      obtain ⟨part, hplays⟩ := exists_plays hin hrole
      have hmem := (mem_bucket_iff h).mpr (.inl ⟨hplays, hloose⟩)
      exact ⟨part, hmem, fun part' hmem' => part_unique h hmem' hmem⟩
    disjoint := fun part part' i => part_unique h
    nodup := by
      intro part
      by_cases hpart : part = .node
      · subst hpart
        exact hnarrows.nodup
      · exact (sorted_bucket h hpart).imp Nat.ne_of_lt
    sorted := fun part => sorted_bucket h
    nearest := by
      intro i a
      rw [hextracts.copies, hnarrows.network]
      exact nodeIn_copy_iff hcollect
    pruned := by
      intro i hplays
      rw [mem_grounds_iff_plays h, and_iff_right hplays, not_not, Loose, and_iff_right hplays]
    gone := by
      intro i hloose
      have hground := plays_ground_iff.mp hloose.2.1
      rw [hnarrows.network, ← nodeIn_main_iff hcollect] at hground
      exact ⟨hloose.not_mem_bucket h, hnarrows.loose i
        ((collect_eq_ok hcollect).2.grounds i |>.mpr hground) (hloose.not_mem_bucket h .ground)⟩
    paired := by
      intro hroot i a hcopy
      have hin := (hextracts.copies i a).mp hcopy
      exact mem_interfaces_of_around h hroot (Diagram.mem_descendants.mp hin.inside).2.2 hin.home }

/-! ## Around the network -/

/-- A pipe at a node of a network and at a ground, with a copy in an interface and a ground
that no port touches. One of the ports is drawn outside the network. -/
def plot : Diagram :=
  let elements : List Element :=
    [{ id := "root", role := .root },
      { id := "net", role := .network .sub, parent := some 0 },
      { id := "a", role := .node .basic, label := "0", parent := some 1 },
      { id := "v", role := .link ⟨"Pipe", none⟩, label := "V", parent := some 1 },
      { id := "i", role := .interface ⟨none, none⟩, label := "inlet", parent := some 1 },
      { id := "k", role := .node .basic, label := "0", parent := some 4 },
      { id := "g", role := .node .ground, parent := some 1 },
      { id := "h", role := .node .ground, parent := some 1 },
      { id := "p", role := .port, label := "0", parent := some 1, source := some 3,
        target := some 2 },
      { id := "q", role := .port, label := "1", parent := some 0, source := some 3,
        target := some 6 }]
  ⟨(elements.map some).toArray⟩

theorem rooted_plot : plot.Rooted := by
  rintro p ⟨e, he, hp⟩
  cases he
  cases hp

/-- One of the grounds is left out, and the interface of the copy is one of the network. -/
theorem buckets_partition_plot : ∃ t d', extract pipes true root plot = .ok (t, d') ∧
    Divides true plot t d' ∧ t.grounds = [6] ∧ t.ports = [8, 9] ∧ 4 ∈ t.interfaces := by
  have hparts : (extract pipes true root plot).toOption.any (fun r => decide
      (r.1.grounds = [6] ∧ r.1.ports = [8, 9] ∧ r.1.interfaceNodes = [(5, 4)])) = true := by cbv
  obtain ⟨⟨t, d'⟩, hextract, hparts⟩ := exists_eq_ok hparts
  obtain ⟨hgrounds, hports, hcopies⟩ := of_decide_eq_true hparts
  have hdivides := buckets_partition hextract
  refine ⟨t, d', hextract, hdivides, hgrounds, hports,
    hdivides.paired rooted_plot.not_inside 5 4 ?_⟩
  rw [hcopies]
  exact List.mem_singleton_self _

/-- A network that the root is drawn inside, and that is drawn inside an interface. -/
def astray : Diagram :=
  let elements : List Element :=
    [{ id := "root", role := .root, parent := some 2 },
      { id := "i", role := .interface ⟨none, none⟩, label := "outer" },
      { id := "net", role := .network .sub, label := "Net", parent := some 1 },
      { id := "a", role := .node .basic, label := "0", parent := some 0 },
      { id := "k", role := .node .basic, label := "0", parent := some 2 },
      { id := "v", role := .link ⟨"Pipe", none⟩, label := "V", parent := some 2 },
      { id := "p", role := .port, label := "0", parent := some 2, source := some 5,
        target := some 4 }]
  ⟨(elements.map some).toArray⟩

/-- The interface that a node is a copy in may lie outside the network. -/
theorem copy_astray : ¬ ∀ (c : Catalog) (prune : Bool) (scope : Slot) (d : Diagram) (t : Topology)
    (d' : Diagram), extract c prune scope d = .ok (t, d') →
      ∀ i a, (i, a) ∈ t.interfaceNodes → a ∈ t.interfaces := by
  intro hall
  have hparts : (extract pipes true 2 astray).toOption.any (fun r => decide
      (r.1.interfaceNodes = [(4, 1)] ∧ r.1.interfaces = [])) = true := by cbv
  obtain ⟨⟨t, d'⟩, hextract, hparts⟩ := exists_eq_ok hparts
  obtain ⟨hcopies, hinterfaces⟩ := of_decide_eq_true hparts
  have hmem := hall pipes true 2 astray t d' hextract 4 1 (hcopies ▸ List.mem_singleton_self _)
  rw [hinterfaces] at hmem
  cases hmem

end Topology

end Netlist
