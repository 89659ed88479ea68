import Netlist.Proofs.Assembly.Findings
import Netlist.Proofs.Assembly.Steps

/-!
# The names of super-ports

A super-port carries the name of an instance: the one around the interface that it
was found at. The interface is located by going up to the nearest network
container, the name is looked up among the instances that were placed. The two
need not agree, since a container may lie inside an instance or beside the
super-network. The super-ports found at such a place have no name.

- `home?`, `nameAt`: the container around an end of a connector, and its name.
- `NoNewSubs`, `placeAll_noNewSubs`: assembly makes no network containers.
- `names_of_super_ports`: **a super-port names a placed instance, unless its
  interface lies in a container that is not placed**; then its name is empty.
-/

namespace Netlist.Assembly

variable {x : Context} {d d₁ d' : Diagram} {a b c i s superNetwork : Slot} {naming : Naming}
  {placements : Placements} {p : SuperPort}

/-! ## Homes of ends -/

/-- The network container around the interface that stands for an end of a connector. -/
def home? (d : Diagram) (a : Slot) : Except Fault (Option Slot) :=
  d.nearestAncestor (canonical d a) fun _ e => e.role.isSubNetwork

/-- The name of a placed instance; that of any other container is empty. -/
def nameAt (placements : Placements) (s : Slot) : String :=
  ((placements.lookup s).map Placement.name).getD ""

theorem home?_of_side {around : Side} (h : side d a = .ok around) :
    home? d a = .ok (some around.subnet) :=
  (side_eq_ok.mp h).2.2

theorem subnet_of_mem_superPortsOf {own other : Side}
    (h : p ∈ superPortsOf d placements own other) : p.subnet = nameAt placements own.subnet := by
  rw [superPortsOf, List.mem_filterMap] at h
  obtain ⟨connection, -, h⟩ := h
  rw [superPort?, Option.bind_eq_some_iff] at h
  obtain ⟨node, -, h⟩ := h
  obtain ⟨number, -, rfl⟩ := Option.map_eq_some_iff.mp h
  rfl

/-- Both ends of a connector that was bound are in a network container, and what was
found carries the name of one of the two. -/
theorem homes_of_wiresAt {found : List SuperPort} (hwires : wiresAt d placements c = .ok found)
    (hab : joined? d c = some (a, b)) : ∃ s t, home? d a = .ok (some s) ∧
      home? d b = .ok (some t) ∧
      ∀ p ∈ found, p.subnet = nameAt placements s ∨ p.subnet = nameAt placements t := by
  rw [wiresAt, hab] at hwires
  obtain ⟨one, two, hone, htwo, -, rfl⟩ := bindSides_eq_ok hwires
  refine ⟨one.subnet, two.subnet, home?_of_side hone, home?_of_side htwo, fun p hp => ?_⟩
  rcases List.mem_append.mp hp with hp | hp
  · exact .inl (subnet_of_mem_superPortsOf hp)
  · exact .inr (subnet_of_mem_superPortsOf hp)

/-- A name is that of a placement, or there is no placement. -/
theorem nameAt_cases (placements : Placements) (s : Slot) :
    (∃ q ∈ placements, q.1 = s ∧ nameAt placements s = q.2.name) ∨
      (∀ q ∈ placements, q.1 ≠ s) ∧ nameAt placements s = "" := by
  rw [nameAt]
  cases hlookup : placements.lookup s with
  | some q =>
    left
    obtain ⟨before, after, rfl, -⟩ := List.lookup_eq_some_iff.mp hlookup
    exact ⟨(s, q), List.mem_append_right _ List.mem_cons_self, rfl, rfl⟩
  | none =>
    right
    rw [List.lookup_eq_none_iff] at hlookup
    refine ⟨fun q hq heq => ?_, rfl⟩
    have hne := hlookup q hq
    rw [heq, bne_self_eq_false] at hne
    cases hne

/-! ## Network containers -/

/-- Every network container was there before. -/
def NoNewSubs (d d' : Diagram) : Prop :=
  ∀ j e', d'.get? j = some e' → e'.role.isSubNetwork = true →
    ∃ e, d.get? j = some e ∧ e.role.isSubNetwork = true

namespace NoNewSubs

theorem refl (d : Diagram) : NoNewSubs d d := fun _ e' he' hsub => ⟨e', he', hsub⟩

theorem trans (h : NoNewSubs d d₁) (h' : NoNewSubs d₁ d') : NoNewSubs d d' := by
  intro j e' he' hsub
  obtain ⟨e₁, he₁, hsub₁⟩ := h' j e' he' hsub
  exact h j e₁ he₁ hsub₁

theorem foldl {β : Type} {f : Diagram → β → Diagram} (hf : ∀ d b, NoNewSubs d (f d b))
    (bs : List β) (d : Diagram) : NoNewSubs d (bs.foldl f d) := by
  induction bs generalizing d with
  | nil => exact refl d
  | cons b bs ih => exact (hf d b).trans (ih (f d b))

theorem of_core? (h : ∀ j, d'.core? j = d.core? j) : NoNewSubs d d' := by
  intro j e' he' hsub
  obtain ⟨e, he, hcore⟩ := Diagram.core?_eq_some.mp ((h j).symm.trans (Diagram.core?_of_get? he'))
  refine ⟨e, he, ?_⟩
  show e.core.role.isSubNetwork = true
  rw [hcore]
  exact hsub

theorem modify {f : Element → Element} (hf : ∀ e, (f e).role.isSubNetwork = e.role.isSubNetwork)
    (d : Diagram) (i : Slot) : NoNewSubs d (d.modify i f) := by
  intro j e' he' hsub
  rw [Diagram.get?_modify] at he'
  split at he'
  · obtain ⟨e, he, rfl⟩ := Option.map_eq_some_iff.mp he'
    exact ⟨e, he, (hf e).symm.trans hsub⟩
  · exact ⟨e', he', hsub⟩

theorem remove (d : Diagram) (i : Slot) : NoNewSubs d (d.remove i) := by
  intro j e' he' hsub
  cases hremovable : d.removable? i with
  | none =>
    rw [Diagram.remove, hremovable] at he'
    exact ⟨e', he', hsub⟩
  | some e =>
    rw [Diagram.get?_remove (by rw [hremovable]; rfl)] at he'
    split at he'
    · cases he'
    · obtain ⟨e₀, he₀, rfl⟩ := Option.map_eq_some_iff.mp he'
      exact ⟨e₀, he₀, hsub⟩

theorem removeSubtree (d : Diagram) (i : Slot) : NoNewSubs d (d.removeSubtree i).2 := by
  rw [Diagram.removeSubtree]
  split
  · exact refl d
  · exact foldl remove _ d

theorem clear (s : Slot) (d : Diagram) : NoNewSubs d (clear s d) :=
  foldl (fun d child => removeSubtree d child) _ d

theorem shiftAll (delta : Int) (slots : List Slot) (d : Diagram) :
    NoNewSubs d (shiftAll delta slots d) :=
  foldl (fun d i => modify (fun e => by rw [shift_eq]) d i) slots d

theorem marked (s : Slot) (d : Diagram) : NoNewSubs d (marked s d) := by
  rw [Assembly.marked, markDuplicates]
  refine foldl (fun d q => ?_) _ d
  exact modify (fun e => Role.isSubNetwork_setDuplicateOf q.2 e.role) d q.1

theorem relinkAll (drawing : Diagram) (s : Slot) (copies order : List (Slot × Slot)) (d : Diagram) :
    NoNewSubs d (relinkAll drawing s copies order d) := by
  refine foldl (fun d pair => ?_) order d
  rw [relink]
  split
  · exact refl d
  · split
    · exact remove d _
    · exact modify (fun e => by rfl) d _

/-- Copies of what is no network container are none. -/
theorem of_copies {drawing : Diagram} {order : List Slot} {copies : List (Slot × Slot)}
    (h : Copies drawing d d' order copies)
    (horder : ∀ o ∈ order, ∀ e, drawing.get? o = some e → e.role.isSubNetwork = false) :
    NoNewSubs d d' := by
  intro j e' he' hsub
  by_cases hj : j < d.bound
  · exact ⟨e', h.old j hj ▸ he', hsub⟩
  · have hmem : j ∈ copies.map Prod.snd := by
      rw [h.slots, List.mem_range'_1, ← h.bound]
      exact ⟨Nat.le_of_not_lt hj, Diagram.lt_bound_of_get? he'⟩
    obtain ⟨⟨o, c⟩, hpair, rfl⟩ := List.mem_map.mp hmem
    obtain ⟨drawn, e, hdrawn, he, hrole, -⟩ := h.new o c hpair
    rw [he'] at he
    cases he
    rw [hrole, horder o (h.originals ▸ List.mem_map_of_mem (f := Prod.fst) hpair) drawn hdrawn] at hsub
    cases hsub

end NoNewSubs

/-- Refreshing makes no network containers: there is none in what is imported. -/
theorem refresh_noNewSubs {name : String} {offset : Nat} {done : Refreshed}
    (h : Edit.Runs (refresh x s name offset) d done d') : NoNewSubs d d' := by
  obtain ⟨e, drawing, compiled, diagram, d₁, -, -, hcompile, himport, hrebind, -⟩ :=
    refreshVisiting_runs_iff.mp h
  obtain ⟨_, _, _, _, hstages⟩ := Compilation.compile_runs hcompile
  have hvalid := Compilation.compile_validates hcompile
  rw [importVisiting, Edit.runs_bind] at himport
  obtain ⟨copies, d₂, hcopy, himport⟩ := himport
  rw [Edit.runs_update_bind, Edit.runs_update] at himport
  subst himport
  have hcopies := NoNewSubs.of_copies (copyAll_runs hcopy) fun o ho drawn hdrawn =>
    (hstages.of_member hvalid ho hdrawn).1
  have hlinked := (NoNewSubs.relinkAll diagram s copies (x.visiting.order copies) d₂).trans
    (NoNewSubs.shiftAll (Word.signed offset) ((x.visiting.order copies).map Prod.snd) _)
  have himported := (NoNewSubs.clear s d).trans (hcopies.trans hlinked)
  exact himported.trans (NoNewSubs.of_core? (rebindAll_frame hrebind).2)

theorem reuse_noNewSubs {offset nodeCount : Nat} (h : Edit.Runs (reuse s offset) d nodeCount d') :
    NoNewSubs d d' := by
  obtain ⟨e, recordedOffset, recorded, -, -, -, -, rfl⟩ := reuse_runs_iff.mp h
  rw [moved]
  split
  · exact NoNewSubs.shiftAll _ _ d
  · exact NoNewSubs.refl d

theorem place_noNewSubs {offset : Nat} {q : Placed} (h : Edit.Runs (place x s offset) d q d') :
    NoNewSubs d d' := by
  obtain ⟨e, was, done, d₁, d₂, -, hsettle, rfl, rfl, -⟩ := place_runs_iff.mp h
  have hsettled : NoNewSubs d d₁ := by
    rw [settle_runs_iff] at hsettle
    split at hsettle
    · exact refresh_noNewSubs hsettle.2
    · obtain ⟨nodeCount, -, hreuse⟩ := hsettle
      exact reuse_noNewSubs hreuse
  have hplaced := hsettled.trans (NoNewSubs.modify (f := withPlace offset done.nodeCount)
    (fun _ => rfl) d₁ s)
  exact hplaced.trans (NoNewSubs.marked s _)

/-- **Assembly makes no network containers**, and instances are placed in their order. -/
theorem placeAll_noNewSubs {offset : Nat} {instances : List Slot} {placed : List Placed}
    (h : Edit.Runs (placeAll x offset instances) d placed d') :
    NoNewSubs d d' ∧ placed.map Placed.slot = instances := by
  induction instances generalizing d offset placed with
  | nil =>
    rw [placeAll] at h
    obtain ⟨rfl, rfl⟩ := Edit.runs_pure.mp h
    exact ⟨NoNewSubs.refl d, rfl⟩
  | cons s instances ih =>
    obtain ⟨q, later, d₁, rfl, hplace, hlater⟩ := placeAll_runs_cons.mp h
    obtain ⟨hnew, hslots⟩ := ih hlater
    obtain ⟨e, was, done, d₂, d₃, -, -, -, -, rfl⟩ := place_runs_iff.mp hplace
    exact ⟨(place_noNewSubs hplace).trans hnew, by rw [List.map_cons, hslots]⟩

theorem noNewSubs_withoutSuperPorts (d : Diagram) : NoNewSubs d (withoutSuperPorts d) := by
  rw [withoutSuperPorts, discard_snd]
  exact NoNewSubs.foldl NoNewSubs.remove _ d

theorem Draws.noNewSubs (h : Draws d d') : NoNewSubs d d' := by
  intro j e' he' hsub
  have hport : e'.role.isSuperPort = false := by
    cases hr : e'.role <;> rw [hr] at hsub <;> first | cases hsub | rfl
  exact ⟨e', (h.old he' hport).2, hsub⟩

/-! ## Names -/

/-- The unplaced network containers of a document: those that are no instances of its
super-network. -/
def Unplaced (d : Diagram) (s : Slot) : Prop :=
  (∃ e, d.get? s = some e ∧ e.role.isSubNetwork = true) ∧
    ∀ superNetwork instances, findSuperNetwork d = .ok superNetwork →
      findInstances d superNetwork = .ok instances → s ∉ instances

/-- What stitching says about the homes of its connectors: both ends of every connector
that joins two interfaces have one, and every super-port carries the name of a home. -/
structure Housed (d : Diagram) (placements : Placements) (superNetwork : Slot) (d' : Diagram)
    (ports : List SuperPort) : Prop where
  homes : ∀ c ∈ connectorsIn d superNetwork, ∀ a b, joined? d c = some (a, b) →
    ∃ dk s t, Draws (withoutSuperPorts d) dk ∧ Draws dk d' ∧ home? dk a = .ok (some s) ∧
      home? dk b = .ok (some t)
  names : ∀ p ∈ ports, ∃ c ∈ connectorsIn d superNetwork, ∃ a b dk s, joined? d c = some (a, b) ∧
    Draws (withoutSuperPorts d) dk ∧ Draws dk d' ∧
    (home? dk a = .ok (some s) ∨ home? dk b = .ok (some s)) ∧ p.subnet = nameAt placements s

theorem stitch_housed {r : Stitching}
    (h : Edit.Runs (stitch naming placements superNetwork) d r d') :
    Housed d placements superNetwork d' r.superPorts := by
  obtain ⟨hdraws, founds, hfounds, hports⟩ := stitchAll_finds (stitch_runs_iff.mp ⟨r, h, rfl⟩)
  have hlt : ∀ c ∈ connectorsIn d superNetwork, c < (withoutSuperPorts d).bound := by
    intro c hc
    obtain ⟨-, e, he, hrole⟩ := mem_connectorsIn.mp hc
    exact Diagram.lt_bound_of_get? (get?_withoutSuperPorts_of_role he (by rw [hrole]; rfl))
  have hjoined : ∀ c ∈ connectorsIn d superNetwork, ∀ {dk}, Draws (withoutSuperPorts d) dk →
      joined? dk c = joined? d c := fun c hc _ hk =>
    (hk.joined? (hlt c hc)).trans (joined?_withoutSuperPorts d c)
  constructor
  · intro c hc a b hab
    obtain ⟨found, -, dk, hk, hk', hwires⟩ := forall₂_mem_left hfounds hc
    obtain ⟨s, t, hs, ht, -⟩ := homes_of_wiresAt hwires ((hjoined c hc hk).trans hab)
    exact ⟨dk, s, t, hk, hk', hs, ht⟩
  · intro p hp
    rw [hports, mem_foldl_addNew] at hp
    obtain ⟨found, hfound, hp⟩ := List.mem_flatten.mp (hp.resolve_left List.not_mem_nil)
    obtain ⟨c, hc, dk, hk, hk', hwires⟩ := forall₂_mem_right hfounds hfound
    cases hab : joined? dk c with
    | none =>
      -- Nothing is found for a connector that does not join two interfaces.
      rw [wiresAt, hab] at hwires
      cases hwires
      cases hp
    | some pair =>
      obtain ⟨a, b⟩ := pair
      obtain ⟨s, t, hs, ht, hnames⟩ := homes_of_wiresAt hwires hab
      have hab' := (hjoined c hc hk).symm.trans hab
      rcases hnames p hp with hname | hname
      · exact ⟨c, hc, a, b, dk, s, hab', hk, hk', .inl hs, hname⟩
      · exact ⟨c, hc, a, b, dk, t, hab', hk, hk', .inr ht, hname⟩

/-- **A super-port names a placed instance, or lies at a container that is not placed.**
Stitching succeeds only if the interfaces that stand for both ends of every connector
between two interfaces are in a network container, and every super-port carries the
name of such a container if it is placed, and else the empty name. So after an assembly
every super-port has the name of a listed subnet, or the empty name because of a
network container of the document that is no instance of the super-network. -/
theorem names_of_super_ports (d : Diagram) :
    (∀ naming placements superNetwork (r : Stitching) d',
      Edit.Runs (stitch naming placements superNetwork) d r d' →
        Housed d placements superNetwork d' r.superPorts ∧
        ∀ s, (∃ q ∈ placements, q.1 = s ∧ nameAt placements s = q.2.name) ∨
          (∀ q ∈ placements, q.1 ≠ s) ∧ nameAt placements s = "") ∧
    ∀ x (A : Assembly) d', Edit.Runs (assemble x) d A d' → ∀ p ∈ A.network.superPorts,
      (∃ i ∈ A.network.subnets, p.subnet = i.name) ∨ p.subnet = "" ∧ ∃ s, Unplaced d s := by
  refine ⟨fun naming placements superNetwork r d' h => ⟨stitch_housed h, nameAt_cases placements⟩,
    fun x A d' h p hp => ?_⟩
  obtain ⟨-, superNetwork, instances, placed, d₁, stitching, hsuper, hinstances, hplace,
    hstitch, hsubnets, hports⟩ := assemble_runs h
  obtain ⟨hnew, hslots⟩ := placeAll_noNewSubs hplace
  rw [hports] at hp
  obtain ⟨c, -, a, b, dk, s, -, hk, -, hhome, hname⟩ := (stitch_housed hstitch).names p hp
  -- The container is one that was placed, or the name is empty.
  rcases nameAt_cases (placed.map Placed.placement) s with ⟨q, hq, -, hq'⟩ | ⟨hnot, hempty⟩
  · left
    obtain ⟨placement, hmem, rfl⟩ := List.mem_map.mp hq
    rw [hsubnets]
    exact ⟨placement.subnet, List.mem_map_of_mem hmem, hname.trans hq'⟩
  · right
    refine ⟨hname.trans hempty, s, ?_, fun superNetwork' instances' hsuper' hinstances' hs => ?_⟩
    · have hsub : ∃ e, dk.get? s = some e ∧ e.role.isSubNetwork = true := by
        rcases hhome with hhome | hhome <;> exact (Diagram.nearestAncestor_eq_some hhome).passes
      obtain ⟨e, he, hsub⟩ := hsub
      have hall := hnew.trans ((noNewSubs_withoutSuperPorts d₁).trans hk.noNewSubs)
      exact hall s e he hsub
    · rw [hsuper] at hsuper'
      cases hsuper'
      rw [hinstances] at hinstances'
      cases hinstances'
      rw [← hslots, List.mem_map] at hs
      obtain ⟨q, hq, rfl⟩ := hs
      exact hnot q.placement (List.mem_map_of_mem hq) rfl

/-! ## A lodger -/

/-- A town of two houses. In the second one there is a flat of its own, and the
connector ends at the interface of the flat. Two valves are recorded there and at the
interface of the first house. -/
def town : Diagram :=
  diagramOf
    [{ id := "root", role := .root },
      { id := "all", role := .network .super, label := "Town", parent := some 0 },
      { id := "s", role := .network .sub, label := "S", parent := some 1,
        fields := Fields.ofList [(Connections.nodeCountField, "1")] },
      { id := "o", role := .interface ⟨some ⟨1, [⟨"V1", 1, "out", [0, -1]⟩]⟩, none⟩,
        label := "outlet", parent := some 2 },
      { id := "n", role := .node .basic, label := "0", parent := some 3,
        fields := Fields.ofList [(Element.keyField, "in")] },
      { id := "g", role := .node .ground, parent := some 3,
        fields := Fields.ofList [(Element.keyField, "out")] },
      { id := "h", role := .network .sub, label := "H", parent := some 1,
        fields := Fields.ofList [(Connections.nodeCountField, "2")] },
      { id := "f", role := .network .sub, label := "Flat", parent := some 6 },
      { id := "i", role := .interface ⟨some ⟨5, [⟨"V2", 0, "in", [-1, 0]⟩]⟩, none⟩,
        label := "inlet", parent := some 7 },
      { id := "m", role := .node .ground, parent := some 8,
        fields := Fields.ofList [(Element.keyField, "in")] },
      { id := "k", role := .node .basic, label := "1", parent := some 8,
        fields := Fields.ofList [(Element.keyField, "out")] },
      { id := "c", role := .connector, parent := some 1, source := some 3, target := some 8 }]

/-- No drawings and no library. -/
def townContext : Context where
  catalog := .empty
  switches := {}
  assembly := {}
  shelf := fun _ => .ok none
  naming := fun slot => toString slot

/-- What comes of the town: two super-ports, one of them without a name, for the houses
`S` and `H`. The connector ends at the interface `8` of the flat `7`. -/
def housesTown (o : Outcome Failure Assembly) : Bool :=
  joined? o.diagram 11 == some (3, 8) && (home? o.diagram 8).toOption == some (some 7) &&
    o.result.toOption.any fun A =>
      A.network.superPorts == [⟨"S", "V1", 1, 2⟩, ⟨"", "V2", 0, 0⟩] &&
        A.network.subnets.map Subnet.name == ["S", "H"]

theorem housesTown_assemble : housesTown ((assemble townContext).run town) = true := by cbv

/-- The super-port at the interface of the first house names a subnet, and that is the
first house. -/
theorem names_of_super_ports_town : ∃ A d', Edit.Runs (assemble townContext) town A d' ∧
    (⟨"S", "V1", 1, 2⟩ : SuperPort) ∈ A.network.superPorts ∧
    ∃ i ∈ A.network.subnets, "S" = i.name := by
  have htown := housesTown_assemble
  simp only [housesTown, Bool.and_eq_true, beq_iff_eq, Option.any_eq_true, toOption_eq_some] at htown
  obtain ⟨-, A, hA, hports, -⟩ := htown
  have hp : (⟨"S", "V1", 1, 2⟩ : SuperPort) ∈ A.network.superPorts := by
    rw [hports]
    exact List.mem_cons_self
  refine ⟨A, _, ⟨hA, rfl⟩, hp, ?_⟩
  rcases (names_of_super_ports town).2 _ A _ ⟨hA, rfl⟩ _ hp with hname | ⟨hempty, -⟩
  · exact hname
  · exact absurd hempty (by decide)

/-- The connector of the town ends in the flat, which is not placed, and still the town
is assembled. The super-port that is found there names no subnet. -/
theorem super_ports_nameless : ∃ A d', Edit.Runs (assemble townContext) town A d' ∧
    findInstances town 1 = .ok [2, 6] ∧ joined? d' 11 = some (3, 8) ∧
    home? d' 8 = .ok (some 7) ∧
    ∃ p ∈ A.network.superPorts, ∀ i ∈ A.network.subnets, p.subnet ≠ i.name := by
  have htown := housesTown_assemble
  have hinstances : findInstances town 1 = .ok [2, 6] := by cbv
  simp only [housesTown, Bool.and_eq_true, beq_iff_eq, Option.any_eq_true, toOption_eq_some] at htown
  obtain ⟨⟨hjoined, hhome⟩, A, hA, hports, hnames⟩ := htown
  refine ⟨A, _, ⟨hA, rfl⟩, hinstances, hjoined, hhome, ⟨"", "V2", 0, 0⟩, ?_, fun i hi => ?_⟩
  · rw [hports]
    decide
  · have hmem : i.name ∈ ["S", "H"] := hnames ▸ List.mem_map_of_mem hi
    rintro heq
    rw [← heq] at hmem
    revert hmem
    decide

end Netlist.Assembly
