import Netlist.Proofs.Assembly.Matching
import Netlist.Proofs.Assembly.Redrawing
import Netlist.Proofs.Edit.Fails

/-!
# Connectors have no direction

Stitching looks at the two ends of a connector one after the other: it finds the source
side first, and draws what the source side records first. In which order that is done can
be seen from the order of the super-ports, and from nothing else. Both runs are followed
in step: where the one draws some super-ports, the other one draws as many.

- `Element.turn`, `Diagram.turn`: exchanging the ends of an element, and of the connectors
  among some slots.
- `Turns`, `InStep`: elements and diagrams that differ in directions and super-ports.
- `checkCompatible_comm`: two sides fit together in either order.
- `InStep.wiresAt`: **a connector has the same to find in both diagrams**, in some order.
- `InStep.drawNew`, `InStep.stitchAll`: drawing and stitching in step.
- `stitch_turn`: **turning connectors round changes nothing** but orders.
-/

namespace Netlist

/-- The element with its ends exchanged. -/
def Element.turn (e : Element) : Element := { e with source := e.target, target := e.source }

/-- The diagram with the ends exchanged of the connectors in some slots. -/
def Diagram.turn (chosen : Slot → Bool) (d : Diagram) : Diagram :=
  ⟨d.slots.mapIdx fun i o => o.map fun e => if chosen i && e.role == .connector then e.turn else e⟩

theorem Diagram.get?_turn (chosen : Slot → Bool) (d : Diagram) (i : Slot) :
    (d.turn chosen).get? i =
      (d.get? i).map fun e => if chosen i && e.role == .connector then e.turn else e := by
  simp only [get?, turn, Array.getElem?_mapIdx]
  cases d.slots[i]? with
  | none => rfl
  | some o => rfl

namespace Assembly

variable {d d₁ d' : Diagram} {a b c i j : Slot} {e e' : Element} {β : Type}
  {naming : Naming} {placements : Placements} {ports ports' found found' r : List SuperPort}
  {s t : Side}

/-! ## Elements and diagrams in step -/

/-- Two elements that differ in direction, as connectors may, or in what they stand for, as
super-ports may. -/
inductive Turns : Element → Element → Prop
  | same (e : Element) : Turns e e
  | turned {e : Element} (role : e.role = .connector) : Turns e e.turn
  | port {e e' : Element} (role : e.role.isSuperPort = true) (role' : e'.role.isSuperPort = true)
      (parent : e'.parent = e.parent) : Turns e e'

theorem Turns.symm (h : Turns e e') : Turns e' e := by
  cases h with
  | same => exact .same e
  | turned role => exact .turned (e := e.turn) role
  | port role role' parent => exact .port role' role parent.symm

theorem Turns.parent (h : Turns e e') : e'.parent = e.parent := by
  cases h with
  | same => rfl
  | turned => rfl
  | port _ _ parent => exact parent

/-- A test of roles that does not look at what super-ports stand for. -/
theorem Turns.congr_role {f : Role → β} (hf : ∀ p q, f (.superPort p) = f (.superPort q))
    (h : Turns e e') : f e'.role = f e.role := by
  cases h with
  | same => rfl
  | turned => rfl
  | port role role' _ =>
    cases hr : e.role <;> rw [hr] at role <;> try cases role
    cases hr' : e'.role <;> rw [hr'] at role' <;> try cases role'
    exact hf _ _

theorem Turns.nodeAt (h : Turns e e') (i : Slot) : nodeAt i e' = nodeAt i e := by
  cases h with
  | same => rfl
  | turned role =>
    rw [Assembly.nodeAt, Assembly.nodeAt, Element.nodeKind?, Element.nodeKind?,
      show e.turn.role = e.role from rfl, role]
    rfl
  | port role role' _ =>
    rw [Assembly.nodeAt, Assembly.nodeAt, Element.nodeKind?, Element.nodeKind?,
      Role.nodeKind?_of_isSuperPort role, Role.nodeKind?_of_isSuperPort role']
    rfl

theorem Turns.detach (h : Turns e e') (i : Slot) : Turns (e.detach i) (e'.detach i) := by
  cases h with
  | same => exact .same _
  | turned role => exact .turned (e := e.detach i) role
  | port role role' parent => exact .port role role' parent

/-- Two diagrams that differ in the direction of connectors, and in super-ports in the same
slots. -/
structure InStep (d d' : Diagram) : Prop where
  bound : d'.bound = d.bound
  slots : ∀ i, (d.get? i = none ∧ d'.get? i = none) ∨
    ∃ e e', d.get? i = some e ∧ d'.get? i = some e' ∧ Turns e e'

namespace InStep

theorem symm (h : InStep d d') : InStep d' d where
  bound := h.bound.symm
  slots i := (h.slots i).imp And.symm fun ⟨e, e', he, he', hturns⟩ => ⟨e', e, he', he, hturns.symm⟩

/-- What the two diagrams agree on element by element. -/
theorem bind {g : Element → Option β} (h : InStep d d') (hg : ∀ e e', Turns e e' → g e' = g e)
    (i : Slot) : (d'.get? i).bind g = (d.get? i).bind g := by
  obtain ⟨he, he'⟩ | ⟨e, e', he, he', hturns⟩ := h.slots i
  · rw [he, he']
  · rw [he, he']
    exact hg e e' hturns

theorem any {p : Element → Bool} (h : InStep d d') (hp : ∀ e e', Turns e e' → p e' = p e)
    (i : Slot) : (d'.get? i).any p = (d.get? i).any p := by
  obtain ⟨he, he'⟩ | ⟨e, e', he, he', hturns⟩ := h.slots i
  · rw [he, he']
  · rw [he, he']
    exact hp e e' hturns

theorem isLive (h : InStep d d') (i : Slot) : d'.isLive i = d.isLive i := by
  obtain ⟨he, he'⟩ | ⟨e, e', he, he', -⟩ := h.slots i
  · rw [Diagram.isLive, Diagram.isLive, he, he']
  · rw [Diagram.isLive, Diagram.isLive, he, he', Option.isSome_some, Option.isSome_some]

theorem live (h : InStep d d') (he : d.get? i = some e) : ∃ e', d'.get? i = some e' := by
  rw [← Diagram.isLive_iff, h.isLive]
  exact Diagram.isLive_iff.mpr ⟨e, he⟩

theorem select {p : Element → Bool} (h : InStep d d') (hp : ∀ e e', Turns e e' → p e' = p e) :
    d'.select p = d.select p := by
  rw [Diagram.select, Diagram.select, h.bound]
  exact List.filter_congr fun i _ => h.any hp i

/-! ## Containment -/

theorem climb (h : InStep d d') (fuel : Nat) (seen : List Slot) (next : Option Slot) :
    d'.climb fuel seen next = d.climb fuel seen next := by
  induction fuel generalizing seen next with
  | zero => rfl
  | succ fuel ih =>
    cases next with
    | none => rfl
    | some i =>
      rw [Diagram.climb, Diagram.climb]
      obtain ⟨he, he'⟩ | ⟨e, e', he, he', hturns⟩ := h.slots i
      · rw [he, he']
      · rw [he, he']
        simp only [hturns.parent, ih]

/-- **The search upwards finds the same**, if the test is passed in both diagrams. -/
theorem nearestAncestor {test : Slot → Element → Bool} (h : InStep d d')
    (htest : ∀ i e e', Turns e e' → test i e' = test i e) {o : Option Slot} :
    d'.nearestAncestor i test = .ok o ↔ d.nearestAncestor i test = .ok o := by
  have hline : d'.lineage i = d.lineage i := by
    rw [Diagram.lineage, Diagram.lineage, h.climb, h.bound, h.bind fun _ _ => Turns.parent]
  have hfind : ((d.lineage i).ancestors.find? fun a => (d'.get? a).any (test a)) =
      (d.lineage i).ancestors.find? fun a => (d.get? a).any (test a) :=
    congrArg (fun p => List.find? p _) (funext fun a => h.any (htest a) a)
  rw [Diagram.nearestAncestor, Diagram.nearestAncestor, hline, hfind]
  split
  · exact Iff.rfl
  split
  · rename_i first _
    have hfails : ∀ d : Diagram, d.cycleAt first ≠ (.ok o : Except Fault (Option Slot)) := by
      intro d hok
      rw [Diagram.cycleAt] at hok
      cases hfetch : d.fetch first <;> rw [hfetch] at hok <;> cases hok
    exact iff_of_false (hfails d') (hfails d)
  · exact Iff.rfl

theorem reach (h : InStep d d') (fuel : Nat) (pending seen : List Slot) :
    d'.reach fuel pending seen = d.reach fuel pending seen := by
  induction fuel generalizing pending seen with
  | zero => rfl
  | succ fuel ih =>
    cases pending with
    | nil => rfl
    | cons i pending =>
      rw [Diagram.reach, Diagram.reach, h.select fun _ _ hturns => by rw [hturns.parent]]
      exact ih _ _

theorem descendants (h : InStep d d') (i : Slot) : d'.descendants i = d.descendants i := by
  rw [Diagram.descendants, Diagram.descendants, h.isLive, h.bound, h.reach]

theorem connectorsIn (h : InStep d d') (top : Slot) :
    Assembly.connectorsIn d' top = Assembly.connectorsIn d top := by
  rw [Assembly.connectorsIn, Assembly.connectorsIn, h.descendants]
  exact List.filter_congr fun i _ =>
    h.any (fun _ _ hturns => hturns.congr_role (f := (· == .connector)) fun _ _ => rfl) i

/-! ## Connectors and their sides -/

theorem isInterface (h : InStep d d') (a : Slot) :
    Assembly.isInterface d' a = Assembly.isInterface d a :=
  h.any (fun _ _ hturns => hturns.congr_role fun _ _ => rfl) a

/-- **A connector joins the same interfaces**, in one order or the other. -/
theorem joined? (h : InStep d d') (c : Slot) : Assembly.joined? d' c = Assembly.joined? d c ∨
    Assembly.joined? d' c = (Assembly.joined? d c).map Prod.swap := by
  rw [Assembly.joined?, Assembly.joined?]
  obtain ⟨he, he'⟩ | ⟨e, e', he, he', hturns⟩ := h.slots c
  · rw [he, he']
    exact .inl rfl
  · rw [he, he']
    simp only [h.isInterface]
    cases hturns with
    | same => exact .inl rfl
    | turned role =>
      right
      rw [show e.turn.source = e.target from rfl, show e.turn.target = e.source from rfl,
        show e.turn.role = e.role from rfl]
      cases e.source with
      | none => cases e.target <;> rfl
      | some a =>
        cases e.target with
        | none => rfl
        | some b =>
          dsimp only
          rw [Bool.and_assoc, Bool.and_comm (Assembly.isInterface d b), ← Bool.and_assoc]
          split <;> rfl
    | port role role' _ =>
      have hnone : ∀ {e : Element}, e.role.isSuperPort = true → (e.role == .connector) = false := by
        intro e hport
        cases hr : e.role <;> rw [hr] at hport <;> first | rfl | cases hport
      simp only [hnone role, hnone role', Bool.false_and]
      cases e.source <;> cases e.target <;> cases e'.source <;> cases e'.target <;> exact .inl rfl

theorem joined?_eq_none_iff (h : InStep d d') :
    Assembly.joined? d' c = none ↔ Assembly.joined? d c = none := by
  obtain hsame | hswap := h.joined? c
  · rw [hsame]
  · rw [hswap, Option.map_eq_none_iff]

theorem canonical (h : InStep d d') (a : Slot) :
    Assembly.canonical d' a = Assembly.canonical d a := by
  rw [canonical_eq, canonical_eq, show d'.isLive = d.isLive from funext h.isLive,
    h.bind fun _ _ hturns => hturns.congr_role (f := Role.mark?) fun _ _ => rfl]

theorem nodesOf (h : InStep d d') (a : Slot) :
    Assembly.nodesOf d' a = Assembly.nodesOf d a := by
  rw [nodesOf_eq, nodesOf_eq]
  refine Diagram.filterMap_children_congr fun i => ?_
  rw [Diagram.pick, Diagram.pick]
  exact h.bind (fun _ _ hturns => by rw [hturns.parent, hturns.nodeAt]) i

/-- **A side is the same.** -/
theorem side (h : InStep d d') : Assembly.side d' a = .ok s ↔ Assembly.side d a = .ok s := by
  rw [side_eq_ok, side_eq_ok, h.canonical, h.nodesOf,
    h.nearestAncestor fun _ _ _ hturns => hturns.congr_role fun _ _ => rfl]

theorem record? (h : InStep d d') (s : Side) : s.record? d' = s.record? d :=
  h.bind (fun _ _ hturns => hturns.congr_role fun _ _ => rfl) s.interface

theorem superPortsOf (h : InStep d d') :
    Assembly.superPortsOf d' placements s t = Assembly.superPortsOf d placements s t := by
  rw [Assembly.superPortsOf, Assembly.superPortsOf, h.record?]

theorem locator (h : InStep d d') :
    (∃ l, s.locator d' = .ok l) ↔ ∃ l, s.locator d = .ok l := by
  simp only [Side.locator, Diagram.fetch]
  obtain ⟨he, he'⟩ | ⟨e, e', he, he', -⟩ := h.slots s.interface
  · rw [he, he']
  · rw [he, he']
    exact iff_of_true ⟨_, rfl⟩ ⟨_, rfl⟩

theorem checkCompatible (h : InStep d d') : Assembly.checkCompatible d' placements c s t = .ok () ↔
    Assembly.checkCompatible d placements c s t = .ok () := by
  simp only [checkCompatible_eq_ok, checkCount_eq_ok_iff, h.record?, h.locator]

end InStep

/-! ## Findings -/

/-- No key was seen before iff the keys are new and there is none twice. -/
theorem repeatedKey?_eq_none_iff {seen keys : List String} :
    repeatedKey? seen keys = none ↔ keys.Nodup ∧ ∀ key ∈ keys, key ∉ seen := by
  refine ⟨repeatedKey?_eq_none, ?_⟩
  rintro ⟨hnodup, hnew⟩
  induction keys generalizing seen with
  | nil => rfl
  | cons key keys ih =>
    obtain ⟨hkey, hnodup⟩ := List.nodup_cons.mp hnodup
    obtain ⟨hseen, hnew⟩ := List.forall_mem_cons.mp hnew
    rw [repeatedKey?, if_neg (by rwa [List.contains_iff_mem])]
    refine ih hnodup fun key' hmem hmem' => ?_
    rcases List.mem_cons.mp hmem' with rfl | hmem'
    · exact hkey hmem
    · exact hnew key' hmem hmem'

/-- **Two sides fit together in either order.** -/
theorem checkCompatible_comm : checkCompatible d placements c s t = .ok () ↔
    checkCompatible d placements c t s = .ok () := by
  have himp : ∀ {s t : Side}, checkCompatible d placements c s t = .ok () →
      checkCompatible d placements c t s = .ok () := by
    intro s t h
    obtain ⟨⟨hnameS, hnameT⟩, hlength, hkeys, hone, htwo, hcountS, hcountT⟩ :=
      checkCompatible_eq_ok.mp h
    obtain ⟨hnodupS, -⟩ := repeatedKey?_eq_none_iff.mp hone
    obtain ⟨hnodupT, hnew⟩ := repeatedKey?_eq_none_iff.mp htwo
    exact checkCompatible_eq_ok.mpr ⟨⟨hnameT, hnameS⟩, hlength.symm, hkeys.symm,
      repeatedKey?_eq_none_iff.mpr ⟨hnodupT, fun _ _ => List.not_mem_nil⟩,
      repeatedKey?_eq_none_iff.mpr ⟨hnodupS, fun key hmem hmem' => hnew key hmem' hmem⟩,
      hcountT, hcountS⟩
  exact ⟨himp, himp⟩

/-- What is bound along a connector: the super-ports of both of its sides, if they fit. -/
theorem bindSides_eq_ok_iff : bindSides d placements c a b = .ok found ↔ ∃ one two,
    side d a = .ok one ∧ side d b = .ok two ∧ checkCompatible d placements c one two = .ok () ∧
      found = superPortsOf d placements one two ++ superPortsOf d placements two one := by
  refine ⟨bindSides_eq_ok, ?_⟩
  rintro ⟨one, two, hone, htwo, hcheck, rfl⟩
  rw [bindSides, bind_eq_ok]
  refine ⟨one, hone, ?_⟩
  rw [bind_eq_ok]
  refine ⟨two, htwo, ?_⟩
  rw [bind_eq_ok]
  exact ⟨(), hcheck, rfl⟩

/-- **A connector binds the same from either end.** -/
theorem bindSides_comm (h : bindSides d placements c a b = .ok found) :
    ∃ found', bindSides d placements c b a = .ok found' ∧ found'.Perm found := by
  obtain ⟨one, two, hone, htwo, hcheck, rfl⟩ := bindSides_eq_ok h
  exact ⟨_, bindSides_eq_ok_iff.mpr ⟨two, one, htwo, hone, checkCompatible_comm.mp hcheck, rfl⟩,
    List.perm_append_comm⟩

namespace InStep

theorem bindSides (h : InStep d d') : Assembly.bindSides d' placements c a b = .ok found ↔
    Assembly.bindSides d placements c a b = .ok found := by
  simp only [bindSides_eq_ok_iff, h.side, h.checkCompatible, h.superPortsOf]

/-- **What is found for a connector is found in both diagrams**, in some order. -/
theorem wiresAt (h : InStep d d') (hwires : wiresAt d placements c = .ok found) :
    ∃ found', Assembly.wiresAt d' placements c = .ok found' ∧ found'.Perm found := by
  rw [Assembly.wiresAt] at hwires
  simp only [Assembly.wiresAt]
  cases hjoined : Assembly.joined? d c with
  | none =>
    rw [hjoined] at hwires
    refine ⟨[], ?_, by rw [← Except.ok.inj hwires]⟩
    rw [h.joined?_eq_none_iff.mpr hjoined]
  | some ends =>
    obtain ⟨a, b⟩ := ends
    rw [hjoined] at hwires
    obtain hsame | hswap := h.joined? c
    · rw [hsame, hjoined]
      exact ⟨found, h.bindSides.mpr hwires, .refl found⟩
    · rw [hswap, hjoined]
      obtain ⟨found', hfound', hperm⟩ := bindSides_comm hwires
      exact ⟨found', h.bindSides.mpr hfound', hperm⟩

/-! ## Discarding -/

theorem remove (h : InStep d d') (i : Slot) : InStep (d.remove i) (d'.remove i) := by
  have hremovable : (d'.removable? i).isSome = (d.removable? i).isSome := by
    rw [Diagram.removable?, Diagram.removable?]
    split
    · rfl
    · exact h.isLive i
  cases hcase : (d.removable? i).isSome with
  | false =>
    have hnone : ∀ {d : Diagram}, (d.removable? i).isSome = false → d.remove i = d := by
      intro d hd
      cases hremoved : d.removable? i with
      | none => rw [Diagram.remove, hremoved]
      | some e =>
        rw [hremoved] at hd
        cases hd
    rwa [hnone hcase, hnone (hremovable.trans hcase)]
  | true =>
    refine ⟨by rw [Diagram.bound_remove, Diagram.bound_remove, h.bound], fun j => ?_⟩
    rw [Diagram.get?_remove hcase, Diagram.get?_remove (hremovable.trans hcase)]
    split
    · exact .inl ⟨rfl, rfl⟩
    · obtain ⟨he, he'⟩ | ⟨e, e', he, he', hturns⟩ := h.slots j
      · rw [he, he']
        exact .inl ⟨rfl, rfl⟩
      · rw [he, he']
        exact .inr ⟨_, _, rfl, rfl, hturns.detach i⟩

theorem isOrphan (h : InStep d d') (i : Slot) :
    Assembly.isOrphan d' i = Assembly.isOrphan d i := by
  have hjoined : ∀ c, (Assembly.joined? d' c).isSome = (Assembly.joined? d c).isSome :=
    fun c => Option.isSome_eq_isSome.mpr h.joined?_eq_none_iff
  rw [Assembly.isOrphan, Assembly.isOrphan, h.bind fun _ _ => Turns.parent]
  simp only [hjoined]

/-- **The same super-ports are discarded**, and as many of them are orphans. -/
theorem discard (h : InStep d d') (old : List Slot) :
    (Assembly.discard old d').1 = (Assembly.discard old d).1 ∧
      InStep (Assembly.discard old d).2 (Assembly.discard old d').2 := by
  induction old generalizing d d' with
  | nil => exact ⟨rfl, h⟩
  | cons i old ih =>
    obtain ⟨horphans, hlater⟩ := ih (h.remove i)
    refine ⟨?_, hlater⟩
    show (Assembly.discard old (d'.remove i)).1 + _ = (Assembly.discard old (d.remove i)).1 + _
    rw [horphans, h.isOrphan]

theorem withoutSuperPorts (h : InStep d d') :
    InStep (Assembly.withoutSuperPorts d) (Assembly.withoutSuperPorts d') := by
  rw [Assembly.withoutSuperPorts, Assembly.withoutSuperPorts,
    h.select fun _ _ hturns => hturns.congr_role fun _ _ => rfl]
  exact (h.discard _).2

end InStep

/-! ## Drawing in step -/

theorem nodup_foldl_addNew (h : ports.Nodup) : (found.foldl addNew ports).Nodup := by
  induction found generalizing ports with
  | nil => exact h
  | cons p found ih =>
    rw [List.foldl_cons]
    refine ih ?_
    rw [addNew]
    split
    · exact h
    · rename_i hp
      rw [List.contains_iff_mem] at hp
      exact List.nodup_append'.mpr ⟨h, List.nodup_singleton p, List.disjoint_singleton.mpr hp⟩

/-- A list grows by the same, whatever the order. -/
theorem foldl_addNew_perm (hports : ports'.Perm ports) (hnodup : ports.Nodup)
    (hfound : found'.Perm found) : (found'.foldl addNew ports').Perm (found.foldl addNew ports) := by
  refine (List.perm_ext_iff_of_nodup (nodup_foldl_addNew (hports.nodup_iff.mpr hnodup))
    (nodup_foldl_addNew hnodup)).mpr fun p => ?_
  rw [mem_foldl_addNew, mem_foldl_addNew, hports.mem_iff, hfound.mem_iff]

/-- As many super-ports drawn at the same connector. -/
theorem InStep.adds {new new' : List SuperPort} {d₁' : Diagram} (h : InStep d d')
    (hadds : Adds d d₁ (new.map fun p => (p, c))) (hadds' : Adds d' d₁' (new'.map fun p => (p, c)))
    (hlength : new'.length = new.length) : InStep d₁ d₁' := by
  have hbound : d₁'.bound = d₁.bound := by
    rw [hadds.bound, hadds'.bound, h.bound, List.length_map, List.length_map, hlength]
  refine ⟨hbound, fun j => ?_⟩
  by_cases hj : j < d.bound
  · rw [hadds.same j hj, hadds'.same j (h.bound ▸ hj)]
    exact h.slots j
  by_cases hj₁ : j < d₁.bound
  · obtain ⟨k, rfl⟩ := Nat.exists_eq_add_of_le (Nat.le_of_not_lt hj)
    rw [hadds.bound, List.length_map] at hj₁
    have hk : k < new.length := Nat.lt_of_add_lt_add_left hj₁
    obtain ⟨id, hget⟩ := hadds.new k new[k] c (by rw [List.getElem?_map, List.getElem?_eq_getElem hk]; rfl)
    have hk' : k < new'.length := hlength ▸ hk
    obtain ⟨id', hget'⟩ := hadds'.new k new'[k] c
      (by rw [List.getElem?_map, List.getElem?_eq_getElem hk']; rfl)
    rw [h.bound] at hget'
    exact .inr ⟨_, _, hget, hget', .port rfl rfl rfl⟩
  · exact .inl ⟨Diagram.get?_of_bound_le (Nat.le_of_not_lt hj₁),
      Diagram.get?_of_bound_le (hbound ▸ Nat.le_of_not_lt hj₁)⟩

/-- **What is found in another order is drawn in another order**, and by any naming. -/
theorem InStep.drawNew (h : InStep d d') (hc : d.get? c = some e) (hports : ports'.Perm ports)
    (hnodup : ports.Nodup) (hfound : found'.Perm found)
    (hrun : Edit.Runs (drawNew naming c ports found) d (found.foldl addNew ports) d₁)
    (other : Naming) : ∃ d₁',
      Edit.Runs (Assembly.drawNew other c ports' found') d' (found'.foldl addNew ports') d₁' ∧
      (found'.foldl addNew ports').Perm (found.foldl addNew ports) ∧
      (found.foldl addNew ports).Nodup ∧ InStep d₁ d₁' := by
  obtain ⟨e', he'⟩ := h.live hc
  obtain ⟨d₁', hrun'⟩ := exists_drawNew other he' ports' found'
  obtain ⟨new, hadds, hnew, -⟩ := drawNew_draws hrun
  obtain ⟨new', hadds', hnew', -⟩ := drawNew_draws hrun'
  have hperm := foldl_addNew_perm hports hnodup hfound
  refine ⟨d₁', hrun', hperm, nodup_foldl_addNew hnodup, h.adds hadds hadds' ?_⟩
  have hlength := hperm.length_eq
  rw [hnew, hnew', List.length_append, List.length_append, hports.length_eq] at hlength
  exact Nat.add_left_cancel hlength

/-- **Stitching along the connectors goes on in step.** -/
theorem InStep.stitchAll {connectors : List Slot} (h : InStep d d') (hports : ports'.Perm ports)
    (hnodup : ports.Nodup) (hrun : Edit.Runs (stitchAll naming placements ports connectors) d r d₁)
    (other : Naming) : r.Nodup ∧ ∃ r' d₁',
      Edit.Runs (Assembly.stitchAll other placements ports' connectors) d' r' d₁' ∧ r'.Perm r := by
  induction connectors generalizing d d' ports ports' with
  | nil =>
    rw [Assembly.stitchAll] at hrun
    obtain ⟨rfl, rfl⟩ := Edit.runs_pure.mp hrun
    exact ⟨hnodup, ports', d', Edit.runs_pure.mpr ⟨rfl, rfl⟩, hports⟩
  | cons c connectors ih =>
    obtain ⟨⟨e, he⟩, found, d₂, hwires, hdraw, hrun⟩ := stitchAll_cons_runs_iff.mp hrun
    -- Both diagrams have the same to find, and so as many new super-ports.
    obtain ⟨found', hwires', hfound⟩ := h.wiresAt hwires
    obtain ⟨d₂', hdraw', hperm, hnodup₁, hstep⟩ := h.drawNew he hports hnodup hfound hdraw other
    obtain ⟨hr, r', d₁', hrun', hr'⟩ := ih hstep hperm hnodup₁ hrun
    exact ⟨hr, r', d₁', stitchAll_cons_runs_iff.mpr
      ⟨h.live he, found', d₂', hwires', hdraw', hrun'⟩, hr'⟩

/-! ## The whole of stitching -/

/-- What stitching counts is counted before anything is drawn. -/
theorem counts_of_stitch {top : Slot} {stitching : Stitching}
    (h : Edit.Runs (stitch naming placements top) d stitching d') :
    stitching.orphaned = (discard (d.select fun e => e.role.isSuperPort) d).1 ∧
      stitching.discarded = (d.select fun e => e.role.isSuperPort).length := by
  rw [stitch, Edit.runs_read_bind] at h
  rw [Edit.runs_read_bind, Edit.runs_bind] at h
  obtain ⟨orphaned, d₂, hdiscard, h⟩ := h
  rw [Edit.runs_change, Except.ok.injEq] at hdiscard
  have horphaned := congrArg Prod.fst hdiscard
  split at h
  · rw [Edit.runs_warn_bind, Edit.runs_bind] at h
    obtain ⟨ports, _, -, h⟩ := h
    obtain ⟨rfl, -⟩ := Edit.runs_pure.mp h
    exact ⟨horphaned.symm, rfl⟩
  · rw [Edit.runs_bind] at h
    obtain ⟨ports, _, -, h⟩ := h
    obtain ⟨rfl, -⟩ := Edit.runs_pure.mp h
    exact ⟨horphaned.symm, rfl⟩

/-- Two outcomes of stitching that differ in the order of the super-ports only. -/
structure SameStitching (one two : Stitching) : Prop where
  nodup : one.superPorts.Nodup
  superPorts : two.superPorts.Perm one.superPorts
  orphaned : two.orphaned = one.orphaned
  discarded : two.discarded = one.discarded

/-- **Diagrams in step are stitched in step.** -/
theorem InStep.stitch {top : Slot} {one : Stitching} (h : InStep d d')
    (hrun : Edit.Runs (stitch naming placements top) d one d₁) (other : Naming) :
    ∃ two d₁', Edit.Runs (Assembly.stitch other placements top) d' two d₁' ∧ SameStitching one two := by
  have hcleared := h.withoutSuperPorts
  have hstitch := stitch_runs_iff.mp ⟨one, hrun, rfl⟩
  obtain ⟨hnodup, ports, d₁', hstitch', hperm⟩ :=
    hcleared.stitchAll .nil List.nodup_nil hstitch other
  rw [← h.connectorsIn] at hstitch'
  obtain ⟨two, hrun', rfl⟩ := stitch_runs_iff.mpr hstitch'
  obtain ⟨horphaned, hdiscarded⟩ := counts_of_stitch hrun
  obtain ⟨horphaned', hdiscarded'⟩ := counts_of_stitch hrun'
  have hold := h.select (p := fun e => e.role.isSuperPort) fun _ _ hturns =>
    hturns.congr_role fun _ _ => rfl
  refine ⟨two, d₁', hrun', hnodup, hperm, ?_, ?_⟩
  · rw [horphaned, horphaned', hold, (h.discard _).1]
  · rw [hdiscarded, hdiscarded', hold]

/-- A diagram is in step with itself turned. -/
theorem inStep_turn (chosen : Slot → Bool) (d : Diagram) : InStep d (d.turn chosen) := by
  refine ⟨by simp [Diagram.bound, Diagram.turn], fun i => ?_⟩
  rw [Diagram.get?_turn]
  cases d.get? i with
  | none => exact .inl ⟨rfl, rfl⟩
  | some e =>
    refine .inr ⟨e, _, rfl, rfl, ?_⟩
    dsimp only
    split
    · rename_i hchosen
      rw [Bool.and_eq_true, beq_iff_eq] at hchosen
      exact .turned hchosen.2
    · exact .same e

/-- **Turning connectors round changes nothing but orders.** With the ends exchanged of any
of the connectors, and whatever the new super-ports are called, stitching fails if it failed,
and succeeds if it succeeded, with the same super-ports, none of them twice, and with the
same counts. -/
theorem stitch_turn (chosen : Slot → Bool) (d : Diagram) (placements : Placements) (top : Slot)
    (naming other : Naming) :
    (∃ f f' d₁ d₁', Edit.Fails (stitch naming placements top) d f d₁ ∧
      Edit.Fails (stitch other placements top) (d.turn chosen) f' d₁') ∨
    ∃ one two d₁ d₁', Edit.Runs (stitch naming placements top) d one d₁ ∧
      Edit.Runs (stitch other placements top) (d.turn chosen) two d₁' ∧ SameStitching one two := by
  have hstep := inStep_turn chosen d
  obtain ⟨one, d₁, hrun⟩ | ⟨f, d₁, hfails⟩ := Edit.runs_or_fails (stitch naming placements top) d
  · obtain ⟨two, d₁', hrun', hsame⟩ := hstep.stitch hrun other
    exact .inr ⟨one, two, d₁, d₁', hrun, hrun', hsame⟩
  obtain ⟨two, d₁', hrun'⟩ | ⟨f', d₁', hfails'⟩ :=
    Edit.runs_or_fails (stitch other placements top) (d.turn chosen)
  · obtain ⟨one, d₂, hrun, -⟩ := hstep.symm.stitch hrun' naming
    exact absurd hfails hrun.not_fails
  · exact .inl ⟨f, f', d₁, d₁', hfails, hfails'⟩

end Assembly

end Netlist
