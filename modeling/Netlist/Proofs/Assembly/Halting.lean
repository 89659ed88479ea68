import Netlist.Proofs.Assembly.Failing
import Netlist.Proofs.Assembly.Landing

/-!
# Assemblies of any diagram

Where parents are slots that were not issued, more may be in an instance after its turn than
was put there. What was put there is still told by its slots: the copies of a refreshed
instance are in new slots, and content that is kept stays in its slots. This survives the
turns of other instances and stitching, whatever the parents are.

- `HasTurned`: an instance after its turn, whose fields say where its content was moved, as far
  as a word can hold that.
- `hasTurned_of_place`: **a turn brings this about in any diagram.**
- `HasTurned.before`, `HasTurned.after`, `HasTurned.stitched`: it stays so.
- `hasTurned_of_placeAll`: **after all turns all instances have turned**, and those that
  wait are as they were drawn, but for marks.
- `assemble_halts`: **whenever an assembly is over, the instances that had their turns have
  turned**, and a turn that failed changed nothing.
-/

namespace Netlist.Assembly

variable {x : Context} {d d₁ d₂ d' : Diagram} {m : Import} {s c o t : Slot} {p : Placed}
  {e e' : Element} {offset : Nat} {delta : Int} {way : Slot → Prop} {instances later : List Slot}

/-! ## Content by its slots -/

/-- The copies of a drawing are in new slots, and their numbers landed. One is missing only if
it had an end that was not copied, or is a super-port. -/
structure HasCopies (m : Import) (s : Slot) (offset : Nat) (d d' : Diagram) : Prop where
  slots : ∀ o c, (o, c) ∈ m.copies → d.bound ≤ c ∧ c < d'.bound
  alike : ∀ o c e, (o, c) ∈ m.copies → d'.core? c = some e → IsCopy m s offset d' o c
  lands : ∀ o c drawn e, (o, c) ∈ m.copies → m.diagram.get? o = some drawn →
    d'.core? c = some e → Lands offset 0 drawn e
  made : ∀ o c drawn, (o, c) ∈ m.copies → m.diagram.get? o = some drawn →
    isBroken m.copies drawn = false → drawn.role.isSuperPort = false → ∃ e, d'.core? c = some e

/-- An instance after its turn: `d` is the diagram before all turns. Its fields have the
offset that its content was moved to, in words, and the number of nodes that was used for it. -/
structure HasTurned (x : Context) (p : Placed) (d d' : Diagram) : Prop where
  here : ∃ e e', d.core? p.slot = some e ∧ d'.core? p.slot = some e' ∧
    e'.role.unmarked = e.role.unmarked ∧ Written e' p.subnet.offset p.subnet.nodeCount ∧
    ReadsBack e' p.subnet.offset p.subnet.nodeCount
  copied : p.wasRefreshed = true → ∃ m, Imports x p.subnet m ∧
    HasCopies m p.slot p.subnet.offset d d'
  kept : p.wasRefreshed = false → ∃ e start recorded, d.core? p.slot = some e ∧
    integerField e offsetField = .ok start ∧ recordedCount e = .ok recorded ∧
    p.subnet.nodeCount = recorded.getD (nodesIn d p.slot) ∧
    ∀ c e, d.Inside c p.slot → d.core? c = some e → e.role.isSuperPort = false →
      ∃ e', d'.core? c = some e' ∧ MovedBy (displacement p.subnet.offset (start.getD 0)) e e' ∧
        Lands p.subnet.offset (start.getD 0) e e'

/-- Copies land as soon as they are alike. -/
theorem hasCopies_of_alike (hslots : ∀ o c, (o, c) ∈ m.copies → d.bound ≤ c ∧ c < d'.bound)
    (halike : ∀ o c e, (o, c) ∈ m.copies → d'.core? c = some e → IsCopy m s offset d' o c)
    (hmade : ∀ o c drawn, (o, c) ∈ m.copies → m.diagram.get? o = some drawn →
      isBroken m.copies drawn = false → drawn.role.isSuperPort = false → ∃ e, d'.core? c = some e) :
    HasCopies m s offset d d' where
  slots := hslots
  alike := halike
  lands := by
    intro o c drawn e hmem hdrawn he
    obtain ⟨drawn', e', hdrawn', he', hmirrors, -⟩ := (halike o c e hmem he).alike
    obtain rfl : drawn = drawn' := Option.some.inj (hdrawn.symm.trans hdrawn')
    obtain rfl : e = e' := Option.some.inj (he.symm.trans he')
    exact hmirrors.lands
  made := hmade

/-! ## Marks make no difference -/

theorem IsCopy.persists (h : IsCopy m s offset d o c) (hp : Persists d d' c) :
    IsCopy m s offset d' o c := by
  obtain ⟨drawn, e, hdrawn, he, hmirrors, hrole⟩ := h.alike
  obtain ⟨first, he'⟩ := hp.exists_tag he
  refine ⟨h.pair, drawn, tag first e, hdrawn, he', ⟨?_, ?_, ?_⟩, ?_⟩
  · rw [label_tag, hmirrors.label]
  · rw [fields_tag, hmirrors.fields]
  · rw [parent_tag, hmirrors.parent]
  · cases first with
    | none => exact hrole
    | some first =>
      refine .inr ⟨first, ?_⟩
      show e.role.setDuplicateOf first = _
      rcases hrole with hrole | ⟨old, hrole⟩
      · rw [hrole]
      · rw [hrole, Role.setDuplicateOf_setDuplicateOf]

theorem label_shift_tag (delta : Int) (first : Option Slot) (e : Element) :
    (shift delta (tag first e)).label = (shift delta e).label := by
  cases first with
  | none => rfl
  | some first =>
    rw [shift_eq, shift_eq]
    show movedLabel delta (e.role.setDuplicateOf first) e.label = movedLabel delta e.role e.label
    cases e.role <;> rfl

/-- A moved element may be marked later. -/
theorem MovedBy.tag (h : MovedBy delta e e') (first : Option Slot) : MovedBy delta e (tag first e') where
  id := (id_tag first e').trans h.id
  fields := (fields_tag first e').trans h.fields
  parent := (parent_tag first e').trans h.parent
  role := (unmarked_tag first e').trans h.role
  label := (label_tag first e').trans h.label

/-- A moved element may have been marked before. -/
theorem MovedBy.of_tag {first : Option Slot} (h : MovedBy delta (Assembly.tag first e) e') :
    MovedBy delta e e' where
  id := h.id.trans (id_tag first e)
  fields := h.fields.trans (fields_tag first e)
  parent := h.parent.trans (parent_tag first e)
  role := h.role.trans (unmarked_tag first e)
  label := by rw [h.label, label_tag, label_shift_tag]

/-- A place that is written stays written when the element is marked. -/
theorem Written.tag {nodeCount : Nat} (h : Written e offset nodeCount) (first : Option Slot) :
    Written (tag first e) offset nodeCount where
  offset := (congrArg (Fields.get? · offsetField) (fields_tag first e)).trans h.offset
  nodeCount :=
    (congrArg (Fields.get? · Connections.nodeCountField) (fields_tag first e)).trans h.nodeCount

/-! ## One turn -/

/-- **The copies of a refresh are there at the end of the turn.** -/
theorem Refreshes.hasCopies (h : Refreshes m s offset d d₁) (hs : s < d.bound) (nodeCount : Nat) :
    HasCopies m s offset d (finished s offset nodeCount d₁) := by
  have hpersists : ∀ {o c}, (o, c) ∈ m.copies →
      Persists d₁ (finished s offset nodeCount d₁) c := fun hmem =>
    persists_finished offset nodeCount d₁ (Nat.ne_of_gt (Nat.lt_of_lt_of_le hs (h.slots _ _ hmem).1))
  apply hasCopies_of_alike
  case hslots =>
    intro o c hmem
    rw [bound_finished]
    exact h.slots o c hmem
  case halike =>
    intro o c e' hmem he'
    obtain ⟨e, -, he, -⟩ := (hpersists hmem).back he'
    obtain ⟨drawn, hdrawn, hmirrors, hrole⟩ := h.copied o c e hmem he
    exact IsCopy.persists ⟨hmem, drawn, e, hdrawn, he, hmirrors, .inl hrole⟩ (hpersists hmem)
  case hmade =>
    intro o c drawn hmem hdrawn hwhole _
    obtain ⟨e, he⟩ := h.made o c drawn hmem hdrawn hwhole
    obtain ⟨first, he'⟩ := (hpersists hmem).exists_tag he
    exact ⟨_, he'⟩

/-- **After its turn an instance has turned**, whatever the parents are. -/
theorem hasTurned_of_place (hs : s < d.bound) (hloop : ¬ d.Inside s s)
    (h : Edit.Runs (place x s offset) d p d') : HasTurned x p d d' := by
  obtain ⟨e, wasRefreshed, done, d₁, d₂, he, hsettle, rfl, rfl, rfl⟩ := place_runs_iff.mp h
  obtain ⟨-, hself⟩ := settle_turn hs hloop hsettle
  obtain ⟨e', he', hrole, hwritten⟩ := written_finished he hself
  refine ⟨⟨e.core, e', Diagram.core?_of_get? he, he', hrole, hwritten, hwritten.readsBack⟩,
    fun hwas => ?_, fun hwas => ?_⟩
  · obtain ⟨-, m, hrefreshes, himports⟩ | ⟨hkept, -⟩ := settle_cases hs hsettle
    · exact ⟨m, himports _ rfl rfl, hrefreshes.hasCopies hs done.nodeCount⟩
    · cases hwas.symm.trans hkept
  · obtain ⟨hrefreshed, -⟩ | ⟨-, e₀, start, recorded, he₀, hstart, hrecorded, hcount, rfl⟩ :=
      settle_cases hs hsettle
    · cases hwas.symm.trans hrefreshed
    · refine ⟨e₀.core, start, recorded, Diagram.core?_of_get? he₀,
        (integerField_core e₀ offsetField).trans hstart, (recordedCount_core e₀).trans hrecorded,
        hcount, fun c e hin hc _ => ?_⟩
      obtain ⟨e', he', hmoved⟩ := exists_finished_moved ⟨_, he⟩ hloop hin hc
      exact ⟨e', he', hmoved, hmoved.lands⟩

/-! ## Other turns and stitching -/

/-- **An instance has turned as seen from before the turns of others.** -/
theorem HasTurned.before (h : HasTurned x p d₁ d') (hbound : d.bound ≤ d₁.bound)
    (halike : AlikeWithin p.slot d d₁) : HasTurned x p d d' where
  here := by
    obtain ⟨e₁, e', he₁, he', hrole, hwritten⟩ := h.here
    obtain ⟨e, first, he, rfl⟩ := (halike.persists p.slot (.inl rfl)).back he₁
    exact ⟨e, e', he, he', hrole.trans (unmarked_tag first e), hwritten⟩
  copied := by
    intro hwas
    obtain ⟨m, himports, hcopies⟩ := h.copied hwas
    refine ⟨m, himports, hasCopies_of_alike (fun o c hmem => ?_) hcopies.alike hcopies.made⟩
    exact ⟨Nat.le_trans hbound (hcopies.slots o c hmem).1, (hcopies.slots o c hmem).2⟩
  kept := by
    intro hwas
    obtain ⟨e₁, start, recorded, he₁, hstart, hrecorded, hcount, hmoved⟩ := h.kept hwas
    obtain ⟨e, first, he, rfl⟩ := (halike.persists p.slot (.inl rfl)).back he₁
    refine ⟨e, start, recorded, he, (integerField_tag first e offsetField).symm.trans hstart,
      (recordedCount_tag first e).symm.trans hrecorded, halike.nodesIn ▸ hcount,
      fun c e hin hc hport => ?_⟩
    obtain ⟨first, hc₁⟩ := (halike.persists c (.inr hin)).exists_tag hc
    obtain ⟨e', he', hmoved, -⟩ := hmoved c _ ((halike.inside c).mpr hin) hc₁
      ((Role.congr_of_unmarked Role.isSuperPort_unmarked (unmarked_tag first e)).trans hport)
    exact ⟨e', he', hmoved.of_tag, hmoved.of_tag.lands⟩

/-- **An instance has turned still after the turns of others**: these do not touch what is on
the way up from it. -/
theorem HasTurned.after (h : HasTurned x p d d₁) (hbound : d₁.bound ≤ d'.bound)
    (hway : ∀ j < d₁.bound, wayAfter way p.slot d j → Persists d₁ d' j) : HasTurned x p d d' where
  here := by
    obtain ⟨e, e₁, he, he₁, hrole, hwritten, -⟩ := h.here
    obtain ⟨first, he'⟩ :=
      (hway p.slot (Diagram.lt_bound_of_core? he₁) (.inr (.inl rfl))).exists_tag he₁
    have hwritten' := hwritten.tag first
    exact ⟨e, _, he, he', (unmarked_tag first e₁).trans hrole, hwritten', hwritten'.readsBack⟩
  copied := by
    intro hwas
    obtain ⟨m, himports, hcopies⟩ := h.copied hwas
    -- Copies are in new slots, and these are on the way up for later turns.
    have hpersists : ∀ {o c}, (o, c) ∈ m.copies → Persists d₁ d' c := fun hmem =>
      hway _ (hcopies.slots _ _ hmem).2 (.inr (.inr (.inr (hcopies.slots _ _ hmem).1)))
    refine ⟨m, himports, hasCopies_of_alike (fun o c hmem => ?_) (fun o c e' hmem he' => ?_)
      fun o c drawn hmem hdrawn hwhole hport => ?_⟩
    · exact ⟨(hcopies.slots o c hmem).1, Nat.lt_of_lt_of_le (hcopies.slots o c hmem).2 hbound⟩
    · obtain ⟨e, -, he, -⟩ := (hpersists hmem).back he'
      exact (hcopies.alike o c e hmem he).persists (hpersists hmem)
    · obtain ⟨e, he⟩ := hcopies.made o c drawn hmem hdrawn hwhole hport
      exact ((hpersists hmem).exists_tag he).imp' _ fun _ he' => he'
  kept := by
    intro hwas
    obtain ⟨e, start, recorded, he, hstart, hrecorded, hcount, hmoved⟩ := h.kept hwas
    refine ⟨e, start, recorded, he, hstart, hrecorded, hcount, fun c e hin hc hport => ?_⟩
    obtain ⟨e₁, he₁, hmoved, -⟩ := hmoved c e hin hc hport
    obtain ⟨first, he'⟩ :=
      (hway c (Diagram.lt_bound_of_core? he₁) (.inr (.inr (.inl hin)))).exists_tag he₁
    exact ⟨_, he', hmoved.tag first, (hmoved.tag first).lands⟩

/-- **An instance has turned still when super-ports are redrawn.** -/
theorem HasTurned.stitched (h : HasTurned x p d d₁) (hdiscards : Discards d₁ d₂)
    (hdraws : Draws d₂ d')
    (hplain : ∀ e, d.core? p.slot = some e → e.role.isSuperPort = false) : HasTurned x p d d' where
  here := by
    obtain ⟨e, e', he, he', hrole, hwritten⟩ := h.here
    have hport := Role.congr_of_unmarked Role.isSuperPort_unmarked hrole
    exact ⟨e, e', he, hdiscards.survives hdraws he' (hport.trans (hplain e he)), hrole, hwritten⟩
  copied := by
    intro hwas
    obtain ⟨m, himports, hcopies⟩ := h.copied hwas
    refine ⟨m, himports, hasCopies_of_alike (fun o c hmem => ?_) (fun o c e hmem he => ?_)
      fun o c drawn hmem hdrawn hwhole hport => ?_⟩
    · have hbound : d₁.bound ≤ d'.bound := hdiscards.bound ▸ hdraws.grows.bound
      exact ⟨(hcopies.slots o c hmem).1, Nat.lt_of_lt_of_le (hcopies.slots o c hmem).2 hbound⟩
    · have he₁ := hdiscards.below hdraws (hcopies.slots o c hmem).2 he
      exact (hcopies.alike o c e hmem he₁).congr (he.trans he₁.symm)
    · obtain ⟨e, he⟩ := hcopies.made o c drawn hmem hdrawn hwhole hport
      obtain ⟨drawn', e₀, hdrawn', he₀, -, hrole⟩ := (hcopies.alike o c e hmem he).alike
      obtain rfl : drawn = drawn' := Option.some.inj (hdrawn.symm.trans hdrawn')
      obtain rfl : e = e₀ := Option.some.inj (he.symm.trans he₀)
      refine ⟨e, hdiscards.survives hdraws he ?_⟩
      rcases hrole with hrole | ⟨first, hrole⟩
      · rw [hrole, hport]
      · rw [hrole]
        exact (Role.congr_of_unmarked Role.isSuperPort_unmarked
          (Role.unmarked_setDuplicateOf first drawn.role)).trans hport
  kept := by
    intro hwas
    obtain ⟨e, start, recorded, he, hstart, hrecorded, hcount, hmoved⟩ := h.kept hwas
    refine ⟨e, start, recorded, he, hstart, hrecorded, hcount, fun c e hin hc hport => ?_⟩
    obtain ⟨e', he', hmoved, hlands⟩ := hmoved c e hin hc hport
    exact ⟨e', hdiscards.survives hdraws he' (hmoved.isSuperPort.trans hport), hmoved, hlands⟩

/-! ## All turns -/

/-- **After all turns all instances have turned**, and those that wait for later turns are as
they were, but for marks. -/
theorem hasTurned_of_placeAll {placed : List Placed}
    (hway : Clearway way (instances ++ later) d) (hnodup : (instances ++ later).Nodup)
    (hlive : ∀ t ∈ instances ++ later, t < d.bound)
    (h : Edit.Runs (placeAll x offset instances) d placed d') :
    (∀ p ∈ placed, HasTurned x p d d') ∧ d.bound ≤ d'.bound ∧
      (∀ j < d.bound, way j → Persists d d' j) ∧ ∀ t ∈ later, AlikeWithin t d d' := by
  induction instances generalizing d offset placed way with
  | nil =>
    obtain ⟨rfl, rfl⟩ := Edit.runs_pure.mp h
    exact ⟨fun _ hp => (List.not_mem_nil hp).elim, Nat.le_refl _,
      fun j _ _ => persists_of_core? rfl, fun t _ => .refl t d⟩
  | cons s instances ih =>
    obtain ⟨p, placed, d₁, rfl, hplace, hrest⟩ := placeAll_runs_cons.mp h
    have hs : s ∈ s :: instances ++ later := List.mem_cons_self
    have hloop := hway.flat s hs s hs
    have hpass := passage_of_place (hlive s hs) hloop hplace
    obtain ⟨hnot, hnodup⟩ := List.nodup_cons.mp hnodup
    -- The turn of `s` leaves those that wait as they were, but for marks.
    have hothers : ∀ t ∈ instances ++ later, t < d.bound ∧ AlikeWithin t d d₁ := by
      intro t ht
      have ht' : t ∈ s :: instances ++ later := List.mem_cons_of_mem s ht
      exact ⟨hlive t ht', hway.alikeWithin hs ht' (ne_of_mem_of_not_mem ht hnot) (hlive t ht') hpass⟩
    obtain ⟨hall, hbound, hpersists, hlater⟩ := ih
      (hway.passage hnot (fun t ht => (hothers t ht).1) hpass) hnodup
      (fun t ht => Nat.lt_of_lt_of_le (hothers t ht).1 hpass.bound) hrest
    obtain rfl : p.slot = s := slot_of_place hplace
    refine ⟨List.forall_mem_cons.mpr ⟨?_, fun q hq => ?_⟩, Nat.le_trans hpass.bound hbound,
      fun j hj hon => ?_, fun t ht => ?_⟩
    · exact (hasTurned_of_place (hlive _ hs) hloop hplace).after hbound hpersists
    · have hslot : q.slot ∈ instances := slots_of_placeAll hrest ▸ List.mem_map_of_mem hq
      exact (hall q hq).before hpass.bound (hothers _ (List.mem_append_left later hslot)).2
    · exact (hway.persists hs hpass hj hon).trans
        (hpersists j (Nat.lt_of_lt_of_le hj hpass.bound) (.inl hon))
    · exact (hothers t (List.mem_append_right instances ht)).2.trans (hlater t ht)

/-! ## The whole assembly -/

/-- **Whenever an assembly is over, the instances that had their turns have turned**: their
fields say where their content was moved, if it landed, and what was counted for it. A turn
that fails leaves the diagram that it began with, and in that diagram its instance and those
after it are as they were drawn, but for marks. Nothing is assumed of the parents. -/
theorem assemble_halts (d : Diagram) (hshelf : Identified x.shelf) :
    ∃ (placed : List Placed) (dₖ : Diagram),
      Edit.Runs (placeAll x 0 (placed.map Placed.slot)) d placed dₖ ∧
      (∀ p ∈ placed, HasTurned x p d ((assemble x).run d).diagram) ∧
      ((placed = [] ∧ (¬ ∃ top instances, Found d top instances) ∧
          ∃ f, Edit.Fails (assemble x) d f d) ∨
        ∃ top instances, Found d top instances ∧
          ((∃ s rest f, instances = placed.map Placed.slot ++ s :: rest ∧
              Edit.Fails (assemble x) d f dₖ ∧
              Edit.Fails (place x s (Word.count (total placed))) dₖ f dₖ ∧
              ∀ t ∈ s :: rest, AlikeWithin t d dₖ) ∨
            (instances = placed.map Placed.slot ∧
              ∃ d₂, Discards dₖ d₂ ∧ Draws d₂ ((assemble x).run d).diagram))) := by
  obtain ⟨⟨f, h⟩, hnone⟩ | ⟨top, placed, later, dₖ, hfound, hplace, h⟩ :=
    assemble_turns d hshelf
  · exact ⟨[], d, Edit.runs_pure.mpr ⟨rfl, rfl⟩, fun _ hp => (List.not_mem_nil hp).elim,
      .inl ⟨rfl, hnone, f, h⟩⟩
  obtain ⟨hflat, hnodup, hlive⟩ := flat_of_findInstances hfound.valid hfound.instances
  obtain ⟨hall, -, -, hlater⟩ :=
    hasTurned_of_placeAll (clearway_of_flat hflat) hnodup hlive hplace
  refine ⟨placed, dₖ, hplace, ?_⟩
  obtain ⟨s, rest, f, rfl, h, hturn⟩ | ⟨rfl, h⟩ := h
  · exact ⟨fun p hp => h.2.symm ▸ hall p hp,
      .inr ⟨top, _, hfound, .inl ⟨s, rest, f, rfl, h, hturn, hlater⟩⟩⟩
  · obtain ⟨d₂, hdiscards, hdraws⟩ := stitch_leaves x.naming (placed.map Placed.placement) top dₖ
    rw [← h] at hdraws
    refine ⟨fun p hp => (hall p hp).stitched hdiscards hdraws fun e he => ?_,
      .inr ⟨top, _, hfound, .inr ⟨List.append_nil _, d₂, hdiscards, hdraws⟩⟩⟩
    exact plain_of_findInstances hfound.instances
      (List.mem_append_left [] (List.mem_map_of_mem hp)) he

/-- The drawing of the second instance is a super-network itself. -/
def nestedContext : Context :=
  { laneContext with shelf := fun name => .ok (if name = "well" then some ⟨lane, ""⟩ else none) }

/-- The first instance has turned, and the second one is as it was drawn. -/
theorem assemble_halts_lane : ∃ f dₖ, Edit.Fails (assemble nestedContext) lane f dₖ ∧
    Edit.Fails (place nestedContext 4 2) dₖ f dₖ ∧
    HasTurned nestedContext ⟨2, ⟨"K", none, 0, 2⟩, false, 0, 0⟩ lane dₖ ∧ AlikeWithin 4 lane dₖ := by
  have hshelf : Identified nestedContext.shelf := by
    intro name drawing h
    rw [nestedContext, Except.ok.injEq] at h
    split at h
    · cases h
      decide
    · cases h
  have hsuper : findSuperNetwork lane = .ok 1 := by cbv
  have hinstances : findInstances lane 1 = .ok [2, 4] := by cbv
  have hfirst : ((placeAll nestedContext 0 [2]).run lane).result.toOption =
      some [⟨2, ⟨"K", none, 0, 2⟩, false, 0, 0⟩] := by cbv
  have hboth : ((placeAll nestedContext 0 [2, 4]).run lane).result.toOption = none := by cbv
  obtain ⟨placed, dₖ, hplace, hall, hend⟩ :=
    assemble_halts lane hshelf
  obtain ⟨-, hnone, -⟩ | ⟨top, instances, hfound, hend⟩ := hend
  · exact absurd ⟨1, [2, 4], ⟨by cbv, hsuper, hinstances⟩⟩ hnone
  obtain rfl : 1 = top := Except.ok.inj (hsuper.symm.trans hfound.super)
  obtain rfl : [2, 4] = instances := Except.ok.inj (hinstances.symm.trans hfound.instances)
  obtain ⟨s, rest, f, hslots, hfails, hturn, hrest⟩ | ⟨hslots, -⟩ := hend
  · rcases placed with - | ⟨p, - | ⟨q, placed⟩⟩
    case nil =>
      -- The first turn succeeds.
      obtain rfl : 2 = s := List.head_eq_of_cons_eq hslots
      obtain ⟨-, rfl⟩ := Edit.runs_pure.mp hplace
      obtain ⟨_, _, _, _, hone, -⟩ :=
        placeAll_runs_cons.mp ⟨toOption_eq_some.mp hfirst, rfl⟩
      exact absurd hturn hone.not_fails
    case cons.nil =>
      obtain ⟨hp, hs, -⟩ : p.slot = 2 ∧ s = 4 ∧ rest = [] := by
        simpa [eq_comm] using hslots
      subst hs
      rw [List.map_singleton, hp] at hplace
      obtain rfl : ⟨2, ⟨"K", none, 0, 2⟩, false, 0, 0⟩ = p := List.head_eq_of_cons_eq
        (Except.ok.inj ((toOption_eq_some.mp hfirst).symm.trans hplace.1))
      rw [hfails.2] at hall
      exact ⟨f, dₖ, hfails, hturn, hall _ List.mem_cons_self, hrest 4 List.mem_cons_self⟩
    case cons.cons =>
      simp at hslots
  · rw [← hslots] at hplace
    rw [toOption_eq_some.mpr hplace.1] at hboth
    cases hboth

/-- Two instances record as many nodes as a word with a sign can count, and a third one holds
the node `5`. -/
def brim : Diagram :=
  diagramOf
    [{ id := "root", role := .root },
      { id := "all", role := .network .super, label := "Town", parent := some 0 },
      { id := "a", role := .network .sub, label := "A", parent := some 1,
        fields := Fields.ofList [(Connections.nodeCountField, "9223372036854775807")] },
      { id := "b", role := .network .sub, label := "B", parent := some 1,
        fields := Fields.ofList [(Connections.nodeCountField, "9223372036854775807")] },
      { id := "c", role := .network .sub, label := "C", parent := some 1 },
      { id := "n", role := .node .basic, label := "5", parent := some 4 }]

/-- What comes of the three instances. -/
def brimPlaced : List Placed :=
  [⟨2, ⟨"A", none, 0, 9223372036854775807⟩, false, 0, 0⟩,
    ⟨3, ⟨"B", none, 9223372036854775807, 9223372036854775807⟩, false, 0, 0⟩,
    ⟨4, ⟨"C", none, 18446744073709551614, 1⟩, false, 0, 0⟩]

/-- The three instances in their places, stitched together. -/
def fullBrim : Outcome Fault Stitching :=
  (stitch laneContext.naming (brimPlaced.map Placed.placement) 1).run
    ((placeAll laneContext 0 [2, 3, 4]).run brim).diagram

/-- **Content may not be where the fields say**: the place of the third instance is no word
with a sign, so its node goes back to `3`, and no later assembly can read that place. -/
theorem assemble_overruns : ∃ A d' e f d'', Edit.Runs (assemble laneContext) brim A d' ∧
    d'.get? 4 = some e ∧ Written e 18446744073709551614 1 ∧
    Topology.numberAt brim 5 = some 5 ∧ Topology.numberAt d' 5 = some 3 ∧
    Edit.Fails (assemble laneContext) d' f d'' := by
  have hplace : ((placeAll laneContext 0 [2, 3, 4]).run brim).result.toOption = some brimPlaced := by
    cbv
  have hstitch : fullBrim.result.toOption = some ⟨[], 0, 0⟩ := by cbv
  -- The whole assembly is too deep to be run at once.
  obtain ⟨A, hruns, -⟩ := assemble_runs_iff.mpr ⟨by cbv, 1, _, [2, 3, 4], brimPlaced, _, _,
    by cbv, rfl, by cbv, ⟨toOption_eq_some.mp hplace, rfl⟩, ⟨toOption_eq_some.mp hstitch, rfl⟩, rfl⟩
  have hfields : (fullBrim.diagram.get? 4).map Element.fields = some (Fields.ofList
      [(offsetField, "18446744073709551614"), (Connections.nodeCountField, "1")]) := by cbv
  obtain ⟨e, he, hfields⟩ := Option.map_eq_some_iff.mp hfields
  have hagain : ((assemble laneContext).run fullBrim.diagram).result.isOk = false := by cbv
  obtain ⟨B, d'', hB⟩ | ⟨f, d'', hfails⟩ :=
    Edit.runs_or_fails (assemble laneContext) fullBrim.diagram
  · rw [hB.1] at hagain
    cases hagain
  refine ⟨A, _, e, f, d'', hruns, he, ⟨?_, ?_⟩, by cbv, ?_, hfails⟩
  · rw [hfields]
    cbv
  · rw [hfields]
    cbv
  · show Topology.numberAt fullBrim.diagram 5 = some 3
    cbv

end Netlist.Assembly
