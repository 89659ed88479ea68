import Netlist.Proofs.Assembly.Failing
import Netlist.Proofs.Assembly.Leftovers
import Netlist.Proofs.Diagram.Based
import Netlist.Rounds

/-!
# What rounds of work leave

A round may fail half-way, and the next one goes on from what it has left. Whichever way a
round comes out, the root of the diagram is still in nothing and every parent was issued:
a compilation gives no element a new parent, a turn puts copies into its instance or into
each other, and stitching puts super-ports into connectors.

- `Compilation.leaves_compile`: **a compilation gives no element a new parent.**
- `Assembly.based_place`, `Assembly.based_assemble`: turns and assemblies, failed ones too.
- `Round.based_edit`: **every round leaves a based diagram if it began with one.**
-/

namespace Netlist

open Diagram (root NoNewParents)

variable {d d' : Diagram} {c : Catalog}

/-! ## Compiling -/

namespace Compilation

theorem noNewParents_relabel (numbers : List (Slot × Nat)) (d : Diagram) :
    NoNewParents d (Topology.relabel numbers d) := by
  rw [Topology.relabel]
  induction numbers generalizing d with
  | nil => exact .refl d
  | cons n numbers ih =>
    rw [List.foldl_cons]
    refine .trans _ _ _ ?_ (ih _)
    exact Diagram.noNewParents_modify fun _ => rfl

theorem leaves_extract (c : Catalog) (prune : Bool) (scope : Slot) :
    Edit.Leaves NoNewParents (Edit.change (Topology.extract c prune scope)) := by
  refine Edit.leaves_change .refl fun d t d' h => ?_
  obtain ⟨t₀, domain, t₁, d₁, -, -, -, hrenumber, h⟩ := Topology.extract_steps.mp h
  have hlabels : NoNewParents d d₁ := by
    rw [Topology.renumber, bind_eq_ok] at hrenumber
    obtain ⟨labelled, -, hrenumber⟩ := hrenumber
    rw [bind_eq_ok] at hrenumber
    obtain ⟨moved, -, hrenumber⟩ := hrenumber
    cases hrenumber
    exact noNewParents_relabel _ d
  cases prune with
  | false =>
    cases h
    exact hlabels
  | true =>
    rw [if_pos rfl, Topology.pruneGrounds] at h
    cases h
    exact .trans _ _ _ hlabels Diagram.noNewParents_foldl_remove

theorem leaves_reconcileOne (c : Catalog) (i : Slot) :
    Edit.Leaves NoNewParents (reconcileOne c i) := by
  intro d
  rw [(runs_reconcileOne c i d).2]
  exact Diagram.noNewParents_modify fun e => Element.parent_of_bare (bare_inLine c e)

theorem leaves_reconcileIf (c : Catalog) (switches : Switches) (t : Topology) :
    Edit.Leaves NoNewParents (reconcileIf c switches t) := by
  rw [reconcileIf]
  split
  · exact .bind (Edit.leaves_forEach .refl NoNewParents.trans fun i _ => leaves_reconcileOne c i)
      NoNewParents.trans fun _ => NoNewParents.refl
  · exact NoNewParents.refl

theorem leaves_recordOne (t : Topology) (maps : PortMaps) (i : Slot) :
    Edit.Leaves NoNewParents (Recording.recordOne t maps i) := by
  refine .bind NoNewParents.refl NoNewParents.trans fun connections => ?_
  refine .bind NoNewParents.refl NoNewParents.trans fun found => ?_
  split
  · exact NoNewParents.refl
  · refine .bind (fun d => ?_) NoNewParents.trans fun _ => NoNewParents.refl
    exact Diagram.noNewParents_modify fun _ => rfl

/-- **A compilation gives no element a new parent**, however far it comes. -/
theorem leaves_compile (c : Catalog) (switches : Switches) (scope : Slot) :
    Edit.Leaves NoNewParents (compile c switches scope) := by
  rw [compile_eq]
  refine .bind NoNewParents.refl NoNewParents.trans fun _ => ?_
  refine .bind (leaves_extract c _ scope) NoNewParents.trans fun t => ?_
  refine .bind NoNewParents.refl NoNewParents.trans fun maps => ?_
  refine .bind (leaves_reconcileIf c switches t) NoNewParents.trans fun _ => ?_
  refine .bind (.bind (Edit.leaves_forEach .refl NoNewParents.trans fun i _ =>
    leaves_recordOne t maps i) NoNewParents.trans fun _ => NoNewParents.refl) NoNewParents.trans
      fun _ => ?_
  exact .bind NoNewParents.refl NoNewParents.trans fun _ => NoNewParents.refl

end Compilation

/-! ## Turns -/

namespace Assembly

variable {x : Context} {s : Slot} {offset : Nat} {instances : List Slot} {naming : Naming}

/-- Work with an instance that was issued in a based diagram leaves both so. -/
def Upholds (s : Slot) (d d' : Diagram) : Prop :=
  s < d.bound → d.Based → s < d'.bound ∧ d'.Based

theorem Upholds.refl (d : Diagram) : Upholds s d d := fun hs hd => ⟨hs, hd⟩

theorem Upholds.trans (d d₁ d' : Diagram) (h : Upholds s d d₁) (h' : Upholds s d₁ d') :
    Upholds s d d' := fun hs hd => h' (h hs hd).1 (h hs hd).2

/-- A copy is put into the instance, or there is none. -/
theorem leaves_copyOne {owner : Locator} {table : Substitution} {drawn : Element} :
    Edit.Leaves (Upholds s) (copyOne naming s owner table drawn) := by
  refine .bind Upholds.refl Upholds.trans fun proposal => ?_
  refine .bind (Edit.leaves_change Upholds.refl fun d i d' h hs hd => ?_) Upholds.trans
    fun _ => Upholds.refl
  rw [mapError_eq_ok] at h
  refine ⟨?_, hd.insert (fun p hp => ?_) h⟩
  · rw [(Diagram.slot_insert h).2]
    exact Nat.lt_succ_of_lt hs
  · cases hp
    exact hs

/-- **However many copies are made**, they are in the instance. -/
theorem leaves_copyAll {owner : Locator} {drawing : Diagram} {table : Substitution}
    {order : List Slot} : Edit.Leaves (Upholds s) (copyAll naming s owner drawing table order) := by
  induction order generalizing table with
  | nil => exact Upholds.refl
  | cons i order ih =>
    refine .bind Upholds.refl Upholds.trans fun drawn => ?_
    refine .bind leaves_copyOne Upholds.trans fun r => ?_
    exact .bind ih Upholds.trans fun _ => Upholds.refl

/-- **A refresh fails before it clears the instance, or while it copies its drawing.** -/
theorem copyAll_of_refresh_fails {name : String} {f : Failure}
    (h : Edit.Fails (refresh x s name offset) d f d') :
    d' = d ∨ ∃ owner drawing order,
      Edit.Fails (copyAll x.naming s owner drawing .empty order) (clear s d) f d' := by
  rw [refresh, refreshVisiting, Edit.fails_check_bind] at h
  obtain ⟨-, rfl⟩ | ⟨owner, -, h⟩ := h
  · exact .inl rfl
  rw [Edit.fails_check_bind] at h
  obtain ⟨-, rfl⟩ | ⟨drawing, -, h⟩ := h
  · exact .inl rfl
  obtain h | ⟨⟨compiled, diagram⟩, d₁, hcompile, h⟩ := Edit.fails_bind.mp h
  · obtain ⟨_, h, -⟩ := Edit.fails_mapError.mp h
    exact .inl (Edit.fails_elsewhere.mp h).2.symm
  obtain ⟨-, rfl⟩ := Edit.runs_elsewhere.mp (Edit.runs_mapError.mp hcompile)
  dsimp only at h
  rw [Edit.fails_read_bind, Edit.fails_update_bind] at h
  obtain h | ⟨_, d₂, -, h⟩ := Edit.fails_bind.mp h
  · rw [importVisiting] at h
    obtain h | ⟨copies, d₂, -, h⟩ := Edit.fails_bind.mp h
    · exact .inr ⟨owner, diagram, _, h⟩
    · rw [Edit.fails_update_bind] at h
      exact absurd h Edit.fails_update
  · obtain h | ⟨_, _, -, h⟩ := Edit.fails_bind.mp h
    · exact absurd h (rebindAll_runs_iff (u := ()).mpr rfl).not_fails
    · exact absurd h Edit.fails_pure

theorem noNewParents_clear (s : Slot) (d : Diagram) : NoNewParents d (clear s d) := by
  obtain ⟨slots, h, -⟩ := clear_eq_foldl_remove s d
  rw [h]
  exact Diagram.noNewParents_foldl_remove

theorem Turn.based (h : Turn s d d') (hd : d.Based) (hs : s < d.bound) : d'.Based :=
  ⟨Nat.lt_of_lt_of_le hd.bound h.bound, h.rooted hd.rooted hs, h.issued hd.issued hs⟩

/-- **A turn leaves a based diagram**, whichever way it comes out. -/
theorem based_place (hd : d.Based) (hs : s < d.bound) (hself : ¬ d.Inside s s) :
    ((place x s offset).run d).diagram.Based := by
  obtain ⟨p, d', h⟩ | ⟨f, d', h⟩ := Edit.runs_or_fails (place x s offset) d
  · obtain ⟨hturn, -⟩ := place_turn hd.rooted hd.issued hs hself h
    rw [h.2]
    exact hturn.based hd hs
  · rw [h.2]
    obtain rfl | ⟨drawing, h⟩ := settle_of_place_fails h
    · exact hd
    obtain rfl | ⟨name, h⟩ := refresh_of_settle_fails h
    · exact hd
    obtain rfl | ⟨owner, drawing, order, h⟩ := copyAll_of_refresh_fails h
    · exact hd
    have hclear := noNewParents_clear s d
    exact ((Edit.leaves_iff.mp leaves_copyAll).2 _ f d' h (Nat.lt_of_lt_of_le hs hclear.bound)
      (hclear.based hd)).2

/-- **All turns leave a based diagram**, whether they all succeed or not. -/
theorem based_placeAll (hd : d.Based) (hlive : ∀ s ∈ instances, s < d.bound)
    (hflat : Flat d instances) : ((placeAll x offset instances).run d).diagram.Based := by
  induction instances generalizing d offset with
  | nil => exact hd
  | cons s instances ih =>
    obtain ⟨hs, hlive⟩ := List.forall_mem_cons.mp hlive
    have hself := hflat s List.mem_cons_self s List.mem_cons_self
    refine Edit.diagram_bind (based_place hd hs hself) fun p d₁ hplace => ?_
    obtain ⟨hturn, -⟩ := place_turn hd.rooted hd.issued hs hself hplace
    exact Edit.diagram_bind_pure (ih (hturn.based hd hs)
      (fun t ht => Nat.lt_of_lt_of_le (hlive t ht) hturn.bound)
      ((hflat.mono (List.subset_cons_self s instances)).turn hturn hd.issued hlive))

/-! ## Stitching -/

theorem Discards.based (h : Discards d d') (hd : d.Based) : d'.Based := by
  refine NoNewParents.based ⟨Nat.le_of_eq h.bound.symm, fun j p hp => ?_⟩ hd
  obtain ⟨y, hy, hp⟩ := Diagram.hasParent_iff_core?.mp hp
  exact Diagram.hasParent_iff_core?.mpr ⟨y, h.left j y hy, hp⟩

theorem Draws.based (h : Draws d d') (hd : d.Based) : d'.Based where
  bound := Nat.lt_of_lt_of_le hd.bound h.grows.bound
  rooted := by
    rintro p ⟨e, he, hp⟩
    rw [h.grows.same root hd.bound] at he
    exact hd.rooted p ⟨e, he, hp⟩
  issued := h.issued hd.issued

/-- **Stitching leaves a based diagram**, whichever way it comes out. -/
theorem based_stitch {placements : Placements} {top : Slot} (hd : d.Based) :
    ((stitch naming placements top).run d).diagram.Based := by
  obtain ⟨d₂, hdiscards, hdraws⟩ := stitch_leaves naming placements top d
  exact hdraws.based (hdiscards.based hd)

/-- **An assembly leaves a based diagram**, whichever way it comes out. -/
theorem based_assemble (x : Context) (hd : d.Based) : ((assemble x).run d).diagram.Based := by
  obtain ⟨⟨f, h⟩, -⟩ | ⟨top, instances, hfound, h⟩ := assemble_cases x d
  · rw [h.2]
    exact hd
  obtain ⟨hflat, -, hlive⟩ := flat_of_findInstances hfound.valid hfound.instances
  have hplaced : ((placeAll x 0 instances).run d).diagram.Based :=
    based_placeAll hd hlive hflat
  obtain ⟨f, d', h, hfails⟩ | ⟨placed, dₖ, hplace, h⟩ := h
  · rw [h.2]
    exact hfails.2 ▸ hplaced
  · rw [h]
    exact based_stitch (hplace.2 ▸ hplaced)

end Assembly

/-! ## Rounds -/

namespace Round

/-- **Every round leaves a based diagram if it began with one**, failed rounds included. -/
theorem based_edit (r : Round) (hd : d.Based) : (r.edit.run d).diagram.Based := by
  have hcompile : ∀ scope, ((Edit.mapError Failure.ofFault
      (Netlist.compile r.context.catalog r.context.switches scope)).run d).diagram.Based :=
    fun scope => (Compilation.leaves_compile _ _ scope d).based hd
  have hassemble := Assembly.based_assemble r.context hd
  obtain ⟨task, x⟩ := r
  cases task with
  | compile scope => exact Edit.diagram_bind_pure (hcompile scope)
  | assemble => exact Edit.diagram_bind_pure hassemble
  | build =>
    refine Edit.diagram_bind hd fun found d₁ h => ?_
    obtain ⟨-, rfl⟩ := Edit.runs_read.mp h
    split
    · exact Edit.diagram_bind_pure hassemble
    · exact Edit.diagram_bind_pure (hcompile root)

end Round

end Netlist
