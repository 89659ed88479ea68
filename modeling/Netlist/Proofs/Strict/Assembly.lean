import Netlist.Proofs.Rounds
import Netlist.Proofs.Strict.Compilation

/-!
# Placing instances finds what it looks for

The turn of an instance looks for the instance, for what is in it, and for the elements of
a compiled drawing. The instance is there from the beginning to the end: clearing it takes
out what is in it, and it is not in itself. What was read off a diagram before a change is
not looked up after it, but for the interfaces of the instance, which stay where they are
while connectors are attached to them.

- `findInstances_eq`, `finds_findInstances`: finding the instances.
- `Quiet`: drawings that are not lost themselves.
- `guards_refresh`, `guards_place`: one turn, with strict lookups and without.
- `guards_placeAll`: **all turns do the same with strict lookups, and none of them is in
  vain.**
-/

namespace Netlist

open Diagram (root)

variable {d d' : Diagram} {i s : Slot}

namespace Strict

open Assembly (Context Placed LooseEnd Flat)

variable {x : Context} {offset : Nat} {instances : List Slot} {e : Element} {naming : Naming}

/-- An element is still there if nothing of it but its ends has changed. -/
theorem exists_of_core? (h : d'.core? i = d.core? i) (he : ∃ e, d.get? i = some e) :
    ∃ e, d'.get? i = some e := by
  obtain ⟨e, he⟩ := he
  rw [Diagram.core?_of_get? he] at h
  obtain ⟨e', he', -⟩ := Diagram.core?_eq_some.mp h
  exact ⟨e', he'⟩

/-! ## Failures of an assembly -/

theorem never_ofFault {α : Type} {y : Except Fault α} (h : Finds y) :
    Never isLostIn (y.mapError Failure.ofFault) := h.mapError fun _ hf => hf

theorem guards_ofFault {α : Type} {strict m : Edit Fault α} (h : Edit.Guards isLost d strict m) :
    Edit.Guards isLostIn d (Edit.mapError .ofFault strict) (Edit.mapError .ofFault m) :=
  h.mapError fun _ hf => hf

theorem run_inspectIn {there : Diagram} {slots : List Slot}
    (hlive : ∀ i ∈ slots, ∃ e, there.get? i = some e) :
    (inspectIn there slots).run d = ⟨.ok (), d, []⟩ := by
  show Outcome.mk (Except.mapError Failure.ofFault (look there slots)) d [] = _
  rw [look_eq_ok.mpr hlive]
  rfl

theorem guards_fault_bind {α β : Type} {g g' : Diagram → Except Fault α}
    {next next' : α → Edit Failure β} (hsame : g' d = g d) (hfinds : Finds (g d))
    (hnext : ∀ a, g d = .ok a → Edit.Guards isLostIn d (next' a) (next a)) :
    Edit.Guards isLostIn d (Edit.mapError .ofFault (Edit.check g') >>= next')
      (Edit.mapError .ofFault (Edit.check g) >>= next) :=
  .check_bind (congrArg (Except.mapError Failure.ofFault) hsame) (never_ofFault hfinds)
    fun a ha => hnext a (mapError_eq_ok.mp ha)

/-- Elements that are there can be looked up on the way. -/
theorem guards_inspectIn {α : Type} {there : Diagram} {slots : List Slot}
    {next : Unit → Edit Failure α} {m : Edit Failure α}
    (hlive : ∀ i ∈ slots, ∃ e, there.get? i = some e) (h : Edit.Guards isLostIn d (next ()) m) :
    Edit.Guards isLostIn d (inspectIn there slots >>= next) m := .idle_bind (run_inspectIn hlive) h

theorem guards_inspect {α : Type} {slots : Diagram → List Slot} {next : Unit → Edit Failure α}
    {m : Edit Failure α} (hlive : ∀ i ∈ slots d, ∃ e, d.get? i = some e)
    (h : Edit.Guards isLostIn d (next ()) m) :
    Edit.Guards isLostIn d (inspect slots >>= next) m :=
  .idle_bind (show (inspect slots).run d = _ from run_inspectIn hlive) h

theorem guards_inspect_descendants {α : Type} {next : Unit → Edit Failure α} {m : Edit Failure α}
    (h : Edit.Guards isLostIn d (next ()) m) :
    Edit.Guards isLostIn d (inspect (fun d => d.descendants s) >>= next) m :=
  guards_inspect (look_eq_ok.mp (look_descendants d s)) h

/-! ## Instances -/

theorem directInstances_eq {top : Slot} {slots : List Slot}
    (hlive : ∀ i ∈ slots, ∃ e, d.get? i = some e) :
    directInstances d top slots = Assembly.directInstances d top slots := by
  induction slots with
  | nil => rfl
  | cons i slots ih =>
    obtain ⟨⟨e, he⟩, hlive⟩ := List.forall_mem_cons.mp hlive
    rw [directInstances, Assembly.directInstances, Diagram.fetch_eq_ok.mpr he, he, Option.any_some,
      nearestAncestor_eq, ih hlive]
    rfl

/-- **Finding the instances does the same with strict lookups.** -/
theorem findInstances_eq (d : Diagram) (top : Slot) :
    findInstances d top = Assembly.findInstances d top :=
  directInstances_eq (look_eq_ok.mp (look_descendants d top))

theorem finds_findInstances (d : Diagram) (top : Slot) : Finds (Assembly.findInstances d top) := by
  rw [Assembly.findInstances]
  generalize d.descendants top = slots
  induction slots with
  | nil => exact never_ok
  | cons i slots ih =>
    rw [Assembly.directInstances]
    split
    · exact (finds_nearestAncestor d i _).bind fun _ _ => ih.bind fun _ _ => never_ok
    · exact ih

/-! ## Refreshing -/

/-- Drawings that are found or not, but are not lost on the way. -/
def Quiet (shelf : Shelf) : Prop := ∀ name, Never isLostIn (shelf name)

theorem never_loadDrawing {shelf : Shelf} (hquiet : Quiet shelf) (name : String) (owner : Locator) :
    Never isLostIn (Assembly.loadDrawing shelf name owner) := by
  have h := hquiet name
  rw [Assembly.loadDrawing]
  split
  · rename_i f hf
    exact never_error (h f hf)
  · exact never_error rfl
  · split
    · exact never_error rfl
    · exact never_ok

theorem guards_copyOne {owner : Locator} {table : Substitution} {drawn : Element} :
    Edit.Guards isLostIn d (Assembly.copyOne naming s owner table drawn)
      (Assembly.copyOne naming s owner table drawn) := by
  rw [Assembly.copyOne]
  refine .read_bind ?_
  dsimp only
  refine .bind_pure (Edit.guards_change rfl ?_)
  exact never_mapError fun _ => rfl

/-- Copying looks for nothing but the elements to be copied. -/
theorem guards_copyAll {owner : Locator} {drawing : Diagram} {table : Substitution}
    {order : List Slot} (hlive : ∀ i ∈ order, ∃ e, drawing.get? i = some e) :
    Edit.Guards isLostIn d (Assembly.copyAll naming s owner drawing table order)
      (Assembly.copyAll naming s owner drawing table order) := by
  induction order generalizing d table with
  | nil => exact Edit.guards_pure
  | cons i order ih =>
    obtain ⟨⟨e, he⟩, hlive⟩ := List.forall_mem_cons.mp hlive
    rw [Assembly.copyAll]
    refine .check_bind rfl (never_ofFault (finds_fetch he)) fun drawn _ => ?_
    refine .bind guards_copyOne fun r _ _ => ?_
    exact .bind_pure (ih hlive)

theorem guards_importVisiting {visit : List (Slot × Slot) → List (Slot × Slot)}
    (hvisit : ∀ copies, (visit copies).Perm copies) {owner : Locator} {drawing : Diagram} {t : Topology}
    {interfaces : List Slot} (hs : ∃ e, d.get? s = some e)
    (hlive : ∀ i ∈ Assembly.members drawing t interfaces, ∃ e, drawing.get? i = some e) :
    Edit.Guards isLostIn d (importVisiting visit naming s owner drawing t interfaces offset)
      (Assembly.importVisiting visit naming s owner drawing t interfaces offset) := by
  rw [importVisiting, Assembly.importVisiting]
  refine guards_inspect (List.forall_mem_singleton.mpr hs) ?_
  refine .bind (guards_copyAll hlive) fun copies d₁ hcopy => ?_
  refine guards_inspectIn ?_ ?_
  · intro i hi
    rw [((hvisit copies).map Prod.fst).mem_iff, (Assembly.copyAll_runs hcopy).originals] at hi
    exact hlive i hi
  · exact .update_bind Edit.guards_update

theorem guards_rebind {interfaces : List Slot} {l : LooseEnd}
    (hlive : ∀ i ∈ interfaces, ∃ e, d.get? i = some e) :
    Edit.Guards isLostIn d (rebind interfaces l) (Assembly.rebind interfaces l) := by
  refine guards_inspect hlive (Edit.guards_self fun f d' h => ?_)
  rw [Assembly.rebind, Edit.fails_read_bind] at h
  split at h
  · exact absurd h Edit.fails_update
  · exact absurd h Edit.fails_warn

/-- The interfaces of an instance stay where they are while connectors are attached. -/
theorem guards_rebindAll {ends : List LooseEnd} :
    Edit.Guards isLostIn d (rebindAll s ends) (Assembly.rebindAll s ends) := by
  rw [rebindAll, Assembly.rebindAll]
  refine guards_inspect_descendants (.read_bind ?_)
  have hlive : ∀ i ∈ Assembly.interfacesIn d s, ∃ e, d.get? i = some e := fun i hi =>
    (Assembly.inside_of_mem_interfacesIn hi).live
  refine .bind_pure ?_
  generalize Assembly.interfacesIn d s = interfaces at hlive ⊢
  refine Edit.guards_forEach (fun d => ∀ i ∈ interfaces, ∃ e, d.get? i = some e)
    (fun l _ d hd => guards_rebind hd) (fun l _ d _ d' hd hrun i hi => ?_) hlive
  exact exists_of_core? ((Assembly.rebind_frame hrun).2 i) (hd i hi)

theorem guards_clear (hissued : d.Issued) :
    Edit.Guards isLostIn d
      (Edit.mapError .ofFault (Edit.change fun d => (clear s d).map fun d => ((), d)))
      (Edit.update (Assembly.clear s)) := by
  refine ⟨?_, never_ok⟩
  show Outcome.mk (Except.mapError _ (Outcome.result _)) (Outcome.diagram _) (Outcome.warnings _) = _
  rw [show (Edit.change fun d => (clear s d).map fun d => ((), d) : Edit Fault Unit) d =
    ⟨.ok (), Assembly.clear s d, []⟩ from ?_]
  · rfl
  · rw [Edit.change, clear_eq hissued]
    rfl

/-- **Refreshing an instance does the same with strict lookups.** -/
theorem guards_refresh {name : String} (hd : d.Based) (hquiet : Quiet x.shelf) (hs : d.get? s = some e) (hself : ¬ d.Inside s s) :
    Edit.Guards isLostIn d (refresh x s name offset) (Assembly.refresh x s name offset) := by
  rw [refresh, Assembly.refresh, Assembly.refreshVisiting]
  refine .check_bind rfl (never_ofFault (finds_fetch hs).map) fun owner _ => ?_
  refine .check_bind rfl (never_loadDrawing hquiet name owner) fun drawing _ => ?_
  refine .bind ((guards_compile x.catalog x.switches root drawing.diagram).elsewhere.mapError fun _ hf => hf)
    fun r d₁ hrun => ?_
  obtain ⟨compiled, diagram⟩ := r
  obtain ⟨hcompile, rfl⟩ := Edit.runs_elsewhere.mp (Edit.runs_mapError.mp hrun)
  obtain ⟨_, _, _, _, hstages⟩ := Compilation.compile_runs hcompile
  dsimp only
  refine guards_inspect_descendants (guards_inspect (fun i hi => ?_) (.read_bind ?_))
  · obtain ⟨_, -, hi⟩ := List.mem_flatMap.mp hi
    obtain ⟨e, he, -⟩ := Diagram.mem_select.mp hi
    exact ⟨e, he⟩
  refine .bind (guards_clear hd.issued) fun _ d₁ hrun => ?_
  obtain rfl := Edit.runs_update.mp hrun
  refine guards_inspectIn (fun i hi => ?_) ?_
  · obtain ⟨_, -, hi⟩ := List.mem_flatMap.mp hi
    exact exists_of_mem_children hi
  -- The instance is not in itself, so it was not cleared away.
  have hleft : (Assembly.clear s d).core? s = d.core? s := by
    rw [Assembly.core?_clear hd.rooted hself, if_neg hself]
  refine .bind (guards_importVisiting x.visiting.perm (exists_of_core? hleft ⟨e, hs⟩) fun i hi =>
    hstages.exists_of_member hi) fun _ _ _ => ?_
  exact .bind_pure guards_rebindAll

/-! ## Turns -/

theorem finds_integerField (e : Element) (key : String) : Finds (Assembly.integerField e key) := by
  rw [Assembly.integerField]
  split
  · exact never_ok
  · split
    · exact never_ok
    · exact finds_violation

theorem finds_recordedCount (e : Element) : Finds (Assembly.recordedCount e) := by
  rw [Assembly.recordedCount]
  refine (finds_integerField e _).bind fun count _ => ?_
  split
  · exact never_ok
  · exact never_ok
  · exact finds_violation

theorem guards_reuse (hs : d.get? s = some e) :
    Edit.Guards isLost d (reuse s offset) (Assembly.reuse s offset) := by
  refine .idle_check_bind (look_descendants d s) ?_
  rw [Assembly.reuse]
  refine .check_bind rfl (finds_fetch hs) fun e _ => .read_bind ?_
  refine .check_bind rfl (finds_integerField e _) fun start _ => ?_
  refine .check_bind rfl (finds_recordedCount e) fun recorded _ => .read_bind ?_
  -- Nothing is left that can fail.
  have hmove : ∀ (delta : Int) (n : Nat), Edit.Guards isLost d
      (if delta ≠ 0 then do
        Edit.update (Assembly.shiftAll delta (d.descendants s))
        pure n
      else pure n : Edit Fault Nat)
      (if delta ≠ 0 then do
        Edit.update (Assembly.shiftAll delta (d.descendants s))
        pure n
      else pure n : Edit Fault Nat) := by
    intro delta n
    split
    · exact .update_bind Edit.guards_pure
    · exact Edit.guards_pure
  dsimp only
  split
  · exact .warn_bind (hmove _ _)
  · exact hmove _ _

theorem guards_settle {drawing : Option String} (hd : d.Based) (hquiet : Quiet x.shelf)
    (hs : d.get? s = some e) (hself : ¬ d.Inside s s) :
    Edit.Guards isLostIn d (settle x s drawing offset) (Assembly.settle x s drawing offset) := by
  rw [settle, Assembly.settle]
  refine .read_bind ?_
  generalize drawing.filter _ = name
  cases name with
  | some name => exact .bind_pure (guards_refresh hd hquiet hs hself)
  | none => exact .bind_pure (guards_ofFault (guards_reuse hs))

theorem guards_markInstance :
    Edit.Guards isLostIn d (markInstance s) (Assembly.markInstance s) := by
  refine guards_inspect_descendants (guards_inspect (fun i hi => ?_) ?_)
  · obtain ⟨_, -, hi⟩ := List.mem_flatMap.mp hi
    exact exists_of_mem_children hi
  · exact Edit.guards_of_runs (Assembly.markInstance_runs_iff.mpr ⟨rfl, rfl⟩)

/-- **The turn of an instance does the same with strict lookups.** -/
theorem guards_place (hd : d.Based) (hquiet : Quiet x.shelf) (hs : d.get? s = some e)
    (hself : ¬ d.Inside s s) :
    Edit.Guards isLostIn d (place x s offset) (Assembly.place x s offset) := by
  rw [place, Assembly.place]
  refine .check_bind rfl (never_ofFault (finds_fetch hs)) fun e _ => ?_
  dsimp only
  refine .bind (guards_settle hd hquiet hs hself) fun r d₁ _ => ?_
  obtain ⟨wasRefreshed, done⟩ := r
  exact .update_bind (.bind_pure guards_markInstance)

/-- **All turns do the same with strict lookups**: an instance is not touched by the turns of
the others. -/
theorem guards_placeAll (hd : d.Based) (hquiet : Quiet x.shelf) (hnodup : instances.Nodup)
    (hflat : Flat d instances) (hlive : ∀ s ∈ instances, ∃ e, d.get? s = some e) :
    Edit.Guards isLostIn d (placeAll x offset instances) (Assembly.placeAll x offset instances) := by
  induction instances generalizing d offset with
  | nil => exact Edit.guards_pure
  | cons s instances ih =>
    obtain ⟨⟨e, hs⟩, hlive⟩ := List.forall_mem_cons.mp hlive
    obtain ⟨hnot, hnodup⟩ := List.nodup_cons.mp hnodup
    have hself := hflat s List.mem_cons_self s List.mem_cons_self
    rw [placeAll, Assembly.placeAll]
    refine .bind (guards_place hd hquiet hs hself) fun p d₁ hplace => ?_
    have hlt := Diagram.lt_bound_of_get? hs
    have hbound : ∀ t ∈ instances, t < d.bound := fun t ht => by
      obtain ⟨y, hy⟩ := hlive t ht
      exact Diagram.lt_bound_of_get? hy
    obtain ⟨hturn, -⟩ := Assembly.place_turn hd.rooted hd.issued hlt hself hplace
    refine .bind_pure (ih (hturn.based hd hlt) hnodup
      ((hflat.mono (List.subset_cons_self s instances)).turn hturn hd.issued hbound) fun t ht => ?_)
    exact exists_of_core? (hturn.outside t (hbound t ht) (ne_of_mem_of_not_mem ht hnot)
      (hflat t (List.mem_cons_of_mem s ht) s List.mem_cons_self)) (hlive t ht)

end Strict

end Netlist
