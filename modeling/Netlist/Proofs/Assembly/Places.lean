import Netlist.Proofs.Assembly.Steps
import Netlist.Proofs.Compilation.Places

/-!
# What an assembly points at

The faults of an assembly point at elements of the document, but for those that are found
while a drawing is compiled: these point into the drawing, and carry its text. What is copied
from drawings and what is drawn along connectors has no place in any text.

- `Failure.ComesFrom`: where a fault points.
- `Faithful`: drawings that were read from the texts they come with.
- `within_refresh`, `within_place`: **an instance is placed.**
- `within_stitch`: instances are stitched together.
- `within_assemble`: **what an assembly points at has its place in the document, or in the
  drawing whose text it carries.**
-/

namespace Netlist

open Diagram (Traces blames_fetch)

/-- A fault without a text points into the document; any other was found while a drawing was
compiled, and carries the text of that drawing. -/
def Failure.ComesFrom (x : Assembly.Context) (origin : Diagram) (f : Failure) : Prop :=
  ∀ cause source, f = .fault cause source →
    source = "" ∧ cause.ComesFrom origin ∨
      ∃ name drawing, x.shelf name = .ok (some drawing) ∧ source = drawing.text ∧
        ((compile x.catalog x.switches Diagram.root).run drawing.diagram).result = .error cause

/-- Drawings that were read from the texts they come with; looking one up is not a matter of
the rules for networks. -/
structure Faithful (shelf : Shelf) : Prop where
  reads : ∀ name drawing, shelf name = .ok (some drawing) →
    Document.read drawing.text = .ok drawing.diagram
  failures : ∀ name cause source, shelf name ≠ .error (.fault cause source)

variable {x : Assembly.Context} {origin d d' : Diagram} {i s : Slot} {owner : Locator}
  {offset : Nat} {naming : Naming}

theorem Failure.comesFrom_ofFault {cause : Fault} (h : cause.ComesFrom origin) :
    (Failure.ofFault cause).ComesFrom x origin := by
  intro cause' source heq
  cases heq
  exact .inl ⟨rfl, h⟩

/-- A fault of the document, not yet with a text. -/
theorem blames_ofFault {α : Type} {r : Except Fault α} (h : Blames (Fault.ComesFrom origin) r) :
    Blames (Failure.ComesFrom x origin) (r.mapError Failure.ofFault) :=
  h.mapError fun _ => Failure.comesFrom_ofFault

theorem within_ofFault {α : Type} {m : Edit Fault α}
    (h : Edit.Within origin.Traces (Fault.ComesFrom origin) d m) :
    Edit.Within origin.Traces (Failure.ComesFrom x origin) d (Edit.mapError .ofFault m) :=
  h.mapError fun _ => Failure.comesFrom_ofFault

namespace Assembly

/-! ## Copying a drawing -/

theorem traces_shiftAll {delta : Int} {slots : List Slot} (h : origin.Traces d) :
    origin.Traces (shiftAll delta slots d) := by
  refine h.foldl fun d i hd => hd.modify fun e => ?_
  rw [shift]
  split
  · split <;> exact ⟨rfl, rfl⟩
  · exact ⟨rfl, rfl⟩

theorem traces_relinkAll {drawing : Diagram} {copies order : List (Slot × Slot)}
    (h : origin.Traces d) : origin.Traces (relinkAll drawing s copies order d) := by
  refine h.foldl fun d pair hd => ?_
  rw [relink]
  split
  · exact hd
  · split
    · exact hd.remove pair.2
    · exact hd.modify fun _ => ⟨rfl, rfl⟩

theorem traces_clear (h : origin.Traces d) (i : Slot) : origin.Traces (clear i d) :=
  h.foldl fun _ child hd => hd.removeSubtree child

/-- A copy has no place. -/
theorem within_copyOne {table : Substitution} {drawn : Element} (h : origin.Traces d)
    (howner : owner.ComesFrom origin) :
    Edit.Within origin.Traces (Failure.ComesFrom x origin) d (copyOne naming s owner table drawn) := by
  rw [copyOne]
  have hfails : ∀ issue, (Failure.ofFault (.topology (some owner) issue)).ComesFrom x origin :=
    fun _ => Failure.comesFrom_ofFault (Fault.comesFrom_of_element? rfl howner)
  refine .read_bind (Edit.within_change h ?_ fun slot d' hchange => ?_).bind_pure
  · exact Blames.mapError (E := fun _ => True) (fun _ _ => trivial) fun _ _ => hfails _
  · exact h.insert rfl (mapError_eq_ok.mp hchange)

theorem within_copyAll {drawing : Diagram} {table : Substitution} {slots : List Slot}
    (h : origin.Traces d) (howner : owner.ComesFrom origin) :
    Edit.Within origin.Traces (Failure.ComesFrom x origin) d
      (copyAll naming s owner drawing table slots) := by
  induction slots generalizing d table with
  | nil => exact Edit.within_pure h
  | cons i slots ih =>
    rw [copyAll]
    refine .check_bind h (blames_ofFault blames_fetch) fun drawn _ => ?_
    exact (within_copyOne h howner).bind fun _ _ _ h' => (ih h').bind_pure

theorem within_importVisiting {visit : List (Slot × Slot) → List (Slot × Slot)} {drawing : Diagram}
    {t : Topology} {interfaces : List Slot} (h : origin.Traces d)
    (howner : owner.ComesFrom origin) :
    Edit.Within origin.Traces (Failure.ComesFrom x origin) d
      (importVisiting visit naming s owner drawing t interfaces offset) := by
  rw [importVisiting]
  refine (within_copyAll h howner).bind fun copies d' _ h' => ?_
  exact .update_bind (Edit.within_update (traces_shiftAll (traces_relinkAll h')))

theorem within_rebindAll {ends : List LooseEnd} (h : origin.Traces d) :
    Edit.Within origin.Traces (Failure.ComesFrom x origin) d (rebindAll s ends) := by
  rw [rebindAll]
  refine .read_bind (Edit.within_forEach h fun l _ d hd => ?_).bind_pure
  rw [rebind]
  refine .read_bind ?_
  split
  · refine Edit.within_update (hd.modify fun e => ?_)
    rw [LooseEnd.attach]
    split <;> exact ⟨rfl, rfl⟩
  · exact ⟨hd, blames_ok⟩

/-! ## Refreshing and reusing -/

theorem blames_loadDrawing {name : String} (hshelf : Faithful x.shelf)
    (howner : owner.ComesFrom origin) :
    Blames (Failure.ComesFrom x origin) (loadDrawing x.shelf name owner) := by
  have hfails : ∀ {v : Violation}, v.element? = some owner →
      (Failure.ofFault (.violation v)).ComesFrom x origin :=
    fun hv => Failure.comesFrom_ofFault (Fault.comesFrom_of_element? hv howner)
  rw [loadDrawing]
  split
  · rename_i f hf
    refine blames_error fun cause source heq => ?_
    exact absurd (heq ▸ hf) (hshelf.failures name cause source)
  · exact blames_error (hfails rfl)
  · split
    · exact blames_error (hfails rfl)
    · exact blames_ok

/-- **An instance is refreshed**: what is found in its drawing carries the text of that. -/
theorem within_refresh {name : String} (hshelf : Faithful x.shelf) (h : origin.Traces d) :
    Edit.Within origin.Traces (Failure.ComesFrom x origin) d (refresh x s name offset) := by
  rw [refresh, refreshVisiting]
  refine .check_bind h (blames_ofFault blames_fetch.map) fun owner howner => ?_
  have howner : owner.ComesFrom origin := by
    obtain ⟨e, he, rfl⟩ := owner_eq_ok.mp howner
    exact h.locator he
  refine .check_bind h (blames_loadDrawing hshelf howner) fun drawing hdrawing => ?_
  refine Edit.Within.bind (Edit.Within.mapError (Edit.within_elsewhere h fun _ hf => hf) ?_)
    fun r d₁ _ h₁ => ?_
  · rintro cause hcause cause' source heq
    cases heq
    exact .inr ⟨name, drawing, loadDrawing_eq_ok hdrawing, rfl, hcause⟩
  · obtain ⟨compiled, diagram⟩ := r
    refine .read_bind (.update_bind ?_)
    refine (within_importVisiting (traces_clear h₁ s) howner).bind fun _ d₂ _ h₂ => ?_
    exact (within_rebindAll h₂).bind_pure

theorem blames_integerField {e : Element} {key : String} (h : origin.Traces d)
    (he : d.get? i = some e) : Blames (Fault.ComesFrom origin) (integerField e key) := by
  rw [integerField]
  split
  · exact blames_ok
  · split
    · exact blames_ok
    · exact blames_error (h.topology he)

theorem blames_recordedCount {e : Element} (h : origin.Traces d) (he : d.get? i = some e) :
    Blames (Fault.ComesFrom origin) (recordedCount e) := by
  rw [recordedCount]
  refine (blames_integerField h he).bind fun o _ => ?_
  split
  · exact blames_ok
  · exact blames_ok
  · exact blames_error (h.topology he)

theorem within_reuse (h : origin.Traces d) :
    Edit.Within origin.Traces (Fault.ComesFrom origin) d (reuse s offset) := by
  rw [reuse]
  refine .check_bind h blames_fetch fun e he => .read_bind ?_
  have he := Diagram.fetch_eq_ok.mp he
  refine .check_bind h (blames_integerField h he) fun o _ => ?_
  refine .check_bind h (blames_recordedCount h he) fun recorded _ => .read_bind ?_
  have hmove : ∀ (delta : Int) (n : Nat), Edit.Within origin.Traces (Fault.ComesFrom origin) d
      (if delta ≠ 0 then do
        Edit.update (shiftAll delta (d.descendants s))
        pure n
      else pure n : Edit Fault Nat) := by
    intro delta n
    split
    · exact .update_bind (Edit.within_pure (traces_shiftAll h))
    · exact Edit.within_pure h
  dsimp only
  split
  · exact .warn_bind (hmove _ _)
  · exact hmove _ _

/-! ## Instances -/

theorem within_settle {drawing : Option String} (hshelf : Faithful x.shelf) (h : origin.Traces d) :
    Edit.Within origin.Traces (Failure.ComesFrom x origin) d (settle x s drawing offset) := by
  rw [settle]
  refine .read_bind ?_
  generalize drawing.filter _ = name
  cases name with
  | some name => exact (within_refresh hshelf h).bind_pure
  | none => exact (within_ofFault (within_reuse h)).bind_pure

theorem within_markInstance (h : origin.Traces d) :
    Edit.Within origin.Traces (Failure.ComesFrom x origin) d (markInstance s) := by
  rw [markInstance]
  refine .read_bind (.update_bind (Edit.within_pure ?_))
  exact h.foldl fun _ _ hd => hd.modify fun _ => ⟨rfl, rfl⟩

/-- **An instance is placed.** -/
theorem within_place (hshelf : Faithful x.shelf) (h : origin.Traces d) :
    Edit.Within origin.Traces (Failure.ComesFrom x origin) d (place x s offset) := by
  rw [place]
  refine .check_bind h (blames_ofFault blames_fetch) fun e _ => ?_
  refine (within_settle hshelf h).bind fun settled d₁ _ h₁ => ?_
  have h₂ : origin.Traces (d₁.modify s (withPlace offset settled.2.nodeCount)) :=
    h₁.modify fun _ => ⟨rfl, rfl⟩
  exact .update_bind (within_markInstance h₂).bind_pure

theorem within_placeAll {instances : List Slot} (hshelf : Faithful x.shelf) (h : origin.Traces d) :
    Edit.Within origin.Traces (Failure.ComesFrom x origin) d (placeAll x offset instances) := by
  induction instances generalizing d offset with
  | nil => exact Edit.within_pure h
  | cons i instances ih =>
    rw [placeAll]
    exact (within_place hshelf h).bind fun _ _ _ h' => (ih h').bind_pure

theorem blames_findSuperNetwork (h : origin.Traces d) :
    Blames (Fault.ComesFrom origin) (findSuperNetwork d) := by
  rw [findSuperNetwork]
  split
  · exact blames_ok
  · refine blames_error (Fault.comesFrom_violation fun l hl => ?_)
    cases hl
  · exact blames_fetch.bind fun e he => blames_error (h.topology (Diagram.fetch_eq_ok.mp he))

theorem blames_directInstances {superNetwork : Slot} {slots : List Slot} (h : origin.Traces d) :
    Blames (Fault.ComesFrom origin) (directInstances d superNetwork slots) := by
  induction slots with
  | nil => exact blames_ok
  | cons i slots ih =>
    rw [directInstances]
    split
    · exact h.blames_nearestAncestor.bind fun _ _ => ih.bind fun _ _ => blames_ok
    · exact ih

/-! ## Stitching -/

theorem blames_locator {side : Side} : Blames (Fault.ComesFrom origin) (side.locator d) :=
  blames_fetch.map

/-- The interface of a side is shown at its place. -/
theorem comesFrom_of_locator {side : Side} {l : Locator} (h : origin.Traces d)
    (hl : side.locator d = .ok l) : l.ComesFrom origin := by
  obtain ⟨e, he, rfl⟩ := map_eq_ok.mp hl
  exact h.locator (Diagram.fetch_eq_ok.mp he)

theorem blames_side {interface : Slot} (h : origin.Traces d) :
    Blames (Fault.ComesFrom origin) (side d interface) := by
  rw [side]
  refine h.blames_nearestAncestor.bind fun o _ => ?_
  split
  · exact blames_ok
  · exact blames_fetch.bind fun e he => blames_error (h.topology (Diagram.fetch_eq_ok.mp he))

theorem blames_checkBindings {a b : Side} (h : origin.Traces d) :
    Blames (Fault.ComesFrom origin) (checkBindings d a b) := by
  have hfails : ∀ {side : Side} {key : String}, Blames (Fault.ComesFrom origin) (do
      let l ← side.locator d
      .error (.violation (.ambiguousBinding l key)) : Except Fault Unit) :=
    blames_locator.bind fun l hl =>
      blames_error (Fault.comesFrom_of_element? rfl (comesFrom_of_locator h hl))
  rw [checkBindings]
  split
  · exact hfails
  · split
    · exact hfails
    · exact blames_ok

theorem blames_checkCount {placements : Placements} {a : Side} (h : origin.Traces d) :
    Blames (Fault.ComesFrom origin) (checkCount d placements a) := by
  rw [checkCount]
  split
  · split
    · exact blames_ok
    · exact blames_locator.bind fun l hl =>
        blames_error (Fault.comesFrom_of_element? rfl (comesFrom_of_locator h hl))
  · exact blames_ok

theorem blames_checkCompatible {placements : Placements} {connector : Slot} {a b : Side}
    (h : origin.Traces d) :
    Blames (Fault.ComesFrom origin) (checkCompatible d placements connector a b) := by
  rw [checkCompatible]
  refine blames_locator.bind fun nameA _ => blames_locator.bind fun nameB hnameB => ?_
  split
  · exact blames_error (Fault.comesFrom_of_element? rfl (comesFrom_of_locator h hnameB))
  · split
    · exact blames_fetch.bind fun e he =>
        blames_error (Fault.comesFrom_of_element? rfl (h.locator (Diagram.fetch_eq_ok.mp he)))
    · refine (blames_checkBindings h).bind fun _ _ => ?_
      exact (blames_checkCount h).bind fun _ _ => blames_checkCount h

theorem blames_bindSides {placements : Placements} {connector a b : Slot} (h : origin.Traces d) :
    Blames (Fault.ComesFrom origin) (bindSides d placements connector a b) := by
  rw [bindSides]
  refine (blames_side h).bind fun _ _ => (blames_side h).bind fun _ _ => ?_
  exact (blames_checkCompatible h).bind fun _ _ => blames_ok

/-- A super-port that is drawn has no place. -/
theorem within_drawSuperPort {connector : Slot} {p : SuperPort} (h : origin.Traces d) :
    Edit.Within origin.Traces (Fault.ComesFrom origin) d (drawSuperPort naming connector p) := by
  rw [drawSuperPort]
  refine .check_bind h blames_fetch fun e he => .read_bind ?_
  refine (Edit.within_change h ?_ fun slot d' hchange => ?_).bind_pure
  · exact Blames.mapError (E := fun _ => True) (fun _ _ => trivial) fun _ _ =>
      h.topology (Diagram.fetch_eq_ok.mp he)
  · exact h.insert rfl (mapError_eq_ok.mp hchange)

theorem within_drawNew {connector : Slot} {ports found : List SuperPort} (h : origin.Traces d) :
    Edit.Within origin.Traces (Fault.ComesFrom origin) d (drawNew naming connector ports found) := by
  induction found generalizing d ports with
  | nil => exact Edit.within_pure h
  | cons p found ih =>
    rw [drawNew]
    split
    · exact ih h
    · exact (within_drawSuperPort h).bind fun _ _ _ h' => ih h'

theorem within_stitchAll {placements : Placements} {ports : List SuperPort} {connectors : List Slot}
    (h : origin.Traces d) :
    Edit.Within origin.Traces (Fault.ComesFrom origin) d
      (stitchAll naming placements ports connectors) := by
  induction connectors generalizing d ports with
  | nil => exact Edit.within_pure h
  | cons connector connectors ih =>
    rw [stitchAll]
    refine .read_bind ?_
    split
    · exact .check_bind h blames_fetch fun _ _ => .warn_bind (ih h)
    · refine .check_bind h (blames_bindSides h) fun found _ => ?_
      exact (within_drawNew h).bind fun _ _ _ h' => ih h'

theorem traces_discard {old : List Slot} (h : origin.Traces d) :
    origin.Traces (discard old d).2 := by
  induction old generalizing d with
  | nil => exact h
  | cons port old ih => exact ih (h.remove port)

/-- **Instances are stitched together.** -/
theorem within_stitch {placements : Placements} {superNetwork : Slot} (h : origin.Traces d) :
    Edit.Within origin.Traces (Fault.ComesFrom origin) d (stitch naming placements superNetwork) := by
  rw [stitch]
  refine .read_bind (.read_bind ?_)
  refine (Edit.within_change h blames_ok fun orphaned d' hchange => ?_).bind fun orphaned d' _ h' => ?_
  · have hsame : (discard _ d).2 = d' := congrArg Prod.snd (Except.ok.inj hchange)
    exact hsame ▸ traces_discard h
  · dsimp only
    split
    · exact .warn_bind (within_stitchAll h').bind_pure
    · exact (within_stitchAll h').bind_pure

end Assembly

/-- **What an assembly points at has its place in the document**, or in the drawing whose text
it carries. -/
theorem within_assemble (hshelf : Faithful x.shelf) (h : origin.Traces d) :
    Edit.Within origin.Traces (Failure.ComesFrom x origin) d (assemble x) := by
  rw [assemble]
  refine (within_ofFault (Edit.within_check h h.blames_validate)).bind fun _ d₁ _ h₁ => ?_
  refine (within_ofFault (Edit.within_check h₁ (Assembly.blames_findSuperNetwork h₁))).bind
    fun superNetwork d₂ _ h₂ => ?_
  refine (within_ofFault (Edit.within_check h₂ blames_fetch)).bind fun e d₃ _ h₃ => ?_
  refine (within_ofFault (Edit.within_check h₃ (Assembly.blames_directInstances h₃))).bind
    fun instances d₄ _ h₄ => ?_
  refine (Assembly.within_placeAll hshelf h₄).bind fun placed d₅ _ h₅ => ?_
  exact (within_ofFault (Assembly.within_stitch h₅)).bind_pure

end Netlist
