import Netlist.Proofs.Assembly.Renewal
import Netlist.Proofs.Edit.Fails

/-!
# Assemblies that fail

A turn reads, loads and compiles before it changes anything: whatever can fail comes first.
So an instance whose turn fails is left as it was. If all turns succeed, stitching may still
fail, but it changes nothing except super-ports, however far it comes.

- `reuse_fails`, `refresh_fails`, `place_fails`: **a turn that fails changes nothing.**
- `placeAll_fails`: the first turn that fails is the last one.
- `stitch_leaves`: whichever way stitching comes out, it leaves everything but super-ports.
- `assemble_turns`: **an assembly is over at the first turn that fails**, or when all turns
  are taken.
-/

namespace Netlist.Assembly

variable {x : Context} {d d₁ d' : Diagram} {s top : Slot} {instances : List Slot} {p : Placed}
  {offset : Nat} {naming : Naming} {placements : Placements} {c : Slot}

/-! ## One turn -/

/-- The drawings of a shelf have identities that tell their elements apart. -/
def Identified (shelf : Shelf) : Prop :=
  ∀ name drawing, shelf name = .ok (some drawing) → drawing.diagram.Distinct

/-- **Content is kept unless its fields cannot be read**, and then nothing has changed. -/
theorem reuse_fails {f : Fault} (h : Edit.Fails (reuse s offset) d f d') : d' = d := by
  rw [reuse, Edit.fails_check_bind] at h
  obtain ⟨-, rfl⟩ | ⟨e, -, h⟩ := h
  · rfl
  rw [Edit.fails_read_bind, Edit.fails_check_bind] at h
  obtain ⟨-, rfl⟩ | ⟨recordedOffset, -, h⟩ := h
  · rfl
  rw [Edit.fails_check_bind] at h
  obtain ⟨-, rfl⟩ | ⟨recorded, -, h⟩ := h
  · rfl
  -- Nothing is left that can fail.
  exfalso
  rw [Edit.fails_read_bind] at h
  have hmove : ∀ (delta : Int) (n : Nat) (d : Diagram), ¬ Edit.Fails
      (if delta ≠ 0 then do
        Edit.update (shiftAll delta (d.descendants s))
        pure n
      else pure n : Edit Fault Nat) d f d' := by
    intro delta n d h
    split at h
    · rw [Edit.fails_update_bind] at h
      exact Edit.fails_pure h
    · exact Edit.fails_pure h
  dsimp only at h
  split at h
  · obtain h | ⟨_, d₁, hwarn, h⟩ := Edit.fails_bind.mp h
    · exact Edit.fails_warn h
    · rw [← Edit.runs_warn.mp hwarn] at h
      exact hmove _ _ d h
  · exact hmove _ _ d h

/-- A compiled drawing is a source of instances. -/
theorem source_of_compile {catalog : Catalog} {switches : Switches} {shelf : Shelf} {owner : Locator}
    {name : String} {drawing : Drawing} {compiled : Compilation} {diagram : Diagram}
    (hshelf : Identified shelf) (hload : loadDrawing shelf name owner = .ok drawing)
    (hcompile : Edit.Runs (compile catalog switches Diagram.root) drawing.diagram compiled diagram) :
    ∃ m, Source catalog switches shelf name m := by
  obtain ⟨hfound, hflat⟩ := loadDrawing_iff.mp hload
  have hcopyable := copyable_of_compile (hshelf name drawing hfound) hcompile
  refine ⟨⟨drawing, compiled, diagram, (members diagram compiled.topology
    (distinct diagram compiled.topology.interfaces)).map fun o => (o, 0)⟩, hfound, hflat, hcompile,
    ?_, ?_⟩
  · rw [List.map_map]
    exact List.map_id _
  · rw [List.map_map]
    exact (List.map_id _).symm ▸ hcopyable

/-- **A refresh fails at its drawing or not at all**, and then nothing has changed. -/
theorem refresh_fails {name : String} {f : Failure} (hshelf : Identified x.shelf)
    (h : Edit.Fails (refresh x s name offset) d f d') : d' = d := by
  have hfails := h
  rw [refresh, refreshVisiting, Edit.fails_check_bind] at h
  obtain ⟨-, rfl⟩ | ⟨owner, howner, h⟩ := h
  · rfl
  rw [Edit.fails_check_bind] at h
  obtain ⟨-, rfl⟩ | ⟨drawing, hload, h⟩ := h
  · rfl
  obtain h | ⟨⟨compiled, diagram⟩, d₁, hcompile, -⟩ := Edit.fails_bind.mp h
  · obtain ⟨_, h, -⟩ := Edit.fails_mapError.mp h
    exact (Edit.fails_elsewhere.mp h).2.symm
  · -- The drawing was compiled, so the refresh succeeds.
    exfalso
    obtain ⟨hcompile, -⟩ := Edit.runs_elsewhere.mp (Edit.runs_mapError.mp hcompile)
    obtain ⟨m, hsource⟩ := source_of_compile hshelf hload hcompile
    obtain ⟨e, he, rfl⟩ := owner_eq_ok.mp howner
    obtain ⟨done, d₂, hruns⟩ := hsource.exists_refreshVisiting he x.visiting.order x.naming offset
    exact hruns.not_fails hfails

/-- **A turn fails while the content is settled**, or not at all. -/
theorem settle_of_place_fails {f : Failure} (h : Edit.Fails (place x s offset) d f d') :
    d' = d ∨ ∃ drawing, Edit.Fails (settle x s drawing offset) d f d' := by
  rw [place, Edit.fails_check_bind] at h
  obtain ⟨-, rfl⟩ | ⟨e, -, h⟩ := h
  · exact .inl rfl
  dsimp only at h
  obtain h | ⟨⟨wasRefreshed, done⟩, d₁, -, h⟩ := Edit.fails_bind.mp h
  · exact .inr ⟨_, h⟩
  · -- Writing the place and marking duplicates cannot fail.
    exfalso
    rw [Edit.fails_update_bind] at h
    obtain h | ⟨_, _, -, h⟩ := Edit.fails_bind.mp h
    · rw [markInstance, Edit.fails_read_bind, Edit.fails_update_bind] at h
      exact Edit.fails_pure h
    · exact Edit.fails_pure h

/-- Content is settled by refreshing or by keeping it, and it is the latter or the former
that fails. -/
theorem refresh_of_settle_fails {drawing : Option String} {f : Failure}
    (h : Edit.Fails (settle x s drawing offset) d f d') : d' = d ∨ ∃ name,
      Edit.Fails (refresh x s name offset) d f d' := by
  rw [settle, Edit.fails_read_bind] at h
  split at h
  · obtain h | ⟨_, _, -, h⟩ := Edit.fails_bind.mp h
    · exact .inr ⟨_, h⟩
    · exact absurd h Edit.fails_pure
  · obtain h | ⟨_, _, -, h⟩ := Edit.fails_bind.mp h
    · obtain ⟨_, h, -⟩ := Edit.fails_mapError.mp h
      exact .inl (reuse_fails h)
    · exact absurd h Edit.fails_pure

/-- **A turn that fails changes nothing.** -/
theorem place_fails {f : Failure} (hshelf : Identified x.shelf)
    (h : Edit.Fails (place x s offset) d f d') : d' = d := by
  obtain rfl | ⟨drawing, h⟩ := settle_of_place_fails h
  · rfl
  obtain rfl | ⟨name, h⟩ := refresh_of_settle_fails h
  · rfl
  · exact refresh_fails hshelf h

/-! ## All turns -/

/-- **The first turn that fails is the last one.** -/
theorem placeAll_fails {f : Failure} (hoffset : offset < UInt64.size)
    (h : Edit.Fails (placeAll x offset instances) d f d') :
    ∃ (placed : List Placed) (s : Slot) (rest : List Slot) (dₖ : Diagram),
      instances = placed.map Placed.slot ++ s :: rest ∧
      Edit.Runs (placeAll x offset (placed.map Placed.slot)) d placed dₖ ∧
      Edit.Fails (place x s (Word.count (offset + total placed))) dₖ f d' := by
  induction instances generalizing d offset with
  | nil => exact absurd h Edit.fails_pure
  | cons s instances ih =>
    rw [placeAll] at h
    obtain h | ⟨p, d₁, hplace, h⟩ := Edit.fails_bind.mp h
    · -- The turn of `s` fails, so nobody had a turn.
      refine ⟨[], s, instances, d, rfl, Edit.runs_pure.mpr ⟨rfl, rfl⟩, ?_⟩
      rw [show offset + total [] = offset from rfl, Word.count_of_lt hoffset]
      exact h
    · -- A later turn fails, and `s` comes before those that succeed.
      obtain h | ⟨_, _, -, h⟩ := Edit.fails_bind.mp h
      · obtain ⟨placed, t, rest, dₖ, rfl, hruns, hfails⟩ := ih (Word.count_lt _) h
        have hslot := slot_of_place hplace
        refine ⟨p :: placed, t, rest, dₖ, ?_, ?_, ?_⟩
        · rw [List.map_cons, hslot, List.cons_append]
        · rw [List.map_cons, hslot]
          exact placeAll_runs_cons.mpr ⟨p, placed, d₁, rfl, hplace, hruns⟩
        · rw [total_cons, ← Nat.add_assoc, ← Word.count_count_add]
          exact hfails
      · exact absurd h Edit.fails_pure

/-! ## Stitching -/

theorem leaves_drawSuperPort (p : SuperPort) : Edit.Leaves Draws (drawSuperPort naming c p) := by
  refine Edit.leaves_iff.mpr ⟨fun d u d' h => drawSuperPort_runs h, fun d f d' h => ?_⟩
  rw [drawSuperPort, Edit.fails_check_bind] at h
  obtain ⟨-, rfl⟩ | ⟨e, -, h⟩ := h
  · exact .refl d
  rw [Edit.fails_read_bind] at h
  obtain h | ⟨_, _, -, h⟩ := Edit.fails_bind.mp h
  · obtain ⟨-, rfl⟩ := Edit.fails_change.mp h
    exact .refl d
  · exact absurd h Edit.fails_pure

theorem leaves_drawNew (ports found : List SuperPort) :
    Edit.Leaves Draws (drawNew naming c ports found) := by
  induction found generalizing ports with
  | nil => exact fun d => .refl d
  | cons p found ih =>
    rw [drawNew]
    split
    · exact ih ports
    · exact (leaves_drawSuperPort p).bind (fun _ _ _ h h' => h.trans h') fun _ => ih _

/-- **However far the drawing of super-ports comes**, it leaves all else alone. -/
theorem leaves_stitchAll (ports : List SuperPort) (connectors : List Slot) :
    Edit.Leaves Draws (stitchAll naming placements ports connectors) := by
  have htrans : ∀ d d₁ d', Draws d d₁ → Draws d₁ d' → Draws d d' := fun _ _ _ h h' => h.trans h'
  induction connectors generalizing ports with
  | nil => exact fun d => .refl d
  | cons c connectors ih =>
    rw [stitchAll]
    refine Edit.Leaves.bind (fun d => .refl d) htrans fun joined => ?_
    cases joined with
    | none =>
      refine Edit.Leaves.bind (fun d => .refl d) htrans fun e => ?_
      exact Edit.Leaves.bind (fun d => .refl d) htrans fun _ => ih ports
    | some pair =>
      refine Edit.Leaves.bind (fun d => .refl d) htrans fun found => ?_
      exact (leaves_drawNew ports found).bind htrans fun later => ih later

/-- What stitching leaves when it fails. -/
theorem stitch_fails {f : Fault} (h : Edit.Fails (stitch naming placements top) d f d') :
    ∃ d₂, Discards d d₂ ∧ Draws d₂ d' := by
  rw [stitch, Edit.fails_read_bind, Edit.fails_read_bind] at h
  obtain h | ⟨orphaned, d₂, hdiscard, h⟩ := Edit.fails_bind.mp h
  · obtain ⟨h, -⟩ := Edit.fails_change.mp h
    cases h
  rw [Edit.runs_change, Except.ok.injEq] at hdiscard
  have hdiscards := discard_core? d
  rw [congrArg Prod.snd hdiscard] at hdiscards
  refine ⟨d₂, hdiscards, ?_⟩
  have hdraws : ∀ {ports connectors} {next : List SuperPort → Edit Fault Stitching},
      (∀ a d f d', ¬ Edit.Fails (next a) d f d') → Edit.Fails
        (stitchAll naming placements ports connectors >>= next) d₂ f d' → Draws d₂ d' := by
    intro ports connectors next hnext h
    obtain h | ⟨_, _, -, h⟩ := Edit.fails_bind.mp h
    · exact (Edit.leaves_iff.mp (leaves_stitchAll ports connectors)).2 d₂ f d' h
    · exact absurd h (hnext _ _ _ _)
  dsimp only at h
  -- The warning about orphans changes nothing.
  split at h
  · obtain h | ⟨_, _, hwarn, h⟩ := Edit.fails_bind.mp h
    · exact absurd h Edit.fails_warn
    · rw [← Edit.runs_warn.mp hwarn] at h
      exact hdraws (fun _ _ _ _ => Edit.fails_pure) h
  · exact hdraws (fun _ _ _ _ => Edit.fails_pure) h

/-- **Whichever way stitching comes out**, super-ports were discarded and drawn, and that is
all. -/
theorem stitch_leaves (naming : Naming) (placements : Placements) (top : Slot) (d : Diagram) :
    ∃ d₂, Discards d d₂ ∧ Draws d₂ ((stitch naming placements top).run d).diagram := by
  obtain ⟨r, d', h⟩ | ⟨f, d', h⟩ := Edit.runs_or_fails (stitch naming placements top) d
  · obtain ⟨d₂, hdiscards, hdraws, -⟩ := stitch_runs h
    exact ⟨d₂, hdiscards, h.2.symm ▸ hdraws⟩
  · obtain ⟨d₂, hdiscards, hdraws⟩ := stitch_fails h
    exact ⟨d₂, hdiscards, h.2.symm ▸ hdraws⟩

/-! ## The whole assembly -/

/-- A checked document with a super-network and its instances. -/
structure Found (d : Diagram) (top : Slot) (instances : List Slot) : Prop where
  valid : d.validate = .ok ()
  super : findSuperNetwork d = .ok top
  instances : findInstances d top = .ok instances

/-- **An assembly is over** before its instances are found, with a turn that fails, or when
all have had their turns. -/
theorem assemble_cases (x : Context) (d : Diagram) :
    ((∃ f, Edit.Fails (assemble x) d f d) ∧ ¬ ∃ top instances, Found d top instances) ∨
    ∃ top instances, Found d top instances ∧
      ((∃ f d', Edit.Fails (assemble x) d f d' ∧ Edit.Fails (placeAll x 0 instances) d f d') ∨
      ∃ placed dₖ, Edit.Runs (placeAll x 0 instances) d placed dₖ ∧
        ((assemble x).run d).diagram =
          ((stitch x.naming (placed.map Placed.placement) top).run dₖ).diagram) := by
  obtain ⟨A, d', h⟩ | ⟨f, d', h⟩ := Edit.runs_or_fails (assemble x) d
  · obtain ⟨hvalid, top, e, instances, placed, dₖ, stitching, hsuper, -, hinstances, hplace,
      hstitch, -⟩ := assemble_runs_iff.mp ⟨A, h, rfl⟩
    exact .inr ⟨top, instances, ⟨hvalid, hsuper, hinstances⟩,
      .inr ⟨placed, dₖ, hplace, h.2.trans hstitch.2.symm⟩⟩
  · -- The stages are gone along to the one that fails.
    have hfails := h
    rw [assemble, Edit.fails_mapError_check_bind] at h
    obtain ⟨e, he, -, rfl⟩ | ⟨_, hvalid, h⟩ := h
    · refine .inl ⟨⟨f, hfails⟩, ?_⟩
      rintro ⟨top, instances, hfound⟩
      cases he.symm.trans hfound.valid
    rw [Edit.fails_mapError_check_bind] at h
    obtain ⟨e, he, -, rfl⟩ | ⟨top, hsuper, h⟩ := h
    · refine .inl ⟨⟨f, hfails⟩, ?_⟩
      rintro ⟨top, instances, hfound⟩
      cases he.symm.trans hfound.super
    -- The super-network was found, so it can be looked up.
    obtain ⟨e, he, -⟩ := (findSuperNetwork_eq_ok.mp hsuper top).mpr rfl
    rw [Edit.fails_mapError_check_bind] at h
    obtain ⟨_, hlost, -⟩ | ⟨_, -, h⟩ := h
    · cases hlost.symm.trans (Diagram.fetch_eq_ok.mpr he)
    rw [Edit.fails_mapError_check_bind] at h
    obtain ⟨e, he, -, rfl⟩ | ⟨instances, hinstances, h⟩ := h
    · refine .inl ⟨⟨f, hfails⟩, ?_⟩
      rintro ⟨top', instances, hfound⟩
      obtain rfl : top = top' := Except.ok.inj (hsuper.symm.trans hfound.super)
      cases he.symm.trans hfound.instances
    refine .inr ⟨top, instances, ⟨hvalid, hsuper, hinstances⟩, ?_⟩
    obtain h | ⟨placed, dₖ, hplace, h⟩ := Edit.fails_bind.mp h
    · exact .inl ⟨f, d', hfails, h⟩
    · obtain h | ⟨_, _, -, h⟩ := Edit.fails_bind.mp h
      · obtain ⟨_, hstitch, -⟩ := Edit.fails_mapError.mp h
        exact .inr ⟨placed, dₖ, hplace, hfails.2.trans hstitch.2.symm⟩
      · exact absurd h Edit.fails_pure

/-- **An assembly is over at the first turn that fails**, and then it leaves what was there
when that turn began, or when all turns are taken. -/
theorem assemble_turns (d : Diagram) (hshelf : Identified x.shelf) :
    ((∃ f, Edit.Fails (assemble x) d f d) ∧ ¬ ∃ top instances, Found d top instances) ∨
    ∃ top placed later dₖ, Found d top (placed.map Placed.slot ++ later) ∧
      Edit.Runs (placeAll x 0 (placed.map Placed.slot)) d placed dₖ ∧
      ((∃ s rest f, later = s :: rest ∧ Edit.Fails (assemble x) d f dₖ ∧
          Edit.Fails (place x s (Word.count (total placed))) dₖ f dₖ) ∨
        (later = [] ∧ ((assemble x).run d).diagram =
          ((stitch x.naming (placed.map Placed.placement) top).run dₖ).diagram)) := by
  obtain hnone | ⟨top, instances, hfound, h⟩ := assemble_cases x d
  · exact .inl hnone
  refine .inr ?_
  obtain ⟨f, d', h, hfails⟩ | ⟨placed, dₖ, hplace, h⟩ := h
  · -- The turns before the one that failed are all the turns of a shorter list.
    obtain ⟨placed, s, rest, dₖ, rfl, hplace, hturn⟩ := placeAll_fails (by decide) hfails
    obtain rfl := place_fails hshelf hturn
    rw [Nat.zero_add] at hturn
    exact ⟨top, placed, s :: rest, d', hfound, hplace, .inl ⟨s, rest, f, rfl, h, hturn⟩⟩
  · have hslots := slots_of_placeAll hplace
    refine ⟨top, placed, [], dₖ, ?_, hslots.symm ▸ hplace, .inr ⟨rfl, h⟩⟩
    rw [hslots, List.append_nil]
    exact hfound

end Netlist.Assembly
