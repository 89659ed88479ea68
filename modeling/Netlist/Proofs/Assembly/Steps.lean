import Netlist.Assembly
import Netlist.Proofs.Edit.Runs
import Netlist.Proofs.Word

/-!
# The steps of a turn

A turn of an instance is a chain of steps. Here each chain is written out once, as
what it takes for the whole to succeed with a certain outcome, so that a later
argument can go along the steps, or build a turn from them.

- `refreshVisiting_runs_iff`: loading, compiling, clearing, importing and rebinding, with the
  copies visited in any order.
- `reuse_runs_iff`: reading the fields, and moving the numbers.
- `settle_runs_iff`: **an instance is refreshed if it names a drawing and either
  has no content or is wanted to be refreshed**, and keeps its content otherwise.
- `place_runs_iff`, `placeAll_runs_cons`: a whole turn, and one turn after the other.
- `chained_of_placeAll`: **the blocks of numbers follow each other.**
- `assemble_runs_iff`: **an assembly is all turns and stitching.**
-/

namespace Netlist.Assembly

variable {x : Context} {d d' : Diagram} {s : Slot} {offset : Nat}

/-! ## Refreshing -/

/-- The owner of a drawing is the instance. -/
theorem owner_eq_ok {owner : Locator} :
    ((d.fetch s).map Element.locator).mapError Failure.ofFault = .ok owner ↔
      ∃ e, d.get? s = some e ∧ e.locator = owner := by
  rw [mapError_eq_ok]
  cases hfetch : d.fetch s with
  | error e =>
    constructor
    · intro h
      cases h
    · rintro ⟨e', he', -⟩
      rw [Diagram.fetch_eq_ok.mpr he'] at hfetch
      cases hfetch
  | ok e =>
    constructor
    · intro h
      exact ⟨e, Diagram.fetch_eq_ok.mp hfetch, Except.ok.inj h⟩
    · rintro ⟨e', he', rfl⟩
      rw [Diagram.fetch_eq_ok.mpr he'] at hfetch
      cases hfetch
      rfl

/-- A drawing that is loaded is on the shelf. -/
theorem loadDrawing_eq_ok {shelf : Shelf} {name : String} {owner : Locator} {drawing : Drawing}
    (h : loadDrawing shelf name owner = .ok drawing) : shelf name = .ok (some drawing) := by
  rw [loadDrawing] at h
  split at h
  · cases h
  · cases h
  · rename_i found hfound
    split at h
    · cases h
    · cases h
      exact hfound

/-- **Refreshing** loads and compiles the drawing, clears the instance, imports what
was compiled and attaches the connectors again. -/
theorem refreshVisiting_runs_iff {visit : List (Slot × Slot) → List (Slot × Slot)} {c : Catalog}
    {switches : Switches} {shelf : Shelf} {naming : Naming} {name : String} {done : Refreshed} :
    Edit.Runs (refreshVisiting visit c switches shelf naming s name offset) d done d' ↔
      ∃ e drawing compiled diagram d₁, d.get? s = some e ∧
        loadDrawing shelf name e.locator = .ok drawing ∧
        Edit.Runs (compile c switches Diagram.root) drawing.diagram compiled diagram ∧
        Edit.Runs (importVisiting visit naming s e.locator diagram compiled.topology
          (distinct diagram compiled.topology.interfaces) offset) (clear s d) () d₁ ∧
        Edit.Runs (rebindAll s (looseEndsAt d s)) d₁ () d' ∧
        done = ⟨compiled.topology.nodeCount, compiled.topology.interfaces.length -
          (distinct diagram compiled.topology.interfaces).length,
          compiled.reconciliation.changeCount⟩ := by
  rw [refreshVisiting, Edit.runs_check_bind]
  constructor
  · rintro ⟨owner, hfound, h⟩
    obtain ⟨e, he, rfl⟩ := owner_eq_ok.mp hfound
    obtain ⟨drawing, hload, h⟩ := Edit.runs_check_bind.mp h
    rw [Edit.runs_bind] at h
    obtain ⟨⟨compiled, diagram⟩, _, hcompile, h⟩ := h
    rw [Edit.runs_mapError, Edit.runs_elsewhere] at hcompile
    obtain ⟨hcompile, rfl⟩ := hcompile
    rw [Edit.runs_read_bind] at h
    rw [Edit.runs_update_bind] at h
    dsimp only at h hcompile
    rw [Edit.runs_bind] at h
    obtain ⟨_, d₁, himport, h⟩ := h
    rw [Edit.runs_bind] at h
    obtain ⟨_, d₂, hrebind, h⟩ := h
    obtain ⟨rfl, rfl⟩ := Edit.runs_pure.mp h
    exact ⟨e, drawing, compiled, diagram, d₁, he, hload, hcompile, himport, hrebind, rfl⟩
  · rintro ⟨e, drawing, compiled, diagram, d₁, he, hload, hcompile, himport, hrebind, rfl⟩
    refine ⟨_, owner_eq_ok.mpr ⟨e, he, rfl⟩, Edit.runs_check_bind.mpr ⟨drawing, hload, ?_⟩⟩
    rw [Edit.runs_bind]
    refine ⟨(compiled, diagram), d,
      Edit.runs_mapError.mpr (Edit.runs_elsewhere.mpr ⟨hcompile, rfl⟩), ?_⟩
    rw [Edit.runs_read_bind]
    rw [Edit.runs_update_bind]
    rw [Edit.runs_bind]
    refine ⟨(), d₁, himport, ?_⟩
    rw [Edit.runs_bind]
    exact ⟨(), d', hrebind, Edit.runs_pure.mpr ⟨rfl, rfl⟩⟩

theorem importVisiting_runs_iff {visit : List (Slot × Slot) → List (Slot × Slot)} {naming : Naming}
    {owner : Locator} {drawing : Diagram} {t : Topology} {interfaces : List Slot} {u : Unit} :
    Edit.Runs (importVisiting visit naming s owner drawing t interfaces offset) d u d' ↔
      ∃ copies d₁, Edit.Runs (copyAll naming s owner drawing .empty (members drawing t interfaces))
        d copies d₁ ∧
        d' = shiftAll (Word.signed offset) ((visit copies).map Prod.snd)
          (relinkAll drawing s copies (visit copies) d₁) := by
  rw [importVisiting, Edit.runs_bind]
  constructor
  · rintro ⟨copies, d₁, hcopy, h⟩
    rw [Edit.runs_update_bind, Edit.runs_update] at h
    exact ⟨copies, d₁, hcopy, h.symm⟩
  · rintro ⟨copies, d₁, hcopy, rfl⟩
    refine ⟨copies, d₁, hcopy, ?_⟩
    rw [Edit.runs_update_bind, Edit.runs_update]

/-! ## Keeping content -/

/-- The way from one place to another is a difference of words. -/
theorem displacement_eq (offset : Nat) (start : Int) :
    displacement offset start = Word.signed (offset - start) :=
  Word.signed_sub_signed offset start

theorem displacement_self (offset : Nat) : displacement offset offset = 0 := by
  rw [displacement_eq, Int.sub_self, Word.signed_of_fits (by decide)]

/-- The content of an instance, moved by a difference. -/
def moved (delta : Int) (s : Slot) (d : Diagram) : Diagram :=
  if delta ≠ 0 then shiftAll delta (d.descendants s) d else d

/-- **Keeping content** reads two fields of the instance and moves its numbers. -/
theorem reuse_runs_iff {nodeCount : Nat} : Edit.Runs (reuse s offset) d nodeCount d' ↔
    ∃ e recordedOffset recorded, d.get? s = some e ∧
      integerField e offsetField = .ok recordedOffset ∧ recordedCount e = .ok recorded ∧
      nodeCount = recorded.getD
        ((d.descendants s).countP fun i => (d.get? i).any Element.isNumberedNode) ∧
      d' = moved (displacement offset (recordedOffset.getD 0)) s d := by
  have hmove : ∀ (delta : Int) (n : Nat), Edit.Runs
      (if delta ≠ 0 then do
        Edit.update (shiftAll delta (d.descendants s))
        pure n
      else pure n : Edit Fault Nat) d nodeCount d' ↔ n = nodeCount ∧ moved delta s d = d' := by
    intro delta n
    rw [moved]
    split
    · rw [Edit.runs_update_bind, Edit.runs_pure]
    · rw [Edit.runs_pure]
  rw [reuse, Edit.runs_check_bind]
  constructor
  · rintro ⟨e, he, h⟩
    rw [Edit.runs_read_bind] at h
    obtain ⟨recordedOffset, hoffset, h⟩ := Edit.runs_check_bind.mp h
    obtain ⟨recorded, hrecorded, h⟩ := Edit.runs_check_bind.mp h
    rw [Edit.runs_read_bind] at h
    obtain ⟨rfl, rfl⟩ : recorded.getD ((d.descendants s).countP fun i =>
        (d.get? i).any Element.isNumberedNode) = nodeCount ∧
        moved (displacement offset (recordedOffset.getD 0)) s d = d' := by
      dsimp only at h
      split at h
      · rw [Edit.runs_warn_bind] at h
        exact (hmove _ _).mp h
      · exact (hmove _ _).mp h
    exact ⟨e, recordedOffset, recorded, Diagram.fetch_eq_ok.mp he, hoffset, hrecorded, rfl, rfl⟩
  · rintro ⟨e, recordedOffset, recorded, he, hoffset, hrecorded, rfl, rfl⟩
    refine ⟨e, Diagram.fetch_eq_ok.mpr he, ?_⟩
    rw [Edit.runs_read_bind]
    refine Edit.runs_check_bind.mpr ⟨recordedOffset, hoffset, ?_⟩
    refine Edit.runs_check_bind.mpr ⟨recorded, hrecorded, ?_⟩
    rw [Edit.runs_read_bind]
    dsimp only
    split
    · rw [Edit.runs_warn_bind]
      exact (hmove _ _).mpr ⟨rfl, rfl⟩
    · exact (hmove _ _).mpr ⟨rfl, rfl⟩

/-! ## The whole turn -/

/-- The drawing that an instance is refreshed from, if it is. -/
def refreshedFrom (x : Context) (d : Diagram) (s : Slot) (drawing : Option String) : Option String :=
  drawing.filter fun _ => x.assembly.refresh || (d.children s).isEmpty

/-- **An instance is refreshed** if it names a drawing and either has no content or is
wanted to be refreshed, **and keeps its content otherwise.** -/
theorem settle_runs_iff {drawing : Option String} {done : Bool × Refreshed} :
    Edit.Runs (settle x s drawing offset) d done d' ↔
      match refreshedFrom x d s drawing with
      | some name => done.1 = true ∧
        Edit.Runs (refresh x s name offset) d done.2 d'
      | none => ∃ nodeCount, done = (false, ⟨nodeCount, 0, 0⟩) ∧
        Edit.Runs (reuse s offset) d nodeCount d' := by
  rw [settle, Edit.runs_read_bind]
  have hfrom : (drawing.filter fun _ => x.assembly.refresh || !!(d.children s).isEmpty) =
      refreshedFrom x d s drawing := by
    rw [refreshedFrom]
    simp only [Bool.not_not]
  rw [hfrom]
  cases refreshedFrom x d s drawing with
  | some name =>
    dsimp only
    rw [Edit.runs_bind]
    constructor
    · rintro ⟨refreshed, d₁, hrefresh, h⟩
      obtain ⟨rfl, rfl⟩ := Edit.runs_pure.mp h
      exact ⟨rfl, hrefresh⟩
    · rintro ⟨hwas, hrefresh⟩
      exact ⟨done.2, d', hrefresh, Edit.runs_pure.mpr ⟨Prod.ext hwas.symm rfl, rfl⟩⟩
  | none =>
    dsimp only
    rw [Edit.runs_bind]
    constructor
    · rintro ⟨nodeCount, d₁, hreuse, h⟩
      obtain ⟨rfl, rfl⟩ := Edit.runs_pure.mp h
      exact ⟨nodeCount, rfl, Edit.runs_mapError.mp hreuse⟩
    · rintro ⟨nodeCount, rfl, hreuse⟩
      exact ⟨nodeCount, d', Edit.runs_mapError.mpr hreuse, Edit.runs_pure.mpr ⟨rfl, rfl⟩⟩

/-- The diagram after an instance is marked. -/
def marked (s : Slot) (d : Diagram) : Diagram :=
  markDuplicates (duplicates d (interfacesIn d s)) d

theorem markInstance_runs_iff {count : Nat} : Edit.Runs (markInstance s) d count d' ↔
    (duplicates d (interfacesIn d s)).length = count ∧ marked s d = d' := by
  rw [markInstance, Edit.runs_read_bind]
  rw [Edit.runs_update_bind, Edit.runs_pure]
  rfl

/-- **A turn** settles the content, writes the place into the fields and marks the
duplicates. -/
theorem place_runs_iff {p : Placed} : Edit.Runs (place x s offset) d p d' ↔
    ∃ e wasRefreshed done d₁ d₂, d.get? s = some e ∧
      Edit.Runs (settle x s (e.fields.get? drawingField) offset) d (wasRefreshed, done) d₁ ∧
      d₂ = d₁.modify s (withPlace offset done.nodeCount) ∧ d' = marked s d₂ ∧
      p = ⟨s, ⟨e.displayName, e.fields.get? drawingField, offset, done.nodeCount⟩, wasRefreshed,
        done.duplicates + (duplicates d₂ (interfacesIn d₂ s)).length, done.reconciled⟩ := by
  rw [place, Edit.runs_check_bind]
  constructor
  · rintro ⟨e, he, h⟩
    dsimp only at h
    rw [Edit.runs_bind] at h
    obtain ⟨⟨wasRefreshed, done⟩, d₁, hsettle, h⟩ := h
    rw [Edit.runs_update_bind] at h
    rw [Edit.runs_bind] at h
    obtain ⟨count, d₂, hmark, h⟩ := h
    obtain ⟨rfl, rfl⟩ := Edit.runs_pure.mp h
    obtain ⟨rfl, rfl⟩ := markInstance_runs_iff.mp hmark
    exact ⟨e, wasRefreshed, done, d₁, _, Diagram.fetch_eq_ok.mp (mapError_eq_ok.mp he), hsettle,
      rfl, rfl, rfl⟩
  · rintro ⟨e, wasRefreshed, done, d₁, d₂, he, hsettle, rfl, rfl, rfl⟩
    refine ⟨e, mapError_eq_ok.mpr (Diagram.fetch_eq_ok.mpr he), ?_⟩
    dsimp only
    rw [Edit.runs_bind]
    refine ⟨(wasRefreshed, done), d₁, hsettle, ?_⟩
    rw [Edit.runs_update_bind]
    rw [Edit.runs_bind]
    exact ⟨_, _, markInstance_runs_iff.mpr ⟨rfl, rfl⟩, Edit.runs_pure.mpr ⟨rfl, rfl⟩⟩

/-- A turn tells whose it was. -/
theorem slot_of_place {p : Placed} (h : Edit.Runs (place x s offset) d p d') : p.slot = s := by
  obtain ⟨_, _, _, _, _, -, -, -, -, rfl⟩ := place_runs_iff.mp h
  rfl

/-- One turn after the other. -/
theorem placeAll_runs_cons {instances : List Slot} {placed : List Placed} :
    Edit.Runs (placeAll x offset (s :: instances)) d placed d' ↔
      ∃ p later d₁, placed = p :: later ∧ Edit.Runs (place x s offset) d p d₁ ∧
        Edit.Runs (placeAll x (Word.count (offset + p.subnet.nodeCount)) instances) d₁ later d' := by
  rw [placeAll, Edit.runs_bind]
  constructor
  · rintro ⟨p, d₁, hplace, h⟩
    rw [Edit.runs_bind] at h
    obtain ⟨later, d₂, hlater, h⟩ := h
    obtain ⟨rfl, rfl⟩ := Edit.runs_pure.mp h
    exact ⟨p, later, d₁, rfl, hplace, hlater⟩
  · rintro ⟨p, later, d₁, rfl, hplace, hlater⟩
    refine ⟨p, d₁, hplace, ?_⟩
    rw [Edit.runs_bind]
    exact ⟨later, d', hlater, Edit.runs_pure.mpr ⟨rfl, rfl⟩⟩

/-- The nodes of all instances. -/
def total (placed : List Placed) : Nat := (placed.map fun p => p.subnet.nodeCount).sum

theorem total_cons (p : Placed) (placed : List Placed) :
    total (p :: placed) = p.subnet.nodeCount + total placed := by
  rw [total, List.map_cons, List.sum_cons, total]

/-- Instances whose blocks of numbers follow each other, as far as a word goes. -/
def Chained : Nat → List Placed → Prop
  | _, [] => True
  | offset, p :: placed =>
    p.subnet.offset = offset ∧ Chained (Word.count (offset + p.subnet.nodeCount)) placed

/-- **The blocks of numbers of instances follow each other.** -/
theorem chained_of_placeAll {instances : List Slot} {placed : List Placed}
    (h : Edit.Runs (placeAll x offset instances) d placed d') : Chained offset placed := by
  induction instances generalizing d offset placed with
  | nil =>
    obtain ⟨rfl, -⟩ := Edit.runs_pure.mp h
    trivial
  | cons s instances ih =>
    obtain ⟨p, later, d₁, rfl, hplace, hlater⟩ := placeAll_runs_cons.mp h
    obtain ⟨e, was, done, d₂, d₃, -, -, -, -, rfl⟩ := place_runs_iff.mp hplace
    exact ⟨rfl, ih hlater⟩

/-! ## The whole assembly -/

/-- A super-network of its element, its instances and what was stitched. -/
def networkOf (e : Element) (placed : List Placed) (superPorts : List SuperPort) :
    SuperNetwork where
  name := e.displayName
  nodeCount := Word.count (total placed)
  subnets := placed.map Placed.subnet
  superPorts := superPorts

/-- **An assembly** finds the super-network and its instances, has all turns and stitches. -/
theorem assemble_runs_iff {network : SuperNetwork} :
    (∃ A, Edit.Runs (assemble x) d A d' ∧ A.network = network) ↔
      d.validate = .ok () ∧ ∃ top e instances placed d₁ stitching, findSuperNetwork d = .ok top ∧
        d.get? top = some e ∧ findInstances d top = .ok instances ∧
        Edit.Runs (placeAll x 0 instances) d placed d₁ ∧
        Edit.Runs (stitch x.naming (placed.map Placed.placement) top) d₁ stitching d' ∧
        networkOf e placed stitching.superPorts = network := by
  constructor
  · rintro ⟨A, h, rfl⟩
    rw [assemble] at h
    obtain ⟨_, hvalid, h⟩ := Edit.runs_mapError_check_bind.mp h
    obtain ⟨top, hsuper, h⟩ := Edit.runs_mapError_check_bind.mp h
    obtain ⟨e, he, h⟩ := Edit.runs_mapError_check_bind.mp h
    obtain ⟨instances, hinstances, h⟩ := Edit.runs_mapError_check_bind.mp h
    rw [Edit.runs_bind] at h
    obtain ⟨placed, d₁, hplace, h⟩ := h
    rw [Edit.runs_bind] at h
    obtain ⟨stitching, d₂, hstitch, h⟩ := h
    rw [Edit.runs_mapError] at hstitch
    obtain ⟨rfl, rfl⟩ := Edit.runs_pure.mp h
    exact ⟨hvalid, top, e, instances, placed, d₁, stitching, hsuper, Diagram.fetch_eq_ok.mp he,
      hinstances, hplace, hstitch, rfl⟩
  · rintro ⟨hvalid, top, e, instances, placed, d₁, stitching, hsuper, he, hinstances, hplace,
      hstitch, rfl⟩
    rw [assemble]
    refine ⟨_, Edit.runs_mapError_check_bind.mpr ⟨(), hvalid,
      Edit.runs_mapError_check_bind.mpr ⟨top, hsuper,
        Edit.runs_mapError_check_bind.mpr ⟨e, Diagram.fetch_eq_ok.mpr he,
          Edit.runs_mapError_check_bind.mpr ⟨instances, hinstances,
            Edit.runs_bind.mpr ⟨placed, d₁, hplace,
              Edit.runs_bind.mpr ⟨stitching, d', Edit.runs_mapError.mpr hstitch,
                Edit.runs_pure.mpr ⟨rfl, rfl⟩⟩⟩⟩⟩⟩⟩, rfl⟩

end Netlist.Assembly
