import Netlist.Build
import Netlist.CommandLine
import Netlist.Proofs.Assembly.Failing
import Netlist.Proofs.Assembly.Places
import Netlist.Proofs.Diagram.Distinct
import Netlist.Proofs.Document.Ranges

/-!
# What a build points at

A build that fails on a fault gives the text that the fault is to be shown in. That is the
text of the document, or of the drawing that was being compiled, and the place that is shown
is the range of a cell in this text.

- `faithful_ofTexts`, `faithful_shelfOf`: shelves that read their drawings from texts.
- `Faithful.pristine`, `Faithful.identified`: what all drawings of such a shelf have in common.
- `within_build`: the faults of a build, before they get the text of the document.
- `fails_refresh`: a drawing that does not compile fails with its own text.
- `places_of_buildText`: **the place that a fault shows is the range of the cell with the
  identity shown beside it, in the text that the fault carries.**
-/

namespace Netlist

open Diagram (root Traces)
open Netlist.Text (Span)
open Document (IsCellRange isCellRange_of_read)

variable {x : Assembly.Context} {origin d : Diagram}

/-! ## Shelves of texts -/

theorem Drawing.read_eq_ok {text : String} {drawing : Drawing} (h : Drawing.read text = .ok drawing) :
    Document.read drawing.text = .ok drawing.diagram := by
  rw [Drawing.read] at h
  split at h
  · rename_i hread
    cases h
    exact hread
  · cases h

theorem Drawing.read_ne_fault {text : String} {cause : Fault} {source : String} :
    Drawing.read text ≠ .error (.fault cause source) := by
  intro h
  rw [Drawing.read] at h
  split at h <;> cases h

theorem Drawing.map_read_ne_fault {text : String} {cause : Fault} {source : String} :
    (Drawing.read text).map some ≠ .error (.fault cause source) := by
  intro h
  cases hread : Drawing.read text with
  | ok drawing =>
    rw [hread] at h
    cases h
  | error f =>
    rw [hread] at h
    cases h
    exact Drawing.read_ne_fault hread

theorem Drawing.read_of_map {text : String} {drawing : Drawing}
    (h : (Drawing.read text).map some = .ok (some drawing)) :
    Document.read drawing.text = .ok drawing.diagram := by
  obtain ⟨found, hfound, heq⟩ := map_eq_ok.mp h
  cases heq
  exact Drawing.read_eq_ok hfound

theorem faithful_ofTexts (texts : List (String × String)) : Faithful (Shelf.ofTexts texts) where
  reads := by
    intro name drawing h
    rw [Shelf.ofTexts] at h
    split at h
    · cases h
    · exact Drawing.read_of_map h
  failures := by
    intro name cause source h
    rw [Shelf.ofTexts] at h
    split at h
    · cases h
    · exact Drawing.map_read_ne_fault h

/-- The drawings of a run of the program. -/
theorem faithful_shelfOf (found : List (String × Except FileError String)) :
    Faithful (CommandLine.shelfOf found) where
  reads := by
    intro name drawing h
    rw [CommandLine.shelfOf] at h
    split at h
    · cases h
    · exact Drawing.read_of_map h
    · cases h
    · cases h
  failures := by
    intro name cause source h
    rw [CommandLine.shelfOf] at h
    split at h
    · cases h
    · exact Drawing.map_read_ne_fault h
    · cases h
    · cases h

/-- **All drawings of a faithful shelf are as they were read.** -/
theorem Faithful.pristine {shelf : Shelf} {name : String} {drawing : Drawing}
    (h : Faithful shelf) (hload : shelf name = .ok (some drawing)) : drawing.diagram.Pristine :=
  Document.read_pristine (h.reads name drawing hload)

/-- So their identities tell their elements apart. -/
theorem Faithful.identified {shelf : Shelf} (h : Faithful shelf) : Assembly.Identified shelf :=
  fun name drawing hload => Document.read_distinct (h.reads name drawing hload)

/-- The empty text is no document. -/
theorem Document.read_empty_ne_ok : Document.read "" ≠ .ok d := by
  intro h
  have hxml : (Xml.read "").toOption = none := by cbv
  obtain ⟨top, _, htop, -⟩ := Document.exists_root_of_read h
  rw [htop] at hxml
  cases hxml

/-! ## Builds -/

theorem within_build (hshelf : Faithful x.shelf) (h : origin.Traces d) :
    Edit.Within origin.Traces (Failure.ComesFrom x origin) d (build x) := by
  rw [build]
  refine .read_bind ?_
  split
  · exact (within_assemble hshelf h).bind_pure
  · exact (within_ofFault (Compilation.within_compile h)).bind_pure

/-- A place that is shown of a document that was read is the range of a cell. -/
theorem isCellRange_of_comesFrom {source : String} {cause : Fault} {l : Locator} {s : Span}
    (hread : Document.read source = .ok origin) (h : cause.ComesFrom origin)
    (hl : (Failure.fault cause source).element? = some l) (hs : l.span = some s) :
    IsCellRange source l.id s := by
  cases cause with
  | absent slot => cases hl
  | violation v =>
    obtain ⟨i, e, he, hid, hspan⟩ := h v l rfl hl s hs
    exact hid ▸ isCellRange_of_read hread he hspan

theorem Failure.withSource_empty {text : String} {cause : Fault} :
    (Failure.fault cause "").withSource text = .fault cause text := by
  simp [Failure.withSource]

/-- A text that is there stays. -/
theorem Failure.withSource_of_ne {text source : String} {cause : Fault} (h : source ≠ "") :
    (Failure.fault cause source).withSource text = .fault cause source := by
  simp [Failure.withSource, h]

/-- Only faults become faults when they get a text. -/
theorem Failure.withSource_eq_fault {f : Failure} {text source : String} {cause : Fault}
    (h : f.withSource text = .fault cause source) :
    f = .fault cause "" ∧ source = text ∨ f = .fault cause source ∧ source ≠ "" := by
  cases f with
  | fault cause' source' =>
    by_cases hempty : source' = ""
    · subst hempty
      cases withSource_empty.symm.trans h
      exact .inl ⟨rfl, rfl⟩
    · cases (withSource_of_ne hempty).symm.trans h
      exact .inr ⟨rfl, hempty⟩
  | io => cases h
  | config => cases h
  | document => cases h

/-- A drawing that fails to compile fails the refresh, with its own text. -/
theorem fails_refresh {subnet : Slot} {name : String} {offset : Nat} {owner : Locator}
    {drawing : Drawing} {cause : Fault}
    (howner : (d.fetch subnet).map Element.locator = .ok owner)
    (hdrawing : Assembly.loadDrawing x.shelf name owner = .ok drawing)
    (hcause : ((compile x.catalog x.switches root).run drawing.diagram).result = .error cause) :
    Edit.Fails (Assembly.refresh x subnet name offset) d (.fault cause drawing.text) d := by
  rw [Assembly.refresh, Assembly.refreshVisiting]
  refine Edit.fails_check_bind.mpr (.inr ⟨owner, mapError_eq_ok.mpr howner, ?_⟩)
  refine Edit.fails_check_bind.mpr (.inr ⟨drawing, hdrawing, Edit.fails_bind.mpr (.inl ?_)⟩)
  exact Edit.fails_mapError.mpr ⟨cause, Edit.fails_elsewhere.mpr ⟨⟨_, hcause, rfl⟩, rfl⟩, rfl⟩

/-- What a build of a text fails with. -/
theorem buildText_eq_fault {text source : String} {cause : Fault}
    (h : (buildText x text).result = .error (.fault cause source)) :
    ∃ d, Document.read text = .ok d ∧
      (((build x).run d).result = .error (.fault cause "") ∧ source = text ∨
        ((build x).run d).result = .error (.fault cause source) ∧ source ≠ "") := by
  rw [buildText] at h
  split at h
  · cases h
  · rename_i d hread
    refine ⟨d, hread, ?_⟩
    dsimp only at h
    cases hresult : ((build x).run d).result with
    | ok model =>
      rw [hresult] at h
      cases h
    | error f =>
      rw [hresult] at h
      rcases Failure.withSource_eq_fault (Except.error.inj h) with ⟨rfl, hs⟩ | ⟨rfl, hs⟩
      · exact .inl ⟨rfl, hs⟩
      · exact .inr ⟨rfl, hs⟩

/-- **The place that a fault shows is the range of the cell with the identity shown beside it**,
in the text of the document or in that of the drawing that did not compile. Elements that a
build makes have no place, and those that it leaves have the range of their own cell. A
refresh whose drawing does not compile fails with the text of this drawing, which no later
step takes for the document. -/
theorem places_of_buildText (hshelf : Faithful x.shelf) (text : String) :
    (∀ cause source l s, (buildText x text).result = .error (.fault cause source) →
      (Failure.fault cause source).element? = some l → l.span = some s →
      IsCellRange source l.id s ∧ (source = text ∨
        ∃ name drawing, x.shelf name = .ok (some drawing) ∧ source = drawing.text ∧
          ((compile x.catalog x.switches root).run drawing.diagram).result = .error cause)) ∧
    (∀ d, Document.read text = .ok d → ∀ i e, ((build x).run d).diagram.get? i = some e →
      (d.bound ≤ i → e.span = none) ∧ ∀ s, e.span = some s → IsCellRange text e.id s) ∧
    (∀ d subnet name offset owner drawing cause, (d.fetch subnet).map Element.locator = .ok owner →
      Assembly.loadDrawing x.shelf name owner = .ok drawing →
      ((compile x.catalog x.switches root).run drawing.diagram).result = .error cause →
      ((Assembly.refresh x subnet name offset).run d).result =
          .error (.fault cause drawing.text) ∧
        (Failure.fault cause drawing.text).withSource text = .fault cause drawing.text) := by
  refine ⟨fun cause source l s hresult hl hs => ?_, fun d hread i e he => ?_, ?_⟩
  · obtain ⟨d, hread, hfails⟩ := buildText_eq_fault hresult
    have hblames := (within_build hshelf (Traces.refl d)).blames
    -- A fault without a text has its place in the document, any other in the drawing it names.
    rcases hfails with ⟨hfails, rfl⟩ | ⟨hfails, hne⟩
    · rcases hblames _ hfails cause "" rfl with ⟨-, hcause⟩ | ⟨name, drawing, hload, hempty, -⟩
      · exact ⟨isCellRange_of_comesFrom hread hcause hl hs, .inl rfl⟩
      · exact absurd (hempty ▸ hshelf.reads name drawing hload) Document.read_empty_ne_ok
    · rcases hblames _ hfails cause source rfl with ⟨hempty, -⟩ | ⟨name, drawing, hload, rfl, hcompile⟩
      · exact absurd hempty hne
      · have hcause := (Compilation.within_compile (Traces.refl drawing.diagram)).blames cause hcompile
        exact ⟨isCellRange_of_comesFrom (hshelf.reads name drawing hload) hcause hl hs,
          .inr ⟨name, drawing, hload, rfl, hcompile⟩⟩
  · have htraces := (within_build hshelf (Traces.refl d)).leaves
    refine ⟨fun hi => ?_, fun s hs => ?_⟩
    · cases hspan : e.span with
      | none => rfl
      | some s =>
        obtain ⟨e₀, he₀, -⟩ := htraces i e s he hspan
        cases he₀.symm.trans (Diagram.get?_of_bound_le hi)
    · obtain ⟨e₀, he₀, hid, hspan⟩ := htraces i e s he hs
      exact hid ▸ isCellRange_of_read hread he₀ hspan
  · intro d subnet name offset owner drawing cause howner hdrawing hcause
    have hne : drawing.text ≠ "" := by
      intro hempty
      have hread := hshelf.reads name drawing (Assembly.loadDrawing_eq_ok hdrawing)
      exact Document.read_empty_ne_ok (hempty ▸ hread)
    exact ⟨(fails_refresh howner hdrawing hcause).1, Failure.withSource_of_ne hne⟩

/-- A network without nodes. -/
def hollowText : String :=
  "<mxGraphModel><root><object id='n'><tag type='Network' subtype='Sub'/></object></root></mxGraphModel>"

/-- A super-network with one instance of that network. -/
def hollowTown : String :=
  "<mxGraphModel><root><object id='t'><tag type='Network' subtype='Super'/></object><object id='s' drawing='c'><tag type='Network' subtype='Sub'/><mxCell parent='t'/></object></root></mxGraphModel>"

def hollowTownDiagram : Diagram := ⟨#[
  some { id := Diagram.rootId, role := .root },
  some { id := "t", role := .network .super, parent := some 0, span := some ⟨20, 81, by decide⟩ },
  some { id := "s", role := .network .sub, parent := some 1, fields := Fields.ofList [("drawing", "c")],
         span := some ⟨81, 172, by decide⟩ }]⟩

set_option maxRecDepth 8000 in
theorem read_hollowTown : Document.read hollowTown = .ok hollowTownDiagram := by
  -- a text is its characters, which need not be decoded from its bytes again
  have hchars : hollowTown.toList = _ := String.toList_ofList
  rw [Document.read, Xml.read, hchars]
  cbv

def hollowContext : Assembly.Context where
  catalog := ⟨[]⟩
  switches := {}
  assembly := {}
  shelf := Shelf.ofTexts [("c", hollowText)]
  naming := fun slot => toString slot

/-- The network of the drawing, with its place there. -/
def hollowNetwork : Locator := ⟨"n", "", some ⟨20, 79, by decide⟩⟩

theorem build_hollowTown : ((build hollowContext).run hollowTownDiagram).result =
    .error (.fault (.topology (some hollowNetwork) .noNumberedNodes) hollowText) := by
  cbv

/-- The network of the drawing has no numbered nodes, and its cell is shown in the drawing. -/
theorem places_of_buildText_hollowTown :
    (buildText hollowContext hollowTown).result =
        .error (.fault (.topology (some hollowNetwork) .noNumberedNodes) hollowText) ∧
      IsCellRange hollowText "n" ⟨20, 79, by decide⟩ := by
  have hresult : (buildText hollowContext hollowTown).result =
      .error (.fault (.topology (some hollowNetwork) .noNumberedNodes) hollowText) := by
    rw [buildText, read_hollowTown]
    dsimp only
    rw [build_hollowTown]
    exact congrArg Except.error (Failure.withSource_of_ne (by decide))
  exact ⟨hresult,
    ((places_of_buildText (faithful_ofTexts _) hollowTown).1 _ _ hollowNetwork _ hresult rfl rfl).1⟩

end Netlist
