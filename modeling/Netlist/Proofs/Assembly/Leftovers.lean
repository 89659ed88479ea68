import Netlist.Proofs.Assembly.Rebinding
import Netlist.Proofs.Assembly.Steps
import Netlist.Proofs.Assembly.SuperPorts

/-!
# What an import leaves

A refresh copies a compiled drawing into an instance and takes away the copies of
elements with an end that is not copied. They are taken away one by one, without
what is in them, and while other copies may be attached to them. So what is left is
not always a tree under the instance: what was in a broken copy hangs in the air, and
no later refresh finds it there.

- `Broken`, `Upright`: originals that lack an end, and those with no such original
  around them.
- `Leaves`: every copy as it is left, and which ones are in the instance.
- `refresh_leaves`: **the copies that are left are well-formed, unless an element that
  is copied lies in a broken one or is attached to it**; and exactly the copies that
  lie in a broken one survive the next refresh.
-/

namespace Netlist.Assembly

open Diagram (root)

variable {d d₁ d₂ d' : Diagram} {m : Import} {s o p a c : Slot} {drawn e : Element} {offset : Nat}
  {visit : List (Slot × Slot) → List (Slot × Slot)}

/-! ## Originals -/

/-- An import as it is made: the drawing of a name was compiled, and its members are
copied into new slots, one after the other. -/
structure Made (catalog : Catalog) (switches : Switches) (shelf : Shelf) (name : String)
    (d : Diagram) (m : Import) : Prop where
  drawing : shelf name = .ok (some m.drawing)
  compiles : Edit.Runs (compile catalog switches root) m.drawing.diagram m.compiled m.diagram
  originals : m.copies.map Prod.fst =
    members m.diagram m.compiled.topology (distinct m.diagram m.compiled.topology.interfaces)
  slots : m.copies.map Prod.snd = List.range' d.bound m.copies.length
  drawn : ∀ o c, (o, c) ∈ m.copies → ∃ drawn, m.diagram.get? o = some drawn

/-- An original with an end that is not copied. -/
def Broken (m : Import) (o : Slot) : Prop := (m.diagram.get? o).any (isBroken m.copies) = true

/-- An original that is not broken, in nothing but such originals as far as they are
copied. -/
inductive Upright (m : Import) : Slot → Prop
  | top {o : Slot} {drawn : Element} (here : m.diagram.get? o = some drawn) (whole : ¬ Broken m o)
      (alone : copyOf? m.copies drawn.parent = none) : Upright m o
  | under {o p : Slot} {drawn : Element} (here : m.diagram.get? o = some drawn)
      (whole : ¬ Broken m o) (parent : drawn.parent = some p) (copied : p ∈ m.copies.map Prod.fst)
      (around : Upright m p) : Upright m o

theorem broken_iff (h : m.diagram.get? o = some drawn) :
    Broken m o ↔ isBroken m.copies drawn = true := by
  rw [Broken, h, Option.any_some]

/-! ## What is left -/

/-- Every copy as it is left: a broken one is gone, any other one has its parts from its
original and has lost no ends but some at broken ones. It is in the instance if its
original is upright, and otherwise it stays when the instance is cleared. -/
structure Leaves (m : Import) (s : Slot) (offset : Nat) (d : Diagram) : Prop where
  gone : ∀ o c, (o, c) ∈ m.copies → Broken m o → d.get? c = none
  left : ∀ o c, (o, c) ∈ m.copies → ¬ Broken m o → ∃ drawn e cut, m.diagram.get? o = some drawn ∧
    d.get? c = some e ∧ CopyAt m.copies s offset cut drawn e ∧
    ∀ a ∈ cut, ∃ p, (p, a) ∈ m.copies ∧ Broken m p
  inside : ∀ o c, (o, c) ∈ m.copies → (d.Inside c s ↔ Upright m o)
  cleared : ∀ o c, (o, c) ∈ m.copies → ((clear s d).get? c = none ↔ Broken m o ∨ Upright m o)

theorem Made.nodup {catalog : Catalog} {switches : Switches} {shelf : Shelf} {name : String}
    (h : Made catalog switches shelf name d m) :
    (m.copies.map Prod.fst).Nodup ∧ (m.copies.map Prod.snd).Nodup := by
  constructor
  · rw [h.originals]
    exact List.nodup_range.filter _
  · rw [h.slots]
    exact List.nodup_range'

theorem Made.le_of_mem {catalog : Catalog} {switches : Switches} {shelf : Shelf} {name : String}
    (h : Made catalog switches shelf name d m) (hmem : (o, c) ∈ m.copies) : d.bound ≤ c := by
  have hslot : c ∈ m.copies.map Prod.snd := List.mem_map_of_mem (f := Prod.snd) hmem
  rw [h.slots, List.mem_range'_1] at hslot
  exact hslot.1

/-- What a compiled drawing was copied to is an import as it is made. -/
theorem Made.of_copies {catalog : Catalog} {switches : Switches} {shelf : Shelf} {name : String}
    {drawn : Drawing} {compiled : Compilation} {diagram : Diagram} {copies : List (Slot × Slot)}
    (hfound : shelf name = .ok (some drawn))
    (hcompile : Edit.Runs (compile catalog switches root) drawn.diagram compiled diagram)
    (hcopies : Copies diagram (clear s d) d₂ (members diagram compiled.topology
      (distinct diagram compiled.topology.interfaces)) copies) :
    Made catalog switches shelf name d ⟨drawn, compiled, diagram, copies⟩ where
  drawing := hfound
  compiles := hcompile
  originals := hcopies.originals
  slots := by rw [hcopies.slots, bound_clear, ← hcopies.originals, List.length_map]
  drawn := by
    intro o c hmem
    obtain ⟨drawn, -, hdrawn, -⟩ := hcopies.new o c hmem
    exact ⟨drawn, hdrawn⟩

/-- Into the same diagram a drawing is imported in one way only. -/
theorem Made.unique {catalog : Catalog} {switches : Switches} {shelf : Shelf} {name : String}
    {m' : Import} (h : Made catalog switches shelf name d m) (h' : Made catalog switches shelf name d m') :
    m' = m := by
  obtain ⟨drawing, compiled, diagram, copies⟩ := m
  obtain ⟨drawing', compiled', diagram', copies'⟩ := m'
  obtain rfl : drawing' = drawing := by
    have := h'.drawing.symm.trans h.drawing
    rwa [Except.ok.injEq, Option.some.injEq] at this
  obtain ⟨rfl, rfl⟩ : compiled' = compiled ∧ diagram' = diagram := h'.compiles.unique h.compiles
  have hfst : copies'.map Prod.fst = copies.map Prod.fst := h'.originals.trans h.originals.symm
  have hlength : copies'.length = copies.length := by
    simpa using congrArg List.length hfst
  have hsnd : copies'.map Prod.snd = copies.map Prod.snd := by
    rw [show copies'.map Prod.snd = _ from h'.slots, show copies.map Prod.snd = _ from h.slots, hlength]
  obtain rfl : copies' = copies := by
    rw [← List.zip_unzip copies', ← List.zip_unzip copies, List.unzip_eq_map, List.unzip_eq_map,
      hfst, hsnd]
  rfl

/-- An element that is copied is found to be. -/
theorem copyOf?_of_mem {copies : List (Slot × Slot)} (hnodup : (copies.map Prod.fst).Nodup)
    (hmem : (o, c) ∈ copies) : copyOf? copies (some o) = some c :=
  lookup_of_mem hnodup hmem

/-- A copy is inside the instance if its original is upright. -/
theorem inside_iff_upright (hfst : (m.copies.map Prod.fst).Nodup) (hs : ∀ o c, (o, c) ∈ m.copies → s ≠ c)
    (hgone : ∀ o c, (o, c) ∈ m.copies → Broken m o → d.get? c = none)
    (hleft : ∀ o c, (o, c) ∈ m.copies → ¬ Broken m o → ∃ drawn e, m.diagram.get? o = some drawn ∧
      d.get? c = some e ∧ e.parent = some (parentAmong m.copies s drawn))
    (hmem : (o, c) ∈ m.copies) : d.Inside c s ↔ Upright m o := by
  constructor
  · intro hin
    induction hin using Relation.TransGen.head_induction_on generalizing o with
    | @single c hp =>
      obtain ⟨e, he, hparent⟩ := hp
      have hwhole : ¬ Broken m o := fun hbroken => by
        rw [hgone o c hmem hbroken] at he
        cases he
      obtain ⟨drawn, e', hdrawn, he', hparent'⟩ := hleft o c hmem hwhole
      rw [he] at he'
      cases he'
      rw [hparent, Option.some.injEq, parentAmong] at hparent'
      cases hcopy : copyOf? m.copies drawn.parent with
      | none => exact .top hdrawn hwhole hcopy
      | some c' =>
        -- The instance is no copy.
        obtain ⟨p, -, hp⟩ := copyOf?_eq_some hcopy
        rw [hcopy, Option.getD_some] at hparent'
        exact absurd hparent' (hs p c' hp)
    | @head c q hp hin ih =>
      obtain ⟨e, he, hparent⟩ := hp
      have hwhole : ¬ Broken m o := fun hbroken => by
        rw [hgone o c hmem hbroken] at he
        cases he
      obtain ⟨drawn, e', hdrawn, he', hparent'⟩ := hleft o c hmem hwhole
      rw [he] at he'
      cases he'
      rw [hparent, Option.some.injEq, parentAmong] at hparent'
      cases hcopy : copyOf? m.copies drawn.parent with
      | none => exact .top hdrawn hwhole hcopy
      | some c' =>
        obtain ⟨p, hup, hp⟩ := copyOf?_eq_some hcopy
        rw [hcopy, Option.getD_some] at hparent'
        subst hparent'
        exact .under hdrawn hwhole hup (List.mem_map_of_mem (f := Prod.fst) hp) (ih hp)
  · intro hup
    induction hup generalizing c with
    | @top o drawn here whole alone =>
      obtain ⟨drawn', e, hdrawn, he, hparent⟩ := hleft o c hmem whole
      rw [here] at hdrawn
      cases hdrawn
      rw [parentAmong, alone] at hparent
      exact .single ⟨e, he, hparent⟩
    | @under o p drawn here whole parent copied around ih =>
      obtain ⟨drawn', e, hdrawn, he, hparent⟩ := hleft o c hmem whole
      rw [here] at hdrawn
      cases hdrawn
      obtain ⟨⟨p', c'⟩, hp, rfl⟩ := List.mem_map.mp copied
      rw [parentAmong, parent, copyOf?_of_mem hfst hp] at hparent
      exact (ih hp).head ⟨e, he, hparent⟩

/-- Attaching connectors again leaves what was copied alone. -/
theorem get?_rebound {interfaces : List Slot} (hc : d.bound ≤ c) :
    ((looseEndsAt d s).foldl (attachTo interfaces) d₁).get? c = d₁.get? c := by
  have hnone : (looseEndsAt d s).filter (fun l => l.connector == c) = [] := by
    rw [List.filter_eq_nil_iff]
    intro l hl hconnector
    obtain ⟨-, e, -, -, -, he, -⟩ := mem_looseEndsAt.mp hl
    rw [beq_iff_eq.mp hconnector, Diagram.get?_of_bound_le hc] at he
    cases he
  rw [get?_foldl_attachTo, hnone]
  exact congrFun Option.map_id (d₁.get? c)

/-! ## When nothing is left behind -/

/-- No broken original has anything to do with one that is not broken: it is not around
it, and no end of it. -/
structure Tidy (m : Import) : Prop where
  upright : ∀ o c, (o, c) ∈ m.copies → ¬ Broken m o → Upright m o
  ends : ∀ o c drawn isSource p, (o, c) ∈ m.copies → m.diagram.get? o = some drawn →
    ¬ Broken m o → drawn.endAt isSource = some p → ¬ Broken m p

/-- Every copy that is left is in the instance and like its original, and its ends are
the copies of the ends of its original, which are left too. When the instance is cleared
all of them are gone. -/
structure WellFormed (m : Import) (s : Slot) (offset : Nat) (d : Diagram) : Prop where
  inside : ∀ o c e, (o, c) ∈ m.copies → d.get? c = some e → d.Inside c s
  alike : ∀ o c e, (o, c) ∈ m.copies → d.get? c = some e → ∃ drawn,
    m.diagram.get? o = some drawn ∧ e.role = drawn.role ∧ Mirrors m.copies s offset drawn e ∧
      ∀ isSource, e.endAt isSource = copyOf? m.copies (drawn.endAt isSource)
  ends : ∀ o c e isSource a, (o, c) ∈ m.copies → d.get? c = some e → e.endAt isSource = some a →
    d.isLive a = true ∧ ∃ p, (p, a) ∈ m.copies
  cleared : ∀ o c, (o, c) ∈ m.copies → (clear s d).get? c = none

/-- **If broken originals have nothing to do with the others, what is left is well-formed.** -/
theorem Leaves.wellFormed (h : Leaves m s offset d) (hnodup : (m.copies.map Prod.snd).Nodup)
    (htidy : Tidy m) : WellFormed m s offset d := by
  have hwhole : ∀ {o c e}, (o, c) ∈ m.copies → d.get? c = some e → ¬ Broken m o := by
    intro o c e hmem he hbroken
    rw [h.gone o c hmem hbroken] at he
    cases he
  have hends : ∀ {o c e}, (o, c) ∈ m.copies → d.get? c = some e → ∃ drawn,
      m.diagram.get? o = some drawn ∧ e.role = drawn.role ∧ Mirrors m.copies s offset drawn e ∧
        ∀ isSource, e.endAt isSource = copyOf? m.copies (drawn.endAt isSource) := by
    intro o c e hmem he
    obtain ⟨drawn, e', cut, hdrawn, he', hcopy, hcut⟩ := h.left o c hmem (hwhole hmem he)
    rw [he] at he'
    cases he'
    refine ⟨drawn, hdrawn, hcopy.role, hcopy.toMirrors, fun isSource => Option.ext fun a => ?_⟩
    rw [hcopy.ends]
    refine and_iff_left_of_imp fun hend hmem' => ?_
    -- An end that was cut off would be one at a broken copy.
    obtain ⟨p, hp, hpmem⟩ := copyOf?_eq_some hend
    obtain ⟨p', hp'mem, hbroken⟩ := hcut a hmem'
    have hpair : (p, a) = (p', a) := List.inj_on_of_nodup_map hnodup hpmem hp'mem rfl
    cases hpair
    exact htidy.ends o c drawn isSource p hmem hdrawn (hwhole hmem he) hp hbroken
  refine ⟨fun o c e hmem he => ?_, fun o c e => hends, fun o c e isSource a hmem he hend => ?_,
    fun o c hmem => ?_⟩
  · exact (h.inside o c hmem).mpr (htidy.upright o c hmem (hwhole hmem he))
  · obtain ⟨drawn, hdrawn, -, -, hsame⟩ := hends hmem he
    rw [hsame] at hend
    obtain ⟨p, hp, hpmem⟩ := copyOf?_eq_some hend
    obtain ⟨-, e', -, -, he', -⟩ := h.left p a hpmem
      (htidy.ends o c drawn isSource p hmem hdrawn (hwhole hmem he) hp)
    exact ⟨by rw [Diagram.isLive, he']; rfl, p, hpmem⟩
  · rw [h.cleared o c hmem]
    by_cases hbroken : Broken m o
    · exact .inl hbroken
    · exact .inr (htidy.upright o c hmem hbroken)

/-- The copies that a refresh leaves, in whatever order they are visited. -/
theorem leaves_of_refresh {catalog : Catalog} {switches : Switches} {shelf : Shelf} {naming : Naming}
    {name : String} {done : Refreshed} (hvisit : ∀ copies, (visit copies).Perm copies)
    (hrooted : d.Rooted) (hissued : d.Issued) (hloop : ¬ d.Inside s s)
    (h : Edit.Runs (refreshVisiting visit catalog switches shelf naming s name offset) d done d') :
    ∃ m, Made catalog switches shelf name d m ∧ Leaves m s offset d' := by
  obtain ⟨e, drawing, compiled, diagram, d₁, he, hload, hcompile, himport, hrebind, -⟩ :=
    refreshVisiting_runs_iff.mp h
  obtain ⟨copies, d₂, hcopy, rfl⟩ := importVisiting_runs_iff.mp himport
  have hs := Diagram.lt_bound_of_get? he
  have hcopies := copyAll_runs hcopy
  have hbound : 0 < (clear s d).bound := by
    rw [bound_clear]
    exact Nat.zero_lt_of_lt hs
  have hrelinked : Relinked diagram copies s offset (visit copies) _ :=
    relinked_of_perm hcopies hbound (hvisit copies)
  have himprint : Imprint diagram s offset _ _ _ copies :=
    imprint_of_perm hcopies hbound (hvisit copies)
  have hmade : Made catalog switches shelf name d ⟨drawing, compiled, diagram, copies⟩ :=
    .of_copies (loadDrawing_eq_ok hload) hcompile hcopies
  have hturn : Turn s d d' := by
    obtain ⟨hbound', hcore⟩ := rebindAll_frame hrebind
    exact (turn_import himprint).congr hbound' hcore
  rw [rebindAll_runs_iff] at hrebind
  -- Attaching connectors again reaches no new slot.
  have hget : ∀ o c, (o, c) ∈ copies → d'.get? c = (shiftAll (Word.signed offset) ((visit copies).map Prod.snd)
      (relinkAll diagram s copies (visit copies) d₂)).get? c := by
    intro o c hmem
    rw [← hrebind]
    exact get?_rebound (hmade.le_of_mem hmem)
  have hgone : ∀ o c, (o, c) ∈ copies → Broken ⟨drawing, compiled, diagram, copies⟩ o →
      d'.get? c = none := by
    intro o c hmem hbroken
    obtain ⟨drawn, hdrawn⟩ := hmade.drawn o c hmem
    rw [hget o c hmem]
    exact hrelinked.gone o c drawn ((hvisit copies).mem_iff.mpr hmem) hdrawn
      ((broken_iff hdrawn).mp hbroken)
  have hleft : ∀ o c, (o, c) ∈ copies → ¬ Broken ⟨drawing, compiled, diagram, copies⟩ o →
      ∃ drawn e cut, diagram.get? o = some drawn ∧ d'.get? c = some e ∧
        CopyAt copies s offset cut drawn e ∧
        ∀ a ∈ cut, ∃ p, (p, a) ∈ copies ∧ Broken ⟨drawing, compiled, diagram, copies⟩ p := by
    intro o c hmem hwhole
    obtain ⟨drawn, hdrawn⟩ := hmade.drawn o c hmem
    rw [broken_iff hdrawn, Bool.not_eq_true] at hwhole
    obtain ⟨before, after, hsplit⟩ := List.append_of_mem ((hvisit copies).mem_iff.mpr hmem)
    obtain ⟨e, he, hcopy⟩ := hrelinked.left before after o c drawn hsplit hdrawn hwhole
    refine ⟨drawn, e, _, hdrawn, (hget o c hmem).trans he, hcopy, fun a ha => ?_⟩
    obtain ⟨p, drawnp, hp, hdrawnp, hbroken⟩ := mem_brokenIn.mp ha
    refine ⟨p, (hvisit copies).mem_iff.mp ?_, (broken_iff hdrawnp).mpr hbroken⟩
    rw [hsplit]
    exact List.mem_append_right _ (List.mem_cons_of_mem _ hp)
  -- A copy is in the instance iff no copy on its way up is missing.
  have hinside : ∀ o c, (o, c) ∈ copies →
      (d'.Inside c s ↔ Upright ⟨drawing, compiled, diagram, copies⟩ o) := by
    intro o c hmem
    refine inside_iff_upright hmade.nodup.1 (fun o c hmem => ?_) hgone (fun o c hmem hwhole => ?_)
      hmem
    · exact Nat.ne_of_lt (Nat.lt_of_lt_of_le hs (hmade.le_of_mem hmem))
    · obtain ⟨drawn, e, cut, hdrawn, he, hcopy, -⟩ := hleft o c hmem hwhole
      exact ⟨drawn, e, hdrawn, he, hcopy.parent⟩
  refine ⟨_, hmade, hgone, hleft, hinside, fun o c hmem => ?_⟩
  classical
  -- Clearing the instance once more removes what is in it and nothing else.
  rw [← Diagram.core?_eq_none, core?_clear (hturn.rooted hrooted hs)
    fun hin => hloop (hturn.inside_old hissued hs hin), ← hinside o c hmem]
  constructor
  · intro hnone
    split at hnone
    · exact .inr (by assumption)
    · by_contra hnot
      obtain ⟨-, e, -, -, he, -⟩ := hleft o c hmem fun hbroken => hnot (.inl hbroken)
      rw [Diagram.core?_of_get? he] at hnone
      cases hnone
  · rintro (hbroken | hin)
    · rw [Diagram.core?_eq_none.mpr (hgone o c hmem hbroken), ite_self]
    · rw [if_pos hin]

/-- **What a refresh leaves**, in whatever order the copies are visited. -/
theorem refresh_leaves {catalog : Catalog} {switches : Switches} {shelf : Shelf} {naming : Naming}
    {name : String} {done : Refreshed} (hvisit : ∀ copies, (visit copies).Perm copies)
    (hrooted : d.Rooted) (hissued : d.Issued) (hloop : ¬ d.Inside s s)
    (h : Edit.Runs (refreshVisiting visit catalog switches shelf naming s name offset) d done d') :
    ∃ m, Made catalog switches shelf name d m ∧ Leaves m s offset d' ∧
      (Tidy m → WellFormed m s offset d') := by
  obtain ⟨m, hmade, hleaves⟩ := leaves_of_refresh hvisit hrooted hissued hloop h
  exact ⟨m, hmade, hleaves, hleaves.wellFormed hmade.nodup.2⟩

/-! ## A tag -/

/-- A house whose valve is tapped at a keyed node of an interface. The port lies in the
interface, and there is a tag on it. -/
def taggedHouse : Diagram :=
  diagramOf
    [{ id := "root", role := .root },
      { id := "net", role := .network .sub, parent := some 0 },
      { id := "a", role := .node .basic, label := "0", parent := some 1 },
      { id := "b", role := .node .basic, label := "1", parent := some 1 },
      { id := "v", role := .link ⟨"Valve", none⟩, label := "V1", parent := some 1 },
      { id := "i", role := .interface ⟨none, none⟩, label := "inlet", parent := some 1 },
      { id := "k", role := .node .basic, label := "1", parent := some 5,
        fields := Fields.ofList [(Element.keyField, "in")] },
      { id := "p", role := .port, label := "0", parent := some 1, source := some 4, target := some 2 },
      { id := "q", role := .port, label := "1", parent := some 5, source := some 4, target := some 6 },
      { id := "t", role := .plain, label := "tag", parent := some 8 }]

/-- A super-network with an empty instance. -/
def yard : Diagram :=
  diagramOf
    [{ id := "root", role := .root },
      { id := "all", role := .network .super, parent := some 0 },
      { id := "s", role := .network .sub, label := "S", parent := some 1 }]

/-- Refreshes the instance of the yard from the tagged house. -/
def refreshYard (visit : List (Slot × Slot) → List (Slot × Slot)) : Edit Failure Refreshed :=
  refreshVisiting visit Recording.valves {} (fun _ => .ok (some ⟨taggedHouse, ""⟩))
    (fun slot => toString slot) 2 "house" 0

/-- The yard is refreshed, with the copies visited from the last to the first. -/
theorem refresh_leaves_yard : ∃ m done d', Edit.Runs (refreshYard List.reverse) yard done d' ∧
    m.copies.map Prod.snd = List.range' 3 m.copies.length ∧ Leaves m 2 0 d' := by
  have hpristine : yard.Pristine := by decide
  have hloop : ¬ yard.Inside 2 2 := Diagram.not_inside_self (by cbv)
  have hruns : ((refreshYard List.reverse).run yard).result.isOk = true := by cbv
  cases hresult : ((refreshYard List.reverse).run yard).result with
  | error f =>
    rw [hresult] at hruns
    cases hruns
  | ok done =>
    obtain ⟨m, hmade, hleaves, -⟩ := refresh_leaves (fun copies => copies.reverse_perm)
      hpristine.rooted hpristine.issued hloop ⟨hresult, rfl⟩
    exact ⟨m, done, _, ⟨hresult, rfl⟩, hmade.slots, hleaves⟩

/-- What two refreshes make of the yard: the tag in slot `6` is in nothing, so it is not
found again, and there are more elements each time. -/
def litters (one two : Outcome Failure Refreshed) : Bool :=
  one.result.isOk && two.result.isOk && one.diagram.isLive 6 &&
    !(one.diagram.descendants 2).contains 6 && two.diagram.isLive 6 &&
    decide (one.diagram.size < two.diagram.size)

/-- **The copy of the tag is left outside the instance, and stays when the instance is
refreshed again.** -/
theorem refresh_litters : ∃ done d' again d'', Edit.Runs (refreshYard id) yard done d' ∧
    Edit.Runs (refreshYard id) d' again d'' ∧ d'.isLive 6 = true ∧ ¬ d'.Inside 6 2 ∧
    d''.isLive 6 = true ∧ d'.size < d''.size := by
  have hlitters : litters ((refreshYard id).run yard)
      ((refreshYard id).run ((refreshYard id).run yard).diagram) = true := by cbv
  simp only [litters, Bool.and_eq_true, Bool.not_eq_true', decide_eq_true_eq] at hlitters
  obtain ⟨⟨⟨⟨⟨hone, htwo⟩, hleft⟩, hout⟩, hstays⟩, hgrows⟩ := hlitters
  have hok : ∀ r : Except Failure Refreshed, r.isOk = true → ∃ done, r = .ok done := by
    intro r hr
    cases r with
    | error f => cases hr
    | ok done => exact ⟨done, rfl⟩
  obtain ⟨done, hdone⟩ := hok _ hone
  obtain ⟨again, hagain⟩ := hok _ htwo
  refine ⟨done, _, again, _, ⟨hdone, rfl⟩, ⟨hagain, rfl⟩, hleft, fun hin => ?_, hstays, hgrows⟩
  obtain ⟨e, -, -, -, -, he, -⟩ := refreshVisiting_runs_iff.mp ⟨hagain, rfl⟩
  have hmem : 6 ∈ ((refreshYard id).run yard).diagram.descendants 2 :=
    Diagram.mem_descendants.mpr ⟨⟨e, he⟩, by decide, hin⟩
  rw [← List.contains_iff_mem, hout] at hmem
  cases hmem

end Netlist.Assembly
