import Netlist.Proofs.Assembly.Importable
import Netlist.Proofs.Assembly.Keeping

/-!
# An instance that is refreshed

A refresh clears the instance, puts copies of the drawing into new slots, and attaches the
connectors again that ended at its interfaces. Here it is said what every slot holds
afterwards; that a refresh is a step of the turn of its instance, and that it fills it,
is read off from this.

- `Source`: what an instance is made from, and `Source.exists_refreshVisiting`: **what was imported
  once can be imported again.**
- `Spared`, `Renewed`: what a refresh does to all that is not copied, and to every slot.
- `spared_of_refresh`, `renewed_of_refresh`: **every refresh that succeeds does this.**
- `Renewed.frame`: **a refresh is a step of the turn.**
- `Renewed.filled`: **at the end of its turn a refreshed instance is filled** with the
  copies.
-/

namespace Netlist.Assembly

open Diagram (root proper?_eq_some)

variable {d d₁ d' : Diagram} {m : Import} {s a c i j o p top : Slot} {instances : List Slot}
  {e e' drawn : Element} {offset nodeCount : Nat} {catalog : Catalog} {switches : Switches}
  {shelf : Shelf} {naming : Naming} {name : String} {done : Refreshed}

/-! ## What an instance is made from -/

/-- An import of the drawing of a name, wherever it is put: the drawing holds no
super-network, it was compiled, and its members can be copied. -/
structure Source (catalog : Catalog) (switches : Switches) (shelf : Shelf) (name : String)
    (m : Import) : Prop where
  drawing : shelf name = .ok (some m.drawing)
  flat : m.drawing.diagram.hasRole Role.isSuperNetwork = false
  compiles : Edit.Runs (compile catalog switches root) m.drawing.diagram m.compiled m.diagram
  originals : m.copies.map Prod.fst =
    members m.diagram m.compiled.topology (distinct m.diagram m.compiled.topology.interfaces)
  copyable : Copyable m.diagram (m.copies.map Prod.fst)

/-- A name has one drawing, and this has one compilation. -/
theorem Source.unique {m' : Import} (h : Source catalog switches shelf name m)
    (h' : Source catalog switches shelf name m') : m'.diagram = m.diagram ∧
      m'.compiled = m.compiled ∧ m'.copies.map Prod.fst = m.copies.map Prod.fst := by
  have hdrawing : m'.drawing = m.drawing := by
    have := h'.drawing.symm.trans h.drawing
    rwa [Except.ok.injEq, Option.some.injEq] at this
  obtain ⟨hcompiled, hdiagram⟩ := h.compiles.unique (hdrawing ▸ h'.compiles)
  refine ⟨hdiagram.symm, hcompiled.symm, ?_⟩
  rw [h'.originals, h.originals, hcompiled, hdiagram]

/-- The drawings of a shelf are as they were read, with their super-ports at connectors. -/
def Docked (shelf : Shelf) : Prop := ∀ name drawing, shelf name = .ok (some drawing) →
  drawing.diagram.Pristine ∧ drawing.diagram.PortsDocked

theorem Source.importable (h : Source catalog switches shelf name m) (hshelf : Docked shelf) :
    Importable m.diagram (m.copies.map Prod.fst) := by
  obtain ⟨hpristine, hports⟩ := hshelf name m.drawing h.drawing
  rw [h.originals]
  exact importable_of_compile hpristine hports h.flat h.compiles

/-- **What was imported once can be imported again**, into any instance and in any order. -/
theorem Source.exists_refreshVisiting (h : Source catalog switches shelf name m)
    (he : d.get? s = some e) (visit : List (Slot × Slot) → List (Slot × Slot)) (naming : Naming)
    (offset : Nat) : ∃ done d',
      Edit.Runs (refreshVisiting visit catalog switches shelf naming s name offset) d done d' := by
  obtain ⟨copies, d₁, hcopy⟩ := (copyAll_succeeds_iff naming s e.locator (clear s d)).mpr h.copyable
  rw [h.originals] at hcopy
  exact ⟨_, _, refreshVisiting_runs_iff.mpr ⟨e, m.drawing, m.compiled, m.diagram, _, he,
    loadDrawing_iff.mpr ⟨h.drawing, h.flat⟩, h.compiles,
    importVisiting_runs_iff.mpr ⟨copies, d₁, hcopy, rfl⟩, rebindAll_runs_iff.mpr rfl, rfl⟩⟩

/-! ## What a refresh does to every slot -/

/-- A slot that a refresh empties: it was in the instance, or the copy in it is broken. -/
def Emptied (m : Import) (s : Slot) (d : Diagram) (a : Slot) : Prop :=
  d.Inside a s ∨ ∃ o, (o, a) ∈ m.copies ∧ Broken m o

/-- What a refresh does to all that is not copied: the content of the instance is gone, and
nothing else changes but ends. A connector that ended at an interface of the instance ends
at its first new interface of the same label, and other ends are cleared if their slots
were emptied. -/
structure Spared (m : Import) (s : Slot) (d d' : Diagram) : Prop where
  bound : d'.bound = d.bound + m.copies.length
  gone : ∀ j, d.Inside j s → d'.get? j = none
  old : ∀ j < d.bound, ¬ d.Inside j s → d'.core? j = d.core? j
  ends : ∀ c e e' isSource a, d.get? c = some e → d'.get? c = some e' →
    (e.role = .connector → ∀ i ∈ interfacesIn d s, e.endAt isSource ≠ some i) →
    (e'.endAt isSource = some a ↔ e.endAt isSource = some a ∧ ¬ Emptied m s d a)
  rebound : Rebound s d d'

/-- What a refresh does to every slot: the old content is gone, every copy is left as it
should be or is broken and gone, and nothing else changes but ends. A connector that ended
at an interface of the instance ends at its first new interface of the same label, and
other ends stay unless they were in the instance. -/
structure Renewed (m : Import) (s : Slot) (offset : Nat) (d d' : Diagram) : Prop where
  originals : (m.copies.map Prod.fst).Nodup
  slots : m.block = List.range' d.bound m.copies.length
  bound : d'.bound = d.bound + m.copies.length
  gone : ∀ j, d.Inside j s → d'.get? j = none
  old : ∀ j < d.bound, ¬ d.Inside j s → d'.core? j = d.core? j
  broken : ∀ o c, (o, c) ∈ m.copies → Broken m o → d'.get? c = none
  left : ∀ o c, (o, c) ∈ m.copies → ¬ Broken m o → ∃ drawn e cut, m.diagram.get? o = some drawn ∧
    d'.get? c = some e ∧ CopyAt m.copies s offset cut drawn e ∧
    ∀ a ∈ cut, ∃ p, (p, a) ∈ m.copies ∧ Broken m p
  ends : ∀ c e e' isSource a, d.get? c = some e → d'.get? c = some e' → e.role = .connector →
    (∀ i ∈ interfacesIn d s, e.endAt isSource ≠ some i) →
    (e'.endAt isSource = some a ↔ e.endAt isSource = some a ∧ ¬ d.Inside a s)
  rebound : Rebound s d d'

/-- What is inside an element is read without looking at ends. -/
theorem interfacesIn_of_core? (h : ∀ j, d'.core? j = d.core? j) :
    interfacesIn d' s = interfacesIn d s := by
  have hback : ∀ {d d' : Diagram}, (∀ j, d'.core? j = d.core? j) → ∀ i, i ∈ interfacesIn d' s →
      i ∈ interfacesIn d s := by
    intro d d' h i hi
    obtain ⟨hdesc, e', he', hrole⟩ := mem_interfacesIn.mp hi
    obtain ⟨⟨x', hx'⟩, hne, hin⟩ := Diagram.mem_descendants.mp hdesc
    have hlive : ∀ {j y'}, d'.get? j = some y' → ∃ y, d.get? j = some y ∧ y.core = y'.core := by
      intro j y' hy'
      have hj := Diagram.core?_of_get? hy'
      rw [h] at hj
      exact Diagram.core?_eq_some.mp hj
    obtain ⟨x, hx, -⟩ := hlive hx'
    obtain ⟨e, he, hcore⟩ := hlive he'
    refine mem_interfacesIn.mpr ⟨Diagram.mem_descendants.mpr ⟨⟨x, hx⟩, hne, ?_⟩, e, he, ?_⟩
    · exact Diagram.inside_of_core?_le (fun k y hy => (h k).symm.trans hy) hin
    · rw [← hrole]
      show e.core.role.isInterface = e'.core.role.isInterface
      rw [hcore]
  exact List.Pairwise.eq_of_mem_iff (sorted_interfacesIn d' s) (sorted_interfacesIn d s)
    fun i => ⟨hback h i, hback (fun j => (h j).symm) i⟩

/-- The ends of an element after the instance was cleared and the broken copies were
removed. -/
theorem endAt_relinked {drawing : Diagram} {order : List Slot} {copies visited : List (Slot × Slot)}
    {d₂ : Diagram} {isSource : Bool} (hrooted : d.Rooted) (hloop : ¬ d.Inside s s)
    (hcopies : Copies drawing (clear s d) d₂ order copies) (hperm : visited.Perm copies)
    (hc : d.get? c = some e)
    (he' : (shiftAll (Word.signed offset) (visited.map Prod.snd) (relinkAll drawing s copies visited d₂)).get? c =
      some e') : e'.endAt isSource = some a ↔
        e.endAt isSource = some a ∧ ¬ d.Inside a s ∧ a ∉ brokenIn drawing copies visited := by
  have hlt := Diagram.lt_bound_of_get? hc
  have hpos : 0 < (clear s d).bound := by
    rw [bound_clear]
    exact Nat.zero_lt_of_lt hlt
  have hnot : c ∉ visited.map Prod.snd := by
    intro hmem
    rw [(hperm.map Prod.snd).mem_iff, hcopies.slots, bound_clear, List.mem_range'_1] at hmem
    exact Nat.not_lt.mpr hmem.1 hlt
  rw [get?_shiftAll (nodup_of_perm hcopies hperm), if_neg hnot,
    get?_relinkAll_of_not_mem (visitable_of_perm hcopies hpos hperm) hnot,
    hcopies.old c (by rwa [bound_clear]), Option.map_eq_some_iff] at he'
  obtain ⟨e₀, he₀, rfl⟩ := he'
  rw [Element.endAt_detachAll, endAt_clear hrooted hloop hc he₀, and_assoc]

section

variable {find : String → Option Slot} {e₁ x : Element} {isSource : Bool}

/-- An end at an interface of the instance is attached again. -/
theorem endAt_attached (hc : d.get? c = some e) (hrole : e.role = .connector)
    (ha : a ∈ interfacesIn d s) (hend : e.endAt isSource = some a) (hx : d.get? a = some x) :
    (attachAll find ((looseEndsAt d s).filter fun l => l.connector == c) e₁).endAt isSource =
      (find x.label).or (e₁.endAt isSource) := by
  have hloose : ⟨c, isSource, x.label⟩ ∈ looseEndsAt d s :=
    mem_looseEndsAt.mpr ⟨a, e, x, ha, hx, hc, hrole, rfl, hend⟩
  have hlabel : ∀ l ∈ (looseEndsAt d s).filter fun l => l.connector == c, l.isSource = isSource →
      l.label = x.label := by
    intro l hl hside
    obtain ⟨hl, hconnector⟩ := List.mem_filter.mp hl
    exact label_of_looseEnd hl hloose (beq_iff_eq.mp hconnector) hside
  rw [endAt_attachAll hlabel, if_pos]
  exact ⟨_, List.mem_filter.mpr ⟨hloose, beq_self_eq_true c⟩, rfl⟩

/-- Other ends are left alone. -/
theorem endAt_unattached (hc : d.get? c = some e)
    (hnone : e.role = .connector → ∀ i ∈ interfacesIn d s, e.endAt isSource ≠ some i) :
    (attachAll find ((looseEndsAt d s).filter fun l => l.connector == c) e₁).endAt isSource =
      e₁.endAt isSource := by
  have hno : ∀ l ∈ (looseEndsAt d s).filter fun l => l.connector == c, l.isSource ≠ isSource := by
    rintro l hl rfl
    obtain ⟨hl, hconnector⟩ := List.mem_filter.mp hl
    obtain ⟨i, e₀, -, hi, -, he₀, hrole, -, hend⟩ := mem_looseEndsAt.mp hl
    rw [beq_iff_eq.mp hconnector, hc] at he₀
    cases he₀
    exact hnone hrole i hi hend
  have hlabel : ∀ l ∈ (looseEndsAt d s).filter fun l => l.connector == c, l.isSource = isSource →
      l.label = "" := fun l hl hside => absurd hside (hno l hl)
  rw [endAt_attachAll hlabel, if_neg]
  rintro ⟨l, hl, hside⟩
  exact hno l hl hside

end

/-- **Every refresh that succeeds spares what is not in its instance**, in whatever order the
copies are visited. -/
theorem spared_of_refresh {visit : List (Slot × Slot) → List (Slot × Slot)}
    (hvisit : ∀ copies, (visit copies).Perm copies) (hrooted : d.Rooted) (hissued : d.Issued)
    (hloop : ¬ d.Inside s s)
    (h : Edit.Runs (refreshVisiting visit catalog switches shelf naming s name offset) d done d') :
    ∃ m, Source catalog switches shelf name m ∧ Made catalog switches shelf name d m ∧
      done.nodeCount = m.compiled.topology.nodeCount ∧ Leaves m s offset d' ∧ Spared m s d d' := by
  obtain ⟨m, hmade, hleaves⟩ := leaves_of_refresh hvisit hrooted hissued hloop h
  obtain ⟨e, drawing, compiled, diagram, d₁, he, hload, hcompile, himport, hrebind, rfl⟩ :=
    refreshVisiting_runs_iff.mp h
  obtain ⟨copies, d₂, hcopy, hd₁⟩ := importVisiting_runs_iff.mp himport
  have hcopies := copyAll_runs hcopy
  have hpos : 0 < (clear s d).bound := by
    rw [bound_clear]
    exact Nat.zero_lt_of_lt (Diagram.lt_bound_of_get? he)
  have himprint : Imprint diagram s offset _ (clear s d) d₁ copies :=
    hd₁ ▸ imprint_of_perm hcopies hpos (hvisit copies)
  obtain rfl : ⟨drawing, compiled, diagram, copies⟩ = m :=
    hmade.unique (.of_copies (loadDrawing_eq_ok hload) hcompile hcopies)
  have hemptied : ∀ a, Emptied ⟨drawing, compiled, diagram, copies⟩ s d a ↔
      d.Inside a s ∨ a ∈ brokenIn diagram copies (visit copies) := by
    intro a
    rw [mem_brokenIn, Emptied]
    refine or_congr_right ⟨?_, ?_⟩
    · rintro ⟨o, hmem, hbroken⟩
      obtain ⟨drawn, hdrawn⟩ := hmade.drawn o a hmem
      exact ⟨o, drawn, (hvisit copies).mem_iff.mpr hmem, hdrawn, (broken_iff hdrawn).mp hbroken⟩
    · rintro ⟨o, drawn, hmem, hdrawn, hbroken⟩
      exact ⟨o, (hvisit copies).mem_iff.mp hmem, (broken_iff hdrawn).mpr hbroken⟩
  -- Before connectors are attached again, every end at an emptied slot is cleared.
  have hends : ∀ {c e e₁ isSource a}, d.get? c = some e → d₁.get? c = some e₁ →
      (e₁.endAt isSource = some a ↔ e.endAt isSource = some a ∧
        ¬ Emptied ⟨drawing, compiled, diagram, copies⟩ s d a) := by
    intro c e e₁ isSource a hc he₁
    rw [endAt_relinked hrooted hloop hcopies (hvisit copies) hc (hd₁ ▸ he₁), hemptied, not_or]
  obtain ⟨hbound, hcore⟩ := rebindAll_frame hrebind
  rw [rebindAll_runs_iff] at hrebind
  have hsource : Source catalog switches shelf name ⟨drawing, compiled, diagram, copies⟩ := by
    obtain ⟨hfound, hflat⟩ := loadDrawing_iff.mp hload
    refine ⟨hfound, hflat, hcompile, hcopies.originals, ?_⟩
    show Copyable diagram (copies.map Prod.fst)
    rw [hcopies.originals]
    exact (copyAll_succeeds_iff _ _ _ _).mp ⟨copies, d₂, hcopy⟩
  refine ⟨_, hsource, hmade, rfl, hleaves, ?_⟩
  constructor
  case bound =>
    rw [hbound, himprint.bound, bound_clear, ← hcopies.originals, List.length_map]
  case gone =>
    classical
    intro j hin
    obtain ⟨x, hx⟩ := hin.live
    rw [← Diagram.core?_eq_none, hcore, himprint.old j (by
      rw [bound_clear]
      exact Diagram.lt_bound_of_get? hx), core?_clear hrooted hloop, if_pos hin]
  case old =>
    classical
    intro j hj hout
    rw [hcore, himprint.old j (by rwa [bound_clear]), core?_clear hrooted hloop, if_neg hout]
  case ends =>
    intro c e e' isSource a he he' hnone
    rw [← hrebind, get?_foldl_attachTo, Option.map_eq_some_iff] at he'
    obtain ⟨e₁, he₁, rfl⟩ := he'
    rw [endAt_unattached he hnone]
    exact hends he he₁
  case rebound =>
    intro c e e' isSource a x he hrole he' hend ha hx
    have hsame : labelled? d' (interfacesIn d' s) x.label =
        labelled? d₁ (interfacesIn d₁ s) x.label := by
      rw [interfacesIn_of_core? hcore, labelled?_congr hcore]
    rw [← hrebind, get?_foldl_attachTo, Option.map_eq_some_iff] at he'
    obtain ⟨e₁, he₁, rfl⟩ := he'
    have hcut : e₁.endAt isSource = none := by
      by_contra hsome
      obtain ⟨b, hb⟩ := Option.ne_none_iff_exists'.mp hsome
      obtain ⟨hb, hkept⟩ := (hends he he₁).mp hb
      rw [hend, Option.some.injEq] at hb
      exact hkept (.inl (hb ▸ inside_of_mem_interfacesIn ha))
    rw [endAt_attached he hrole ha hend hx, hcut, Option.or_none, hsame]

/-- **Every refresh that succeeds** leaves its old content nowhere and its copies as they
should be. -/
theorem renewed_of_refresh {visit : List (Slot × Slot) → List (Slot × Slot)}
    (hvisit : ∀ copies, (visit copies).Perm copies) (hd : Orderly top instances d)
    (h : Edit.Runs (refreshVisiting visit catalog switches shelf naming s name offset) d done d') :
    ∃ m, Source catalog switches shelf name m ∧
      done.nodeCount = m.compiled.topology.nodeCount ∧ Renewed m s offset d d' := by
  obtain ⟨m, hsource, hmade, hcount, hleaves, hspared⟩ :=
    spared_of_refresh hvisit hd.rooted hd.issued (hd.loopless s) h
  refine ⟨m, hsource, hcount, hmade.nodup.1, hmade.slots, hspared.bound, hspared.gone, hspared.old,
    hleaves.gone, hleaves.left, fun c e e' isSource a he he' hrole hnone => ?_, hspared.rebound⟩
  rw [hspared.ends c e e' isSource a he he' fun _ => hnone]
  refine and_congr_right fun hend => not_congr (or_iff_left_of_imp ?_)
  -- An end of a connector is at a slot that was issued, and the copies are not.
  rintro ⟨o, hmem, -⟩
  exact absurd (hmade.le_of_mem hmem) (Nat.not_le.mpr (hd.anchored c e isSource a he hrole hend))

/-! ## A step of the turn -/

theorem stays_of_core (h : e'.core = e.core) : Stays e e' ∧ e'.fields = e.fields := by
  rw [Element.core, Element.core, Element.mk.injEq] at h
  obtain ⟨hid, hrole, hlabel, hparent, -, -, hfields, -⟩ := h
  exact ⟨⟨hid, hlabel, hrole, hparent⟩, hfields⟩

/-- What a copy is in is the copy of what its original is in, or the instance. -/
theorem CopyAt.parent_cases {cut : List Slot} (hcopy : CopyAt m.copies s offset cut drawn e')
    (hp : e'.parent = some p) : p = s ∧ copyOf? m.copies drawn.parent = none ∨
      ∃ o, drawn.parent = some o ∧ (o, p) ∈ m.copies := by
  rw [hcopy.parent, Option.some.injEq, parentAmong] at hp
  cases hup : copyOf? m.copies drawn.parent with
  | none =>
    rw [hup] at hp
    exact .inl ⟨hp.symm, rfl⟩
  | some q =>
    rw [hup, Option.getD_some] at hp
    subst hp
    exact .inr (copyOf?_eq_some hup)

/-- An element in a new slot is a copy. -/
theorem Spared.exists_copy (h : Spared m s d d') (hmade : Made catalog switches shelf name d m)
    (hc : d.bound ≤ c) (he : d'.get? c = some e) : ∃ o, (o, c) ∈ m.copies := by
  have hslot : c ∈ m.copies.map Prod.snd := by
    rw [hmade.slots, List.mem_range'_1, ← h.bound]
    exact ⟨hc, Diagram.lt_bound_of_get? he⟩
  obtain ⟨⟨o, _⟩, hmem, rfl⟩ := List.mem_map.mp hslot
  exact ⟨o, hmem⟩

/-- What is spared and the copies that are left make a turn. -/
theorem Spared.turn (h : Spared m s d d') (hmade : Made catalog switches shelf name d m)
    (hleaves : Leaves m s offset d') : Turn s d d' where
  bound := by
    rw [h.bound]
    exact Nat.le_add_right _ _
  outside := fun j hj _ hout => h.old j hj hout
  parents := by
    intro j hj p hp
    have hout : ¬ d.Inside j s := fun hin => by
      obtain ⟨e, he, -⟩ := hp
      rw [h.gone j hin] at he
      cases he
    exact hp.congr (h.old j hj hout).symm
  fresh := by
    rintro j p hj ⟨e, he, hparent⟩
    obtain ⟨o, hmem⟩ := h.exists_copy hmade hj he
    have hwhole : ¬ Broken m o := fun hbroken => by
      rw [hleaves.gone o j hmem hbroken] at he
      cases he
    obtain ⟨drawn, e', _, -, he', hcopy, -⟩ := hleaves.left o j hmem hwhole
    rw [he, Option.some.injEq] at he'
    subst he'
    obtain ⟨rfl, -⟩ | ⟨q, -, hq⟩ := hcopy.parent_cases hparent
    · exact .inl rfl
    · have hslot : p ∈ m.copies.map Prod.snd := List.mem_map_of_mem (f := Prod.snd) hq
      rw [hmade.slots, List.mem_range'_1, ← h.bound] at hslot
      exact .inr hslot

namespace Renewed

variable (h : Renewed m s offset d d')

include h

theorem mem_block_iff : j ∈ m.block ↔ d.bound ≤ j ∧ j < d'.bound := by
  rw [h.slots, List.mem_range'_1, h.bound]

theorem le_of_mem (hmem : (o, c) ∈ m.copies) : d.bound ≤ c :=
  (h.mem_block_iff.mp (Import.mem_block hmem)).1

theorem original_unique (hmem : (o, c) ∈ m.copies) (hmem' : (p, c) ∈ m.copies) : o = p := by
  have hnodup : (m.copies.map Prod.snd).Nodup := by
    rw [← Import.block, h.slots]
    exact List.nodup_range'
  exact congrArg Prod.fst (List.inj_on_of_nodup_map hnodup hmem hmem' rfl)

/-- An element that is left in an old slot was there before. -/
theorem back (hj : j < d.bound) (he' : d'.get? j = some e') : ¬ d.Inside j s ∧
    ∃ e, d.get? j = some e ∧ e'.core = e.core := by
  have hout : ¬ d.Inside j s := by
    intro hin
    rw [h.gone j hin] at he'
    cases he'
  have hcore := h.old j hj hout
  rw [Diagram.core?_of_get? he', eq_comm, Diagram.core?_eq_some] at hcore
  obtain ⟨e, he, hcore⟩ := hcore
  exact ⟨hout, e, he, hcore.symm⟩

/-- An element that was not in the instance is still there. -/
theorem forth (hout : ¬ d.Inside j s) (he : d.get? j = some e) :
    ∃ e', d'.get? j = some e' ∧ e'.core = e.core := by
  have hcore := h.old j (Diagram.lt_bound_of_get? he) hout
  rw [Diagram.core?_of_get? he] at hcore
  exact Diagram.core?_eq_some.mp hcore

/-- An element in a new slot is a copy. -/
theorem copy (hj : d.bound ≤ j) (he' : d'.get? j = some e') : ∃ o drawn cut, (o, j) ∈ m.copies ∧
    ¬ Broken m o ∧ m.diagram.get? o = some drawn ∧ CopyAt m.copies s offset cut drawn e' ∧
    ∀ a ∈ cut, ∃ p, (p, a) ∈ m.copies ∧ Broken m p := by
  obtain ⟨o, hmem⟩ := Import.exists_original
    (h.mem_block_iff.mpr ⟨hj, Diagram.lt_bound_of_get? he'⟩)
  have hwhole : ¬ Broken m o := by
    intro hbroken
    rw [h.broken o j hmem hbroken] at he'
    cases he'
  obtain ⟨drawn, e, cut, hdrawn, he, hcopy, hcut⟩ := h.left o j hmem hwhole
  rw [he'] at he
  cases he
  exact ⟨o, drawn, cut, hmem, hwhole, hdrawn, hcopy, hcut⟩

theorem hasParent_old (hi : i < d.bound) (hp : d'.HasParent i p) : d.HasParent i p := by
  obtain ⟨e', he', hp⟩ := hp
  obtain ⟨-, e, he, hcore⟩ := h.back hi he'
  exact ⟨e, he, (stays_of_core hcore).1.parent.symm.trans hp⟩

theorem inside_old (hissued : d.Issued) (hi : i < d.bound) (hin : d'.Inside i p) :
    d.Inside i p := by
  induction hin using Relation.TransGen.head_induction_on with
  | single hp => exact .single (h.hasParent_old hi hp)
  | head hp _ ih =>
    have hp' := h.hasParent_old hi hp
    exact (ih (hissued _ _ hp')).head hp'

/-- The interfaces of the instance are copies. -/
theorem mem_block_of_labelled? {label : String} (hissued : d.Issued)
    (ha : labelled? d' (interfacesIn d' s) label = some a) : a ∈ m.block := by
  have hmem := List.mem_of_find?_eq_some ha
  obtain ⟨-, e', he', -⟩ := mem_interfacesIn.mp hmem
  refine h.mem_block_iff.mpr ⟨?_, Diagram.lt_bound_of_get? he'⟩
  by_contra hlt
  have hj := Nat.lt_of_not_le hlt
  exact (h.back hj he').1 (h.inside_old hissued hj (inside_of_mem_interfacesIn hmem))

/-- An end is attached to a copy, or is as it was. -/
theorem end_cases {isSource : Bool} (hc : d.get? c = some e) (hrole : e.role = .connector)
    (hc' : d'.get? c = some e') :
    (∃ i x, i ∈ interfacesIn d s ∧ d.get? i = some x ∧ e.endAt isSource = some i ∧
      e'.endAt isSource = labelled? d' (interfacesIn d' s) x.label) ∨
    ∀ a, e'.endAt isSource = some a ↔ e.endAt isSource = some a ∧ ¬ d.Inside a s := by
  by_cases hloose : ∃ i ∈ interfacesIn d s, e.endAt isSource = some i
  · obtain ⟨i, hi, hend⟩ := hloose
    obtain ⟨-, x, hx, -⟩ := mem_interfacesIn.mp hi
    exact .inl ⟨i, x, hi, hx, hend, h.rebound c e e' isSource i x hc hrole hc' hend hi hx⟩
  · exact .inr fun a => h.ends c e e' isSource a hc hc' hrole fun i hi hend => hloose ⟨i, hi, hend⟩

/-- What a copy is in leads to copies along what its original is in, or out of them. -/
theorem inside_cases (hissued : d.Issued) (hs : s < d.bound) (hmem : (o, c) ∈ m.copies)
    (hin : d'.Inside c p) : (∃ q, (q, p) ∈ m.copies ∧ m.diagram.Inside o q) ∨ p < d.bound := by
  -- One step up: to the copy of the parent, or to the instance.
  have hstep : ∀ {o c p}, (o, c) ∈ m.copies → d'.HasParent c p →
      (∃ q, (q, p) ∈ m.copies ∧ m.diagram.HasParent o q) ∨ p < d.bound := by
    rintro o c p hmem ⟨e', he', hp⟩
    obtain ⟨o', drawn, cut, hmem', -, hdrawn, hcopy, -⟩ := h.copy (h.le_of_mem hmem) he'
    obtain rfl := h.original_unique hmem hmem'
    rcases hcopy.parent_cases hp with ⟨rfl, -⟩ | ⟨q, hq, hqp⟩
    · exact .inr hs
    · exact .inl ⟨q, hqp, drawn, hdrawn, hq⟩
  induction hin with
  | single hp => exact (hstep hmem hp).imp (fun ⟨q, hq, hup⟩ => ⟨q, hq, .single hup⟩) id
  | tail _ hp ih =>
    rcases ih with ⟨q, hq, hin⟩ | hlt
    · exact (hstep hq hp).imp (fun ⟨q', hq', hup⟩ => ⟨q', hq', hin.tail hup⟩) id
    · exact .inr (hissued _ _ (h.hasParent_old hlt hp))

/-- **A refresh is a step of the turn of its instance.** -/
theorem frame (hd : Orderly top instances d) (hs : s ∈ instances)
    (hm : Importable m.diagram (m.copies.map Prod.fst)) : Frame (some s) d d' := by
  have hlts := hd.lt_bound hs
  have hout : ∀ {j}, Clear (some s) d j → ¬ d.Inside j s := fun hj => hj s rfl
  have hclear : ∀ {j}, ¬ d.Inside j s → Clear (some s) d j := by
    intro j hj t ht
    rw [Option.mem_def, Option.some.injEq] at ht
    exact ht ▸ hj
  have hconnector : ∀ {c e e'}, d.get? c = some e → d'.get? c = some e' → e'.role = .connector →
      e.role = .connector := by
    intro c e e' he he' hrole
    obtain ⟨-, e₀, he₀, hcore⟩ := h.back (Diagram.lt_bound_of_get? he) he'
    rw [he] at he₀
    cases he₀
    exact (stays_of_core hcore).1.role.symm.trans hrole
  constructor
  case bound => rw [h.bound]; exact Nat.le_add_right _ _
  case kept =>
    intro j e hj he
    obtain ⟨hget, hport⟩ := proper?_eq_some.mp he
    obtain ⟨e', he', hcore⟩ := h.forth (hout hj) hget
    obtain ⟨hstays, hfields⟩ := stays_of_core hcore
    exact ⟨e', proper?_eq_some.mpr ⟨he', hstays.role ▸ hport⟩, hstays, fun _ => hfields⟩
  case old =>
    intro j e' hj he'
    obtain ⟨-, e, he, hcore⟩ := h.back hj he'
    have hstays := (stays_of_core hcore).1
    exact ⟨e, he, hstays.parent, by rw [hstays.role]⟩
  case new =>
    intro j e' hj he'
    obtain ⟨o, drawn, cut, hmem, -, hdrawn, hcopy, -⟩ := h.copy hj he'
    refine ⟨?_, _, hcopy.parent, ?_, fun _ => ?_⟩
    · rw [hcopy.role]
      exact hm.plain o (List.mem_map_of_mem (f := Prod.fst) hmem) drawn hdrawn
    · rcases hcopy.parent_cases hcopy.parent with ⟨heq, -⟩ | ⟨q, -, hq⟩
      · rw [heq, h.bound]
        exact Nat.lt_add_right _ hlts
      · exact (h.mem_block_iff.mp (Import.mem_block hq)).2
    · rcases hcopy.parent_cases hcopy.parent with ⟨heq, -⟩ | ⟨q, -, hq⟩
      · exact .inl (congrArg some heq.symm)
      · exact .inr (h.le_of_mem hq)
  case hung =>
    intro j e' p x hj he' hp hx
    obtain ⟨o, drawn, cut, hmem, -, hdrawn, hcopy, -⟩ := h.copy hj he'
    have ho : o ∈ m.copies.map Prod.fst := List.mem_map_of_mem (f := Prod.fst) hmem
    rcases hcopy.parent_cases hp with ⟨rfl, hnone⟩ | ⟨q, hq, hpair⟩
    · obtain ⟨y, hy, hsub⟩ := hd.sub hs
      obtain ⟨-, y', hy', hcore⟩ := h.back hlts hx
      rw [(proper?_eq_some.mp hy).1] at hy'
      cases hy'
      rw [(stays_of_core hcore).1.role]
      refine ⟨(proper?_eq_some.mp hy).2, fun hport => ?_⟩
      -- A super-port is copied together with its connector.
      obtain ⟨q, z, hq, hmemq, -⟩ := hm.docked o ho drawn hdrawn (hcopy.role ▸ hport)
      obtain ⟨⟨q, k⟩, hpair, rfl⟩ := List.mem_map.mp hmemq
      rw [hq, copyOf?_of_mem h.originals hpair] at hnone
      cases hnone
    · -- The copy is in another copy, and the drawing decides what may be in what.
      obtain ⟨q', drawnq, cut', hmem', -, hdrawnq, hcopyq, -⟩ := h.copy (h.le_of_mem hpair) hx
      obtain rfl := h.original_unique hpair hmem'
      rw [hcopyq.role]
      refine ⟨hm.bare o q drawnq ⟨drawn, hdrawn, hq⟩ hdrawnq, fun hport => ?_⟩
      obtain ⟨q', z, hq', -, hz, hrole⟩ := hm.docked o ho drawn hdrawn (hcopy.role ▸ hport)
      rw [hq, Option.some.injEq] at hq'
      subst hq'
      rw [hdrawnq] at hz
      cases hz
      exact hrole
  case loopless =>
    intro j hj hin
    obtain ⟨e', he'⟩ := hin.live
    obtain ⟨o, drawn, cut, hmem, -⟩ := h.copy hj he'
    -- A loop among the copies would be one in the drawing.
    rcases h.inside_cases hd.issued hlts hmem hin with ⟨q, hq, hloop⟩ | hlt
    · obtain rfl := h.original_unique hmem hq
      exact hm.loopless o hloop
    · exact Nat.not_lt.mpr hj hlt
  case marks =>
    intro a e' first he' hmark
    by_cases ha : a < d.bound
    · obtain ⟨hnot, e, he, hcore⟩ := h.back ha he'
      rw [(stays_of_core hcore).1.role] at hmark
      exact .inl ⟨e, he, hmark, hclear hnot⟩
    · obtain ⟨o, drawn, cut, -, -, hdrawn, hcopy, -⟩ := h.copy (Nat.le_of_not_lt ha) he'
      rw [hcopy.role, hm.unmarked o drawn hdrawn] at hmark
      cases hmark
  case anchored =>
    intro c e' isSource a he' hrole' hend'
    by_cases hc : c < d.bound
    · obtain ⟨-, e, he, -⟩ := h.back hc he'
      have hrole := hconnector he he' hrole'
      -- Ends that were loose are at copies now, and the others are where they were.
      rcases h.end_cases he hrole he' with ⟨i, x, -, -, -, hend⟩ | hends
      · exact (h.mem_block_iff.mp (h.mem_block_of_labelled? hd.issued (hend.symm.trans hend'))).2
      · rw [h.bound]
        exact Nat.lt_add_right _ (hd.anchored c e isSource a he hrole ((hends a).mp hend').1)
    · obtain ⟨o, drawn, cut, -, -, -, hcopy, -⟩ := h.copy (Nat.le_of_not_lt hc) he'
      have hmem := Import.mem_block_of_copyOf? ((hcopy.ends isSource a).mp hend').1
      exact (h.mem_block_iff.mp hmem).2
  case back =>
    intro c e e' isSource a he he' hrole' ha hend'
    rcases h.end_cases he (hconnector he he' hrole') he' with ⟨i, x, -, -, -, hend⟩ | hends
    · have hmem := h.mem_block_of_labelled? hd.issued (hend.symm.trans hend')
      exact absurd ha (Nat.not_lt.mpr (h.mem_block_iff.mp hmem).1)
    · exact ((hends a).mp hend').1
  case moved =>
    intro c e e' isSource a he he' hrole' ha hend'
    have hrole := hconnector he he' hrole'
    rcases h.end_cases he hrole he' with ⟨i, x, hi, -, hend, -⟩ | hends
    · exact ⟨i, hend, isInterface_of_mem_interfacesIn hi, fun hnot =>
        hout hnot (inside_of_mem_interfacesIn hi)⟩
    · exact absurd (hd.anchored c e isSource a he hrole ((hends a).mp hend').1) (Nat.not_lt.mpr ha)
  case stays =>
    intro c e e' isSource a he he' hrole' hend _ hnot
    rcases h.end_cases he (hconnector he he' hrole') he' with ⟨i, x, hi, -, hendi, -⟩ | hends
    · rw [hend, Option.some.injEq] at hendi
      subst hendi
      exact absurd (inside_of_mem_interfacesIn hi) (hout hnot)
    · exact (hends a).mpr ⟨hend, hout hnot⟩
  case newEnds =>
    intro c e' isSource a hc he' _ hend'
    obtain ⟨o, drawn, cut, -, -, -, hcopy, -⟩ := h.copy hc he'
    exact (h.mem_block_iff.mp (Import.mem_block_of_copyOf? ((hcopy.ends isSource a).mp hend').1)).1

/-- **At the end of its turn a refreshed instance is filled** with the copies. -/
theorem filled (hd : Orderly top instances d) (hs : s ∈ instances)
    (hm : Importable m.diagram (m.copies.map Prod.fst)) (nodeCount : Nat) :
    Filled m d.bound s offset top (finished s offset nodeCount d') := by
  have hframe := h.frame hd hs hm
  have hd' := hd.frame hframe fun t ht => Option.some.inj ht ▸ hs
  have hloop := hd'.loopless s
  have hunder : SameUnder s d' (finished s offset nodeCount d') := sameUnder_finished hloop
  have hshape := sameShape_finished s offset nodeCount d'
  have hfor : markFor? (finished s offset nodeCount d') s = markFor? d' s :=
    markFor?_finished hd'.bare hd'.interfacesProper hloop
  have hget : ∀ {j e}, (finished s offset nodeCount d').get? j = some e →
      ∃ e', d'.get? j = some e' ∧ e = tag (markFor? d' s j) (placedAt s offset nodeCount j e') := by
    intro j e he
    rw [get?_finished, markFor?_placed hd'.bare hd'.interfacesProper hloop,
      Option.map_eq_some_iff] at he
    obtain ⟨e', he', rfl⟩ := he
    exact ⟨e', he', rfl⟩
  -- No copy is the instance itself, so a copy gets nothing but a mark.
  have hcopied : ∀ {j e}, j ∈ m.block → (finished s offset nodeCount d').get? j = some e →
      ∃ e', d'.get? j = some e' ∧ e = tag (markFor? d' s j) e' := by
    intro j e hj he
    obtain ⟨e', he', rfl⟩ := hget he
    refine ⟨e', he', ?_⟩
    rw [placedAt, if_neg]
    rintro rfl
    exact Nat.not_lt.mpr (h.mem_block_iff.mp hj).1 (hd.lt_bound hs)
  -- A copy at the end of the turn is what was copied, with a mark perhaps.
  have horiginal : ∀ {o c e drawn}, (o, c) ∈ m.copies → m.diagram.get? o = some drawn →
      (finished s offset nodeCount d').get? c = some e → ∃ e' cut, d'.get? c = some e' ∧
        e = tag (markFor? d' s c) e' ∧ ¬ Broken m o ∧ CopyAt m.copies s offset cut drawn e' ∧
        ∀ a ∈ cut, ∃ p, (p, a) ∈ m.copies ∧ Broken m p := by
    intro o c e drawn hmem hdrawn he
    obtain ⟨e', he', rfl⟩ := hcopied (Import.mem_block hmem) he
    obtain ⟨o', drawn', cut, hmem', hwhole, hdrawn', hcopy, hcut⟩ := h.copy (h.le_of_mem hmem) he'
    obtain rfl := h.original_unique hmem hmem'
    rw [hdrawn] at hdrawn'
    cases hdrawn'
    exact ⟨e', cut, he', rfl, hwhole, hcopy, hcut⟩
  have hdrawn : ∀ {o c e}, (o, c) ∈ m.copies → (finished s offset nodeCount d').get? c = some e →
      ∃ drawn, m.diagram.get? o = some drawn := by
    intro o c e hmem he
    obtain ⟨e', he', -⟩ := hget he
    obtain ⟨o', drawn, cut, hmem', -, hdrawn, -⟩ := h.copy (h.le_of_mem hmem) he'
    obtain rfl := h.original_unique hmem hmem'
    exact ⟨drawn, hdrawn⟩
  obtain ⟨topE, htopE, -⟩ := hd.top_live
  constructor
  case slots => exact h.slots
  case above =>
    refine ⟨hd.lt_bound hs, Diagram.lt_bound_of_proper? htopE, ?_⟩
    rw [bound_finished, h.bound]
  case alike =>
    intro o c e hmem he
    have hlive := (proper?_eq_some.mp he).1
    obtain ⟨drawn, hdrawn⟩ := hdrawn hmem hlive
    obtain ⟨e', cut, -, rfl, hwhole, hcopy, -⟩ := horiginal hmem hdrawn hlive
    rw [broken_iff hdrawn, Bool.not_eq_true] at hwhole
    refine ⟨drawn, hdrawn, hwhole, ⟨?_, ?_, ?_⟩, ?_⟩
    · rw [label_tag, hcopy.label]
    · rw [fields_tag, hcopy.fields]
    · rw [parent_tag, hcopy.parent]
    · rw [unmarked_tag, hcopy.role]
  case whole =>
    intro o c drawn hmem hdrawn hwhole hport
    rw [← Bool.not_eq_true, ← broken_iff hdrawn] at hwhole
    obtain ⟨drawn', e', cut, hdrawn', he', hcopy, -⟩ := h.left o c hmem hwhole
    rw [hdrawn] at hdrawn'
    cases hdrawn'
    obtain ⟨e, he, hunmarked, -⟩ := hshape.symm.back he'
    refine ⟨e, proper?_eq_some.mpr ⟨he, ?_⟩⟩
    rw [← Role.congr_of_unmarked Role.isSuperPort_unmarked hunmarked, hcopy.role, hport]
  case closed =>
    intro j e p he hparent hup
    obtain ⟨hlive, -⟩ := proper?_eq_some.mp he
    obtain ⟨e', he', -, hparent'⟩ := hshape.back hlive
    refine h.mem_block_iff.mpr ⟨?_, Diagram.lt_bound_of_get? he'⟩
    by_contra hlt
    have hj := Nat.lt_of_not_le hlt
    have hp : d.HasParent j p :=
      h.hasParent_old hj ⟨e', he', hparent'.symm.trans hparent⟩
    rcases hup with rfl | hmem
    · exact (h.back hj he').1 (.single hp)
    · exact Nat.not_lt.mpr (h.mem_block_iff.mp hmem).1 (hd.issued j p hp)
  case plain =>
    intro c e hc he
    obtain ⟨e', he', hunmarked, -⟩ := hshape.back he
    rw [Role.congr_of_unmarked Role.isSubNetwork_unmarked hunmarked, Bool.eq_false_iff]
    intro hsub
    have hnetwork := (hframe.new c e' (h.mem_block_iff.mp hc).1 he').1
    rw [Role.isNetwork_of_isSubNetwork hsub] at hnetwork
    cases hnetwork
  case marks =>
    intro c e hc he hrole
    obtain ⟨e', he', rfl⟩ := hcopied hc he
    rw [Role.congr_of_unmarked Role.isInterface_unmarked (unmarked_tag _ e')] at hrole
    obtain ⟨o, drawn, cut, -, -, hdrawn, hcopy, -⟩ := h.copy (h.mem_block_iff.mp hc).1 he'
    rw [mark?_tag _ hrole, hcopy.role, hm.unmarked o drawn hdrawn, Option.or_none, hfor]
  case ends =>
    intro o c e drawn isSource a hmem he _ hdrawn hinterface
    obtain ⟨e', cut, he', rfl, -, hcopy, hcut⟩ := horiginal hmem hdrawn he
    rw [endAt_tag, hcopy.ends]
    refine and_iff_left fun ha => ?_
    -- Ends are cut only where a copy was broken, and what is broken is gone.
    obtain ⟨p, hp, hbroken⟩ := hcut a ha
    rw [hshape.isInterface, isInterface, h.broken p a hp hbroken] at hinterface
    cases hinterface
  case docked =>
    intro c e isSource a x _ hc he hrole hend ha hx _
    obtain ⟨e', he', rfl⟩ := hget he
    obtain ⟨x', hx', rfl⟩ := hcopied ha hx
    have hlt : c < d.bound := by
      by_contra hle
      exact hc (h.mem_block_iff.mpr ⟨Nat.le_of_not_lt hle, Diagram.lt_bound_of_get? he'⟩)
    have hend' : e'.endAt isSource = some a := by
      rw [endAt_tag, placedAt] at hend
      split at hend
      · cases isSource <;> exact hend
      · exact hend
    obtain ⟨-, e₀, he₀, hcore⟩ := h.back hlt he'
    have hrole₀ : e₀.role = .connector := by
      obtain ⟨e₁, he₁, hunmarked, -⟩ := hshape.back he
      rw [he'] at he₁
      cases he₁
      rw [← (stays_of_core hcore).1.role, ← Role.unmarked_eq_connector, ← hunmarked, hrole]
      rfl
    rw [label_tag, hunder.labelled? hd'.bare (hshape.bare hd'.bare)]
    -- An end at a copy was attached to it, since it was elsewhere before the turn.
    rcases h.end_cases he₀ hrole₀ he' with ⟨i, x₀, -, -, -, hfirst⟩ | hends
    · rw [hend', eq_comm] at hfirst
      have hlabel := List.find?_some hfirst
      rw [hx', Option.any_some, beq_iff_eq] at hlabel
      rw [hlabel]
      exact hfirst
    · have hanchored := hd.anchored c e₀ isSource a he₀ hrole₀ ((hends a).mp hend').1
      exact absurd hanchored (Nat.not_lt.mpr (h.mem_block_iff.mp ha).1)

end Renewed

end Netlist.Assembly
