import Netlist.Proofs.Assembly.Frame
import Netlist.Proofs.Assembly.Leftovers

/-!
# Content that came from a drawing

A refreshed instance is filled with copies of a drawing, in a block of slots of its own.
Much of what a diagram says about such an instance it says about the drawing, so when
the same drawing is imported again, into another block, the same is said there.

- `Filled`: an instance with what an import left in it, its duplicates marked and the
  connectors from outside at the first interface of a label.
- `Filled.frame`: **an instance stays filled** while it is not its turn.
- `slide`: one block moved onto another; `copies_slide`, `copyOf?_slide`.
- `Filled.reproduces`: **the findings are the same when the same drawing is imported
  again.**
-/

namespace Netlist.Assembly

open Diagram (proper?_eq_some)

variable {turn : Option Slot} {d d' : Diagram} {m m' : Import} {s t a c i j o p q top : Slot}
  {start length start' offset : Nat} {instances : List Slot} {e e' drawn : Element}
  {copies copies' : List (Slot × Slot)}

/-! ## What an import fills -/

/-- The slots of the copies. -/
def Import.block (m : Import) : List Slot := m.copies.map Prod.snd

/-- An instance with what an import left in it: the copies are in a block of slots that
begins at `start`, those of whole originals are there, and no other element is in the
instance or in one of them. Connectors from outside end at the first interface of its
label. -/
structure Filled (m : Import) (start : Nat) (s : Slot) (offset : Nat) (top : Slot) (d : Diagram) :
    Prop where
  slots : m.block = List.range' start m.copies.length
  above : s < start ∧ top < start ∧ start + m.copies.length ≤ d.bound
  alike : ∀ o c e, (o, c) ∈ m.copies → d.proper? c = some e → ∃ drawn,
    m.diagram.get? o = some drawn ∧ isBroken m.copies drawn = false ∧
      Mirrors m.copies s offset drawn e ∧ e.role.unmarked = drawn.role.unmarked
  whole : ∀ o c drawn, (o, c) ∈ m.copies → m.diagram.get? o = some drawn →
    isBroken m.copies drawn = false → drawn.role.isSuperPort = false → ∃ e, d.proper? c = some e
  closed : ∀ j e p, d.proper? j = some e → e.parent = some p → p = s ∨ p ∈ m.block → j ∈ m.block
  plain : ∀ c e, c ∈ m.block → d.get? c = some e → e.role.isSubNetwork = false
  marks : ∀ c e, c ∈ m.block → d.get? c = some e → e.role.isInterface = true →
    e.role.mark? = markFor? d s c
  ends : ∀ o c e drawn isSource a, (o, c) ∈ m.copies → d.get? c = some e → e.role = .connector →
    m.diagram.get? o = some drawn → isInterface d a = true →
    (e.endAt isSource = some a ↔ copyOf? m.copies (drawn.endAt isSource) = some a)
  docked : ∀ c e isSource a x, d.Inside c top → c ∉ m.block → d.get? c = some e →
    e.role = .connector → e.endAt isSource = some a → a ∈ m.block → d.get? a = some x →
    x.role.isInterface = true → labelled? d (interfacesIn d s) x.label = some a

theorem Import.mem_block (h : (o, c) ∈ m.copies) : c ∈ m.block :=
  List.mem_map_of_mem (f := Prod.snd) h

theorem Import.exists_original (hc : c ∈ m.block) : ∃ o, (o, c) ∈ m.copies := by
  obtain ⟨⟨o, c⟩, hmem, rfl⟩ := List.mem_map.mp hc
  exact ⟨o, hmem⟩

theorem Import.mem_block_of_copyOf? {original : Option Slot}
    (h : copyOf? m.copies original = some c) : c ∈ m.block := by
  obtain ⟨o, -, hmem⟩ := copyOf?_eq_some h
  exact Import.mem_block hmem

namespace Filled

theorem mem_block_iff (h : Filled m start s offset top d) :
    j ∈ m.block ↔ start ≤ j ∧ j < start + m.copies.length := by
  rw [h.slots, List.mem_range'_1]

theorem lt_bound (h : Filled m start s offset top d) (hj : j ∈ m.block) : j < d.bound := by
  have := h.mem_block_iff.mp hj
  have := h.above
  grind

theorem not_mem_block (h : Filled m start s offset top d) (hj : j < start) : j ∉ m.block := by
  rw [h.mem_block_iff]
  grind

/-- What a copy is in is the instance or another copy. -/
theorem parent_of_mem (h : Filled m start s offset top d) (hc : c ∈ m.block)
    (he : d.proper? c = some e) : ∃ p, e.parent = some p ∧ (p = s ∨ p ∈ m.block) := by
  obtain ⟨o, hpair⟩ := Import.exists_original hc
  obtain ⟨drawn, -, -, hmirrors, -⟩ := h.alike o c e hpair he
  refine ⟨_, hmirrors.parent, ?_⟩
  rw [parentAmong]
  cases hcopy : copyOf? m.copies drawn.parent with
  | none => exact .inl rfl
  | some p => exact .inr (Import.mem_block_of_copyOf? hcopy)

/-- Whatever is in the instance is a copy. -/
theorem mem_of_inside (h : Filled m start s offset top d) (hbare : d.BarePorts)
    (he : d.proper? j = some e) (hin : d.Inside j s) : j ∈ m.block := by
  induction hin using Relation.TransGen.head_induction_on generalizing e with
  | single hp =>
    obtain ⟨x, hx, hparent⟩ := hp
    rw [(proper?_eq_some.mp he).1] at hx
    cases hx
    exact h.closed _ e s he hparent (.inl rfl)
  | head hp hin ih =>
    obtain ⟨y, hy⟩ := Diagram.Inside.live hin
    have hmem := ih (proper?_eq_some.mpr ⟨hy, hbare _ _ y hp hy⟩)
    obtain ⟨x, hx, hparent⟩ := hp
    rw [(proper?_eq_some.mp he).1] at hx
    cases hx
    exact h.closed _ e _ he hparent (.inr hmem)

/-- The way up from a copy leads through the instance, if it leads out of the copies. -/
theorem passes (h : Filled m start s offset top d) (hbare : d.BarePorts) (hc : c ∈ m.block)
    (he : d.proper? c = some e) (hin : d.Inside c q) (hq : q ∉ m.block) :
    d.Inside c s ∧ (q = s ∨ d.Inside s q) := by
  induction hin using Relation.TransGen.head_induction_on generalizing e with
  | @single c hp =>
    obtain ⟨p, hparent, hup⟩ := h.parent_of_mem hc he
    obtain rfl : p = q := by
      obtain ⟨x, hx, hq⟩ := id hp
      rw [(proper?_eq_some.mp he).1] at hx
      cases hx
      rw [hparent] at hq
      exact Option.some.inj hq
    obtain rfl := hup.resolve_right hq
    exact ⟨.single hp, .inl rfl⟩
  | @head c k hp hin ih =>
    obtain ⟨p, hparent, hup⟩ := h.parent_of_mem hc he
    obtain rfl : p = k := by
      obtain ⟨x, hx, hk⟩ := id hp
      rw [(proper?_eq_some.mp he).1] at hx
      cases hx
      rw [hparent] at hk
      exact Option.some.inj hk
    rcases hup with rfl | hmem
    · exact ⟨.single hp, .inr hin⟩
    · obtain ⟨y, hy⟩ := Diagram.Inside.live hin
      obtain ⟨hinside, hrest⟩ := ih hmem (proper?_eq_some.mpr ⟨hy, hbare _ _ y hp hy⟩)
      exact ⟨hinside.head hp, hrest⟩

/-- A copy of which something is in another instance would have this instance in it. -/
theorem clear (h : Filled m start s offset top d) (hd : Orderly top instances d)
    (hturn : ∀ t ∈ turn, t ∈ instances ∧ t ≠ s) (hs : s ∈ instances) (hc : c ∈ m.block)
    (he : d.proper? c = some e) : Clear turn d c ∧ c ∉ turn := by
  have hout : ∀ {t}, t ∈ instances → t ∉ m.block := by
    intro t ht hmem
    obtain ⟨x, hx, hsub⟩ := hd.sub ht
    rw [h.plain t x hmem (proper?_eq_some.mp hx).1] at hsub
    cases hsub
  refine ⟨fun t ht hin => ?_, fun hmem => hout (hturn c hmem).1 hc⟩
  obtain ⟨htmem, hne⟩ := hturn t ht
  obtain ⟨-, heq | hin'⟩ := h.passes hd.bare hc he hin (hout htmem)
  · exact hne heq
  · exact hd.flat hs htmem hin'

/-- An element of the block is there iff its original asks for it. -/
theorem exists_proper_iff (h : Filled m start s offset top d) (hpair : (o, c) ∈ m.copies) :
    (∃ e, d.proper? c = some e) ↔ ∃ drawn, m.diagram.get? o = some drawn ∧
      isBroken m.copies drawn = false ∧ drawn.role.isSuperPort = false := by
  constructor
  · rintro ⟨e, he⟩
    obtain ⟨drawn, hdrawn, hwhole, -, hrole⟩ := h.alike o c e hpair he
    refine ⟨drawn, hdrawn, hwhole, ?_⟩
    rw [← Role.congr_of_unmarked Role.isSuperPort_unmarked hrole]
    exact (proper?_eq_some.mp he).2
  · rintro ⟨drawn, hdrawn, hwhole, hport⟩
    exact h.whole o c drawn hpair hdrawn hwhole hport

end Filled

/-! ## While it is not its turn -/

/-- What is labelled in an instance is the same as long as the same is in it. -/
theorem SameUnder.labelled? (h : SameUnder s d d') (hbare : d.BarePorts) (hbare' : d'.BarePorts)
    (label : String) : Assembly.labelled? d' (Assembly.interfacesIn d' s) label =
      Assembly.labelled? d (Assembly.interfacesIn d s) label := by
  rw [h.interfacesIn hbare hbare', Assembly.labelled?, Assembly.labelled?]
  refine List.find?_congr fun i hi => ?_
  obtain ⟨-, -, hin, x, hx, -⟩ := mem_interfacesIn_iff_proper?.mp hi
  obtain ⟨x', hx', hlike⟩ := h.kept i x hin hx
  rw [(proper?_eq_some.mp hx).1, (proper?_eq_some.mp hx').1, Option.any_some, Option.any_some,
    hlike.label]

/-- **An instance stays filled** while it is not its turn. -/
theorem Filled.frame (h : Filled m start s offset top d) (hframe : Frame turn d d')
    (hd : Orderly top instances d) (hd' : Orderly top instances d')
    (hturn : ∀ t ∈ turn, t ∈ instances ∧ t ≠ s) (hs : s ∈ instances) :
    Filled m start s offset top d' := by
  -- Nothing of the block is in the instance whose turn it is, so the block stays.
  have hback : ∀ {c e'}, c ∈ m.block → d'.proper? c = some e' → ∃ e, d.proper? c = some e ∧
      Stays e e' ∧ e'.fields = e.fields := by
    intro c e' hc he'
    obtain ⟨e, he, -⟩ := hframe.proper_old (h.lt_bound hc) he'
    obtain ⟨hclear, hnot⟩ := h.clear hd hturn hs hc he
    obtain ⟨e'', he'', hstays, hfields⟩ := hframe.kept c e hclear he
    rw [he'] at he''
    cases he''
    exact ⟨e, he, hstays, hfields hnot⟩
  have hclear : ∀ {a}, a ∈ m.block → Assembly.isInterface d a = true → Clear turn d a := by
    intro a ha hinterface
    obtain ⟨x, hx, -⟩ := isInterface_iff_proper?.mp hinterface
    exact (h.clear hd hturn hs ha hx).1
  have hconnector : ∀ {c e' e}, c < d.bound → d'.get? c = some e' → e'.role = .connector →
      d.get? c = some e → e.role = .connector := by
    intro c e' e hc he' hrole he
    obtain ⟨e₀, he₀, -, hunmarked⟩ := hframe.old c e' hc he'
    rw [he] at he₀
    cases he₀
    rw [← Role.unmarked_eq_connector, ← hunmarked, hrole]
    rfl
  constructor
  case slots => exact h.slots
  case above => exact ⟨h.above.1, h.above.2.1, Nat.le_trans h.above.2.2 hframe.bound⟩
  case alike =>
    intro o c e' hpair he'
    obtain ⟨e, he, hstays, hfields⟩ := hback (Import.mem_block hpair) he'
    obtain ⟨drawn, hdrawn, hwhole, hmirrors, hrole⟩ := h.alike o c e hpair he
    refine ⟨drawn, hdrawn, hwhole, ⟨?_, ?_, ?_⟩, ?_⟩
    · rw [hstays.label, hmirrors.label]
    · rw [hfields, hmirrors.fields]
    · rw [hstays.parent, hmirrors.parent]
    · rw [hstays.role, hrole]
  case whole =>
    intro o c drawn hpair hdrawn hwhole hport
    obtain ⟨e, he⟩ := h.whole o c drawn hpair hdrawn hwhole hport
    obtain ⟨e', he', -⟩ := hframe.kept c e (h.clear hd hturn hs (Import.mem_block hpair) he).1 he
    exact ⟨e', he'⟩
  case closed =>
    intro j e' p he' hparent' hp
    by_cases hj : j < d.bound
    · obtain ⟨e, he, hparent, -⟩ := hframe.proper_old hj he'
      exact h.closed j e p he (hparent.symm.trans hparent') hp
    · -- New elements are in the instance whose turn it is, or in each other.
      exfalso
      obtain ⟨hget', hport'⟩ := proper?_eq_some.mp he'
      obtain ⟨-, p', hp', -, hnew⟩ := hframe.new j e' (Nat.le_of_not_lt hj) hget'
      rw [hparent', Option.some.injEq] at hp'
      subst hp'
      have hlt : p < d.bound := by
        rcases hp with rfl | hmem
        · exact hd.lt_bound hs
        · exact h.lt_bound hmem
      rcases hnew hport' with hmem | hle
      · obtain ⟨htmem, hne⟩ := hturn p hmem
        rcases hp with rfl | hblock
        · exact hne rfl
        · obtain ⟨x, hx, hsub⟩ := hd.sub htmem
          rw [h.plain p x hblock (proper?_eq_some.mp hx).1] at hsub
          cases hsub
      · exact Nat.not_lt.mpr hle hlt
  case plain =>
    intro c e' hc he'
    obtain ⟨e, he, -, hunmarked⟩ := hframe.old c e' (h.lt_bound hc) he'
    exact (Role.congr_of_unmarked Role.isSubNetwork_unmarked hunmarked).trans (h.plain c e hc he)
  case marks =>
    intro c e' hc he' hrole'
    obtain ⟨e, he, hstays, -⟩ :=
      hback hc (proper?_eq_some.mpr ⟨he', Role.isSuperPort_of_isInterface hrole'⟩)
    rw [hframe.markFor? hd hd' hturn hs, hstays.role]
    exact h.marks c e hc (proper?_eq_some.mp he).1 (hstays.role ▸ hrole')
  case ends =>
    intro o c e' drawn isSource a hpair he' hrole' hdrawn hinterface'
    have hc := Import.mem_block hpair
    obtain ⟨e, he, hstays, -⟩ :=
      hback hc (proper?_eq_some.mpr ⟨he', isSuperPort_of_connector hrole'⟩)
    have hget := (proper?_eq_some.mp he).1
    have hrole : e.role = .connector := hstays.role ▸ hrole'
    have hends := fun {a} hinterface => h.ends o c e drawn isSource a hpair hget hrole hdrawn hinterface
    constructor
    · intro hend'
      by_cases ha : a < d.bound
      · exact (hends (hframe.isInterface_old ha hinterface')).mp
          (hframe.back c e e' isSource a hget he' hrole' ha hend')
      · -- The end would have moved on from a copy that is replaced, and none is.
        exfalso
        obtain ⟨a₀, hend, hinterface, hnot⟩ :=
          hframe.moved c e e' isSource a hget he' hrole' (Nat.le_of_not_lt ha) hend'
        exact hnot (hclear (Import.mem_block_of_copyOf? ((hends hinterface).mp hend)) hinterface)
    · intro hcopy
      have hmem := Import.mem_block_of_copyOf? hcopy
      have hinterface := hframe.isInterface_old (h.lt_bound hmem) hinterface'
      exact hframe.stays c e e' isSource a hget he' hrole' ((hends hinterface).mpr hcopy) hinterface
        (hclear hmem hinterface)
  case docked =>
    intro c e' isSource a x' hin hc he' hrole' hend' ha hx' hinterface'
    -- A new connector ends at new elements only.
    have hlt : c < d.bound := by
      by_contra hle
      have := hframe.newEnds c e' isSource a (Nat.le_of_not_lt hle) he' hrole' hend'
      exact Nat.not_lt.mpr this (h.lt_bound ha)
    obtain ⟨e, he, -, -⟩ := hframe.old c e' hlt he'
    obtain ⟨x, hx, hstays, -⟩ :=
      hback ha (proper?_eq_some.mpr ⟨hx', Role.isSuperPort_of_isInterface hinterface'⟩)
    rw [hstays.label, (hframe.sameUnder hd hturn hs).labelled? hd.bare hd'.bare]
    exact h.docked c e isSource a x (hframe.inside_old hd.issued hlt hin) hc he
      (hconnector hlt he' hrole' he)
      (hframe.back c e e' isSource a he he' hrole' (h.lt_bound ha) hend')
      ha (proper?_eq_some.mp hx).1 (hstays.role ▸ hinterface')

/-! ## Moving a block -/

/-- The slots of one block moved onto those of another one. -/
def slide (start length start' : Nat) (j : Slot) : Slot :=
  if start ≤ j ∧ j < start + length then j - start + start' else j

theorem slide_of_mem (h : start ≤ j ∧ j < start + length) :
    slide start length start' j = j - start + start' := if_pos h

theorem slide_of_not_mem (h : ¬ (start ≤ j ∧ j < start + length)) :
    slide start length start' j = j := if_neg h

/-- The same originals with their copies in another block. -/
theorem copies_slide (horiginals : copies'.map Prod.fst = copies.map Prod.fst)
    (hslots : copies.map Prod.snd = List.range' start copies.length)
    (hslots' : copies'.map Prod.snd = List.range' start' copies'.length) :
    copies' = copies.map (Prod.map id (slide start copies.length start')) := by
  have hlength : copies'.length = copies.length := by
    rw [← List.length_map Prod.fst, horiginals, List.length_map]
  refine List.ext_getElem (by rw [hlength, List.length_map]) fun k hk' _ => ?_
  have hk := hlength ▸ hk'
  have hfst : copies'[k].1 = copies[k].1 := by
    have := List.getElem_of_eq horiginals (i := k) (by rwa [List.length_map])
    rwa [List.getElem_map, List.getElem_map] at this
  have hsnd : copies[k].2 = start + k := by
    have := List.getElem_of_eq hslots (i := k) (by rwa [List.length_map])
    rwa [List.getElem_map, List.getElem_range', Nat.one_mul] at this
  have hsnd' : copies'[k].2 = start' + k := by
    have := List.getElem_of_eq hslots' (i := k) (by rwa [List.length_map])
    rwa [List.getElem_map, List.getElem_range', Nat.one_mul] at this
  rw [List.getElem_map]
  refine Prod.ext hfst ?_
  rw [Prod.map_snd, hsnd, hsnd', slide_of_mem ⟨Nat.le_add_right _ _, Nat.add_lt_add_left hk _⟩,
    Nat.add_sub_cancel_left, Nat.add_comm]

theorem lookup_map_snd (f : Slot → Slot) (copies : List (Slot × Slot)) (o : Slot) :
    (copies.map (Prod.map id f)).lookup o = (copies.lookup o).map f := by
  induction copies with
  | nil => rfl
  | cons p copies ih =>
    rw [List.map_cons, List.lookup_cons, List.lookup_cons, ih, Prod.map_fst, Prod.map_snd, id]
    cases o == p.1 <;> rfl

theorem copyOf?_map (f : Slot → Slot) (copies : List (Slot × Slot)) (o : Option Slot) :
    copyOf? (copies.map (Prod.map id f)) o = (copyOf? copies o).map f := by
  rw [copyOf?, copyOf?, Option.map_bind]
  congr 1
  exact funext fun o => lookup_map_snd f copies o

theorem isBroken_map (f : Slot → Slot) (copies : List (Slot × Slot)) (drawn : Element) :
    isBroken (copies.map (Prod.map id f)) drawn = isBroken copies drawn := by
  simp only [isBroken, copyOf?_map, Option.isNone_map]

theorem parentAmong_map {f : Slot → Slot} (copies : List (Slot × Slot)) (hs : f s = s)
    (drawn : Element) : parentAmong (copies.map (Prod.map id f)) s drawn =
      f (parentAmong copies s drawn) := by
  rw [parentAmong, parentAmong, copyOf?_map]
  cases copyOf? copies drawn.parent with
  | none => exact hs.symm
  | some p => rfl

/-! ## Importing again -/

/-- The connectors that end at interfaces of an instance end at its first interfaces of the
same labels afterwards. -/
def Rebound (s : Slot) (d d' : Diagram) : Prop := ∀ c e e' isSource a x, d.get? c = some e →
  e.role = .connector → d'.get? c = some e' → e.endAt isSource = some a → a ∈ interfacesIn d s →
  d.get? a = some x → e'.endAt isSource = labelled? d' (interfacesIn d' s) x.label

/-- The drawing that fills an instance was imported again, into a new block. -/
structure Refilled (m m' : Import) (start : Nat) (s : Slot) (offset : Nat) (top : Slot)
    (instances : List Slot) (d d' : Diagram) : Prop where
  before : Filled m start s offset top d
  after : Filled m' d.bound s offset top d'
  diagram : m'.diagram = m.diagram
  originals : m'.copies.map Prod.fst = m.copies.map Prod.fst
  frame : Frame (some s) d d'
  orderly : Orderly top instances d
  orderly' : Orderly top instances d'
  mem : s ∈ instances
  fields : ∀ e e', d.get? s = some e → d'.get? s = some e' → e'.fields = e.fields
  rebound : Rebound s d d'

namespace Refilled

variable (h : Refilled m m' start s offset top instances d d')

include h

theorem copies_eq : m'.copies = m.copies.map (Prod.map id (slide start m.copies.length d.bound)) :=
  copies_slide h.originals h.before.slots h.after.slots

theorem fixed (hj : j ∉ m.block) : slide start m.copies.length d.bound j = j :=
  slide_of_not_mem (h.before.mem_block_iff.not.mp hj)

theorem moved (hj : j ∈ m.block) : slide start m.copies.length d.bound j = j - start + d.bound :=
  slide_of_mem (h.before.mem_block_iff.mp hj)

/-- The order within the block is kept. -/
theorem moved_lt (hi : i ∈ m.block) (hj : j ∈ m.block) (hlt : i < j) :
    slide start m.copies.length d.bound i < slide start m.copies.length d.bound j := by
  have := h.before.mem_block_iff.mp hi
  rw [h.moved hi, h.moved hj]
  grind

theorem pair (hpair : (o, c) ∈ m.copies) :
    (o, slide start m.copies.length d.bound c) ∈ m'.copies := by
  rw [h.copies_eq]
  exact List.mem_map_of_mem (f := Prod.map id (slide start m.copies.length d.bound)) hpair

theorem mem_block (hj : j ∈ m.block) : slide start m.copies.length d.bound j ∈ m'.block := by
  obtain ⟨o, hpair⟩ := Import.exists_original hj
  exact Import.mem_block (h.pair hpair)

/-- The slots of the new block are the moved ones. -/
theorem exists_of_mem_block (hj : j ∈ m'.block) : ∃ o i, (o, i) ∈ m.copies ∧
    slide start m.copies.length d.bound i = j := by
  obtain ⟨o, hpair⟩ := Import.exists_original hj
  rw [h.copies_eq] at hpair
  obtain ⟨⟨o', i⟩, hmem, heq⟩ := List.mem_map.mp hpair
  exact ⟨o', i, hmem, congrArg Prod.snd heq⟩

theorem injective (hi : i < d.bound) (hj : j < d.bound)
    (heq : slide start m.copies.length d.bound i = slide start m.copies.length d.bound j) :
    i = j := by
  have := h.before.above
  by_cases hmem : i ∈ m.block <;> by_cases hmem' : j ∈ m.block
  · have := h.before.mem_block_iff.mp hmem
    have := h.before.mem_block_iff.mp hmem'
    rw [h.moved hmem, h.moved hmem'] at heq
    grind
  · rw [h.moved hmem, h.fixed hmem'] at heq
    grind
  · rw [h.fixed hmem, h.moved hmem'] at heq
    grind
  · rwa [h.fixed hmem, h.fixed hmem'] at heq

theorem fixed_instance : slide start m.copies.length d.bound s = s :=
  h.fixed (h.before.not_mem_block h.before.above.1)

theorem fixed_top : slide start m.copies.length d.bound top = top :=
  h.fixed (h.before.not_mem_block h.before.above.2.1)

theorem parentAmong_eq (drawn : Element) : parentAmong m'.copies s drawn =
    slide start m.copies.length d.bound (parentAmong m.copies s drawn) := by
  rw [h.copies_eq]
  exact parentAmong_map m.copies h.fixed_instance drawn

theorem parentAmong_lt (drawn : Element) : parentAmong m.copies s drawn < d.bound := by
  rw [parentAmong]
  cases hcopy : copyOf? m.copies drawn.parent with
  | none => exact h.orderly.lt_bound h.mem
  | some p => exact h.before.lt_bound (Import.mem_block_of_copyOf? hcopy)

/-- A slot of one block is taken iff the slot of the other block is. -/
theorem exists_proper_iff (hpair : (o, c) ∈ m.copies) :
    (∃ e', d'.proper? (slide start m.copies.length d.bound c) = some e') ↔
      ∃ e, d.proper? c = some e := by
  rw [h.after.exists_proper_iff (h.pair hpair), h.before.exists_proper_iff hpair, h.diagram]
  simp only [h.copies_eq, isBroken_map]

/-- The copies of one original are alike. -/
theorem like_of_mem (hpair : (o, c) ∈ m.copies) (he : d.proper? c = some e)
    (he' : d'.proper? (slide start m.copies.length d.bound c) = some e') :
    Like (slide start m.copies.length d.bound) e e' := by
  obtain ⟨drawn, hdrawn, -, hmirrors, hrole⟩ := h.before.alike o c e hpair he
  obtain ⟨drawn', hdrawn', -, hmirrors', hrole'⟩ := h.after.alike o _ e' (h.pair hpair) he'
  rw [h.diagram, hdrawn] at hdrawn'
  cases hdrawn'
  refine ⟨hrole'.trans hrole.symm, ?_, ?_, ?_⟩
  · rw [hmirrors'.label, hmirrors.label]
  · rw [hmirrors'.fields, hmirrors.fields]
  · rw [hmirrors'.parent, hmirrors.parent, h.parentAmong_eq, Option.map_some]

/-- Whatever is no copy is not in the instance. -/
theorem clear_of_not_mem (he : d.proper? j = some e) (hj : j ∉ m.block) : Clear (some s) d j := by
  intro t ht hin
  rw [Option.mem_def, Option.some.injEq] at ht
  subst ht
  exact hj (h.before.mem_of_inside h.orderly.bare he hin)

/-- Whatever is no copy stays. -/
theorem like_of_not_mem (he : d.proper? j = some e) (hj : j ∉ m.block) :
    ∃ e', d'.proper? j = some e' ∧ e'.role = e.role ∧
      Like (slide start m.copies.length d.bound) e e' := by
  obtain ⟨e', he', hstays, hfields⟩ := h.frame.kept j e (h.clear_of_not_mem he hj) he
  refine ⟨e', he', hstays.role, by rw [hstays.role], hstays.label, ?_, ?_⟩
  · by_cases hs : j = s
    · subst hs
      exact h.fields e e' (proper?_eq_some.mp he).1 (proper?_eq_some.mp he').1
    · exact hfields fun hmem => hs (Option.some.inj hmem).symm
  · rw [hstays.parent]
    cases hparent : e.parent with
    | none => rfl
    | some p =>
      have hp : p ∉ m.block := fun hmem => hj (h.before.closed j e p he hparent (.inr hmem))
      rw [Option.map_some, h.fixed hp]

/-- **The diagram with the new content carries the one with the old content.** -/
theorem carries : Carries (slide start m.copies.length d.bound) d d' where
  bound := by
    intro i hi
    by_cases hmem : i ∈ m.block
    · exact h.after.lt_bound (h.mem_block hmem)
    · rw [h.fixed hmem]
      exact Nat.lt_of_lt_of_le hi h.frame.bound
  injective := fun i hi j hj => h.injective hi hj
  element := by
    intro i e he
    by_cases hmem : i ∈ m.block
    · obtain ⟨o, hpair⟩ := Import.exists_original hmem
      obtain ⟨e', he'⟩ := (h.exists_proper_iff hpair).mpr ⟨e, he⟩
      exact ⟨e', he', h.like_of_mem hpair he he'⟩
    · obtain ⟨e', he', -, hlike⟩ := h.like_of_not_mem he hmem
      exact ⟨e', by rwa [h.fixed hmem], hlike⟩
  child := by
    intro a j e' ha he' hparent
    by_cases hup : a = s ∨ a ∈ m.block
    · -- What is in the instance or in a copy is a copy.
      have hj : j ∈ m'.block := by
        refine h.after.closed j e' _ he' hparent ?_
        rcases hup with rfl | hmem
        · exact .inl h.fixed_instance
        · exact .inr (h.mem_block hmem)
      obtain ⟨o, i, hpair, rfl⟩ := h.exists_of_mem_block hj
      obtain ⟨e, he⟩ := (h.exists_proper_iff hpair).mp ⟨e', he'⟩
      refine ⟨i, e, he, ?_, rfl⟩
      obtain ⟨drawn, -, -, hmirrors, -⟩ := h.before.alike o i e hpair he
      have hlike := h.like_of_mem hpair he he'
      rw [hlike.parent, hmirrors.parent, Option.map_some, Option.some.injEq] at hparent
      rw [hmirrors.parent, h.injective (h.parentAmong_lt drawn) ha hparent]
    · rw [not_or] at hup
      rw [h.fixed hup.2] at hparent
      -- A new element would be in the instance or in a copy, and `a` is neither.
      have hj : j < d.bound := by
        by_contra hj
        obtain ⟨hget', hport'⟩ := proper?_eq_some.mp he'
        obtain ⟨-, p, hp, -, hnew⟩ := h.frame.new j e' (Nat.le_of_not_lt hj) hget'
        rw [hparent, Option.some.injEq] at hp
        subst hp
        rcases hnew hport' with hmem | hle
        · exact hup.1 (Option.some.inj hmem).symm
        · exact Nat.not_lt.mpr hle ha
      obtain ⟨e, he, hsame, -⟩ := h.frame.proper_old hj he'
      refine ⟨j, e, he, hsame.symm.trans hparent, h.fixed fun hmem => ?_⟩
      obtain ⟨p, hp, hcase⟩ := h.before.parent_of_mem hmem he
      rw [hsame.symm.trans hparent, Option.some.injEq] at hp
      subst hp
      exact not_or.mpr hup hcase
  ordered := by
    intro i j e e' p he he' hp hp' hlt
    -- Elements with one parent are all copies, or none of them is.
    have hside : ∀ {i j e e'}, d.proper? i = some e → d.proper? j = some e' → e.parent = some p →
        e'.parent = some p → i ∈ m.block → j ∈ m.block := by
      intro i j e e' he he' hp hp' hi
      obtain ⟨q, hq, hcase⟩ := h.before.parent_of_mem hi he
      rw [hp, Option.some.injEq] at hq
      subst hq
      exact h.before.closed j e' p he' hp' hcase
    by_cases hi : i ∈ m.block
    · exact h.moved_lt hi (hside he he' hp hp' hi) hlt
    · have hj : j ∉ m.block := fun hj => hi (hside he' he hp' hp hj)
      rwa [h.fixed hi, h.fixed hj]

/-- The interfaces of the instance are carried in order. -/
theorem interfacesIn_eq : Assembly.interfacesIn d' s =
    (Assembly.interfacesIn d s).map (slide start m.copies.length d.bound) := by
  have hcarries := h.carries
  have hblock : ∀ {i}, i ∈ Assembly.interfacesIn d s → i ∈ m.block := by
    intro i hi
    obtain ⟨-, -, hin, e, he, -⟩ := mem_interfacesIn_iff_proper?.mp hi
    exact h.before.mem_of_inside h.orderly.bare he hin
  obtain ⟨x, hx, -⟩ := h.orderly.sub h.mem
  obtain ⟨x', hx', -⟩ := h.orderly'.sub h.mem
  refine List.Pairwise.eq_of_mem_iff (sorted_interfacesIn d' s) ?_ fun j => ?_
  · rw [List.pairwise_map]
    refine (sorted_interfacesIn d s).imp_of_mem fun {i j} hi hj hlt => ?_
    exact h.moved_lt (hblock hi) (hblock hj) hlt
  · rw [List.mem_map, mem_interfacesIn_iff_proper?]
    constructor
    · rintro ⟨-, -, hin', e', he', hrole'⟩
      obtain ⟨i, e, he, hin, rfl⟩ := hcarries.inside_back h.orderly'.bare
        (h.orderly.lt_bound h.mem) he' (by rwa [h.fixed_instance])
      obtain ⟨e'', he'', hlike⟩ := hcarries.element i e he
      rw [he'] at he''
      cases he''
      refine ⟨i, mem_interfacesIn_iff_proper?.mpr ⟨⟨x, (proper?_eq_some.mp hx).1⟩, ?_, hin, e, he, ?_⟩,
        rfl⟩
      · rintro rfl
        exact h.orderly.loopless _ hin
      · exact (Role.congr_of_unmarked Role.isInterface_unmarked hlike.role).symm.trans hrole'
    · rintro ⟨i, hi, rfl⟩
      obtain ⟨-, -, hin, e, he, hrole⟩ := mem_interfacesIn_iff_proper?.mp hi
      obtain ⟨e', he', hlike⟩ := hcarries.element i e he
      have hin' := hcarries.inside h.orderly.bare he hin
      rw [h.fixed_instance] at hin'
      refine ⟨⟨x', (proper?_eq_some.mp hx').1⟩, ?_, hin', e', he', ?_⟩
      · intro heq
        rw [heq] at hin'
        exact h.orderly'.loopless _ hin'
      · exact (Role.congr_of_unmarked Role.isInterface_unmarked hlike.role).trans hrole

/-- The first interface of a label is carried to the first one there. -/
theorem labelled?_eq (label : String) :
    Assembly.labelled? d' (Assembly.interfacesIn d' s) label =
      (Assembly.labelled? d (Assembly.interfacesIn d s) label).map
        (slide start m.copies.length d.bound) := by
  rw [h.interfacesIn_eq, Assembly.labelled?, Assembly.labelled?, List.find?_map]
  congr 1
  refine List.find?_congr fun i hi => ?_
  obtain ⟨-, -, -, e, he, -⟩ := mem_interfacesIn_iff_proper?.mp hi
  obtain ⟨e', he', hlike⟩ := h.carries.element i e he
  rw [Function.comp_apply, (proper?_eq_some.mp he).1, (proper?_eq_some.mp he').1, Option.any_some,
    Option.any_some, hlike.label]

/-- The marks of duplicates are carried. -/
theorem markFor?_eq (ha : a < d.bound) :
    markFor? d' s (slide start m.copies.length d.bound a) =
      (markFor? d s a).map (slide start m.copies.length d.bound) := by
  have hsign : ∀ i ∈ Assembly.interfacesIn d s,
      signature d' (slide start m.copies.length d.bound i) = signature d i := by
    intro i hi
    obtain ⟨-, -, -, e, he, -⟩ := mem_interfacesIn_iff_proper?.mp hi
    have hinterface := isInterface_of_mem_interfacesIn hi
    exact h.carries.signature he (h.orderly.interfacesProper i hinterface)
      (h.orderly'.interfacesProper _ (h.carries.isInterface hinterface))
  have hkeys : ∀ q ∈ duplicates d (Assembly.interfacesIn d s), q.1 < d.bound := by
    intro q hq
    obtain ⟨-, -, -, e, he, -⟩ := mem_interfacesIn_iff_proper?.mp (mem_duplicates hq).1
    exact Diagram.lt_bound_of_proper? he
  rw [markFor?, markFor?, h.interfacesIn_eq, duplicates_map hsign]
  generalize duplicates d (Assembly.interfacesIn d s) = pairs at hkeys
  induction pairs with
  | nil => rfl
  | cons q pairs ih =>
    obtain ⟨hq, hkeys⟩ := List.forall_mem_cons.mp hkeys
    rw [List.map_cons, List.lookup_cons, List.lookup_cons, ih hkeys, Prod.map_fst, Prod.map_snd]
    by_cases heq : a = q.1
    · rw [heq, beq_self_eq_true, beq_self_eq_true]
      rfl
    · rw [beq_false_of_ne heq, beq_false_of_ne fun hsame => heq (h.injective ha hq hsame)]

/-- What is carried to an interface is one. -/
theorem isInterface_of_mem (ha : a ∈ m.block) (hinterface : Assembly.isInterface d'
    (slide start m.copies.length d.bound a) = true) : Assembly.isInterface d a = true := by
  obtain ⟨x', hx', hrole'⟩ := isInterface_iff_proper?.mp hinterface
  obtain ⟨o, hpair⟩ := Import.exists_original ha
  obtain ⟨x, hx⟩ := (h.exists_proper_iff hpair).mp ⟨x', hx'⟩
  have hlike := h.like_of_mem hpair hx hx'
  exact isInterface_iff_proper?.mpr ⟨x, hx,
    (Role.congr_of_unmarked Role.isInterface_unmarked hlike.role).symm.trans hrole'⟩

/-- The ends that a connector among the copies has at interfaces. -/
theorem ends_of_mem (hpair : (o, c) ∈ m.copies) (he : d.proper? c = some e)
    (hrole : e.role = .connector) (he' : d'.proper? (slide start m.copies.length d.bound c) = some e')
    (hrole' : e'.role = .connector) (isSource : Bool) (a' : Slot) :
    e'.endAt isSource = some a' ∧ Assembly.isInterface d' a' = true ↔
      ∃ a, slide start m.copies.length d.bound a = a' ∧ e.endAt isSource = some a ∧
        Assembly.isInterface d a = true := by
  obtain ⟨drawn, hdrawn, -⟩ := h.before.alike o c e hpair he
  have hends := fun {a} hinterface => h.before.ends o c e drawn isSource a hpair
    (proper?_eq_some.mp he).1 hrole hdrawn hinterface
  have hends' := fun {a} hinterface => h.after.ends o _ e' drawn isSource a (h.pair hpair)
    (proper?_eq_some.mp he').1 hrole' (by rw [h.diagram, hdrawn]) hinterface
  have hcopy : copyOf? m'.copies (drawn.endAt isSource) =
      (copyOf? m.copies (drawn.endAt isSource)).map (slide start m.copies.length d.bound) := by
    rw [h.copies_eq]
    exact copyOf?_map _ m.copies _
  constructor
  · rintro ⟨hend', hinterface'⟩
    rw [hends' hinterface', hcopy, Option.map_eq_some_iff] at hend'
    obtain ⟨a, ha, rfl⟩ := hend'
    have hinterface := h.isInterface_of_mem (Import.mem_block_of_copyOf? ha) hinterface'
    exact ⟨a, rfl, (hends hinterface).mpr ha, hinterface⟩
  · rintro ⟨a, rfl, hend, hinterface⟩
    have hinterface' := h.carries.isInterface hinterface
    refine ⟨(hends' hinterface').mpr ?_, hinterface'⟩
    rw [hcopy, (hends hinterface).mp hend, Option.map_some]

/-- The ends that a connector from outside has at interfaces. -/
theorem ends_of_not_mem (hc : c ∉ m.block) (hin : d.Inside c top) (he : d.get? c = some e)
    (hrole : e.role = .connector) (he' : d'.get? c = some e') (hrole' : e'.role = .connector)
    (isSource : Bool) (a' : Slot) :
    e'.endAt isSource = some a' ∧ Assembly.isInterface d' a' = true ↔
      ∃ a, slide start m.copies.length d.bound a = a' ∧ e.endAt isSource = some a ∧
        Assembly.isInterface d a = true := by
  have hforth : ∀ {a}, e.endAt isSource = some a → Assembly.isInterface d a = true →
      e'.endAt isSource = some (slide start m.copies.length d.bound a) := by
    intro a hend hinterface
    obtain ⟨x, hx, hxrole⟩ := isInterface_iff_proper?.mp hinterface
    have hget := (proper?_eq_some.mp hx).1
    by_cases ha : a ∈ m.block
    · -- It is the first interface of its label, and so is what it is carried to.
      have hfirst := h.before.docked c e isSource a x hin hc he hrole hend ha hget hxrole
      have hmem := List.mem_of_find?_eq_some hfirst
      rw [h.rebound c e e' isSource a x he hrole he' hend hmem hget, h.labelled?_eq, hfirst,
        Option.map_some]
    · rw [h.fixed ha]
      exact h.frame.stays c e e' isSource a he he' hrole' hend hinterface (h.clear_of_not_mem hx ha)
  constructor
  · rintro ⟨hend', hinterface'⟩
    by_cases ha : a' < d.bound
    · have hend := h.frame.back c e e' isSource a' he he' hrole' ha hend'
      have hinterface := h.frame.isInterface_old ha hinterface'
      have hsame := (hforth hend hinterface).symm.trans hend'
      exact ⟨a', Option.some.inj hsame, hend, hinterface⟩
    · obtain ⟨a, hend, hinterface, -⟩ :=
        h.frame.moved c e e' isSource a' he he' hrole' (Nat.le_of_not_lt ha) hend'
      have hsame := (hforth hend hinterface).symm.trans hend'
      exact ⟨a, Option.some.inj hsame, hend, hinterface⟩
  · rintro ⟨a, rfl, hend, hinterface⟩
    exact ⟨hforth hend hinterface, h.carries.isInterface hinterface⟩

/-- **The findings are the same when the same drawing is imported again.** -/
theorem reproduces : Reproduces (slide start m.copies.length d.bound) top d d' where
  toCarries := h.carries
  fixes := h.fixed_top
  subs := by
    intro i e he hsub
    refine h.fixed fun hmem => ?_
    rw [h.before.plain i e hmem he] at hsub
    cases hsub
  marks := by
    intro a e e' he hrole he'
    have hproper := proper?_eq_some.mpr ⟨he, Role.isSuperPort_of_isInterface hrole⟩
    have ha := Diagram.lt_bound_of_proper? hproper
    by_cases hmem : a ∈ m.block
    · obtain ⟨e'', he'', hlike⟩ := h.carries.element a e hproper
      rw [(proper?_eq_some.mp he'').1] at he'
      cases he'
      rw [h.before.marks a e hmem he hrole, h.after.marks _ e' (h.mem_block hmem)
        (proper?_eq_some.mp he'').1 ?_, h.markFor?_eq ha]
      exact (Role.congr_of_unmarked Role.isInterface_unmarked hlike.role).trans hrole
    · obtain ⟨e'', he'', hsame, -⟩ := h.like_of_not_mem hproper hmem
      rw [h.fixed hmem, (proper?_eq_some.mp he'').1] at he'
      cases he'
      rw [hsame]
      cases hmark : e.role.mark? with
      | none => rfl
      | some first =>
        -- Marks stay within an instance, which is another one.
        obtain ⟨t, ht, hin, hin', hinterface⟩ := h.orderly.marks a e first he hmark
        obtain ⟨x, hx, -⟩ := isInterface_iff_proper?.mp hinterface
        rw [Option.map_some, h.fixed fun hfirst => ?_]
        by_cases hts : t = s
        · subst hts
          exact hmem (h.before.mem_of_inside h.orderly.bare hproper hin)
        · exact h.orderly.apart ht h.mem hts hin'
            (h.before.passes h.orderly.bare hfirst hx hin' fun htmem => by
              obtain ⟨y, hy, hsub⟩ := h.orderly.sub ht
              rw [h.before.plain t y htmem (proper?_eq_some.mp hy).1] at hsub
              cases hsub).1
  ends := by
    intro c e e' hin he hrole he' isSource a'
    have hproper := proper?_eq_some.mpr ⟨he, isSuperPort_of_connector hrole⟩
    obtain ⟨e'', he'', hrole'⟩ := h.carries.connector he hrole
    rw [he''] at he'
    cases he'
    by_cases hmem : c ∈ m.block
    · obtain ⟨o, hpair⟩ := Import.exists_original hmem
      exact h.ends_of_mem hpair hproper hrole
        (proper?_eq_some.mpr ⟨he'', isSuperPort_of_connector hrole'⟩) hrole' isSource a'
    · rw [h.fixed hmem] at he''
      exact h.ends_of_not_mem hmem hin he hrole he'' hrole' isSource a'

end Refilled

end Netlist.Assembly
