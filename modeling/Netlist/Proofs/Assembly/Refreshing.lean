import Netlist.Proofs.Assembly.Steps
import Netlist.Proofs.Assembly.Turns
import Netlist.Proofs.Compilation.Interfaces

/-!
# The turn of one instance

In its turn an instance is refreshed from its drawing or keeps its content. Both
are turns, and after a refresh everything in the instance is a copy.

- `Import`, `Imports`: a drawing that was imported, and what is true of it.
- `Holds`: the content of an instance is a copy of a compiled drawing, and an
  interface that is marked stands for one with the same nodes.
- `Refreshes`, `exists_refreshes`: what a refresh comes to in any diagram.
- `settle_cases`: the two ways in which content is settled.
- `place_turn`: **the turn of an instance changes nothing outside it.**
- `place_runs`: **a refreshed instance holds its drawing afterwards.**
-/

namespace Netlist.Assembly

open Diagram (root)

variable {x : Context} {d d₁ d' : Diagram} {s i c o first : Slot} {offset : Nat}

/-! ## Imported drawings -/

/-- A drawing, what compiling it gave, and the copies that were made. -/
structure Import where
  drawing : Drawing
  compiled : Compilation
  /-- The drawing after it was compiled. -/
  diagram : Diagram
  /-- Every element that was copied, with the slot of its copy. -/
  copies : List (Slot × Slot)

/-- An import of the drawing that an instance names: the drawing was compiled, and
its members were copied, each into a slot of its own. -/
structure Imports (x : Context) (i : Subnet) (m : Import) : Prop where
  drawing : ∃ name, i.drawing = some name ∧ x.shelf name = .ok (some m.drawing)
  compiles : Edit.Runs (compile x.catalog x.switches root) m.drawing.diagram m.compiled m.diagram
  nodeCount : i.nodeCount = m.compiled.topology.nodeCount
  originals : m.copies.map Prod.fst =
    members m.diagram m.compiled.topology (distinct m.diagram m.compiled.topology.interfaces)
  nodup : (m.copies.map Prod.snd).Nodup

/-- The element in a slot is the copy of an element of a compiled drawing; it may
be marked as a duplicate since. -/
structure IsCopy (m : Import) (s : Slot) (offset : Nat) (d : Diagram) (o c : Slot) : Prop where
  pair : (o, c) ∈ m.copies
  alike : ∃ drawn e, m.diagram.get? o = some drawn ∧ d.core? c = some e ∧
    Mirrors m.copies s offset drawn e ∧
    (e.role = drawn.role ∨ ∃ first, e.role = drawn.role.setDuplicateOf first)

/-- An element that is marked with the interface that stands for it. -/
def MarkedWith (d : Diagram) (c first : Slot) : Prop :=
  ∃ e payload, d.core? c = some e ∧ e.role = .interface payload ∧ payload.duplicateOf = some first

/-- The content of an instance is a copy of a compiled drawing, and marks lead to
interfaces with the same nodes. -/
structure Holds (m : Import) (s : Slot) (offset : Nat) (d : Diagram) : Prop where
  copied : ∀ c, d.Inside c s → ∃ o, IsCopy m s offset d o c
  marked : ∀ c first, d.Inside c s → MarkedWith d c first → d.Inside first s ∧
    isInterface d first = true ∧ (signature d first).members = (signature d c).members

/-- An interface is told without looking at ends. -/
theorem isInterface_iff : isInterface d i = true ↔
    ∃ e, d.core? i = some e ∧ e.role.isInterface = true := by
  rw [isInterface, Option.any_eq_true]
  constructor
  · rintro ⟨e, he, hrole⟩
    exact ⟨e.core, Diagram.core?_of_get? he, hrole⟩
  · rintro ⟨e, he, hrole⟩
    obtain ⟨e₀, he₀, rfl⟩ := Diagram.core?_eq_some.mp he
    exact ⟨e₀, he₀, hrole⟩

theorem IsCopy.congr {m : Import} (h : IsCopy m s offset d o c) (hcore : d'.core? c = d.core? c) :
    IsCopy m s offset d' o c :=
  ⟨h.pair, by rw [hcore]; exact h.alike⟩

theorem MarkedWith.congr (h : MarkedWith d' c first) (hcore : d'.core? c = d.core? c) :
    MarkedWith d c first := by
  rw [MarkedWith, hcore] at h
  exact h

/-- The signs of an interface are read off what is in it. -/
theorem members_of_sameWithin (h : SameWithin s d d') (hin : d.Inside c s) :
    (signature d' c).members = (signature d c).members := by
  refine members_congr fun i => ?_
  by_cases hp : d.HasParent i c
  · exact pick_memberAt_congr (h.core i (.inr (hin.head hp)))
  · have hp' : ¬ d'.HasParent i c := by
      intro hp'
      have hin' := (h.inside i).mp (((h.inside c).mpr hin).head hp')
      exact hp (hp'.congr (h.core i (.inr hin')).symm)
    have hnone : ∀ {d : Diagram}, ¬ d.HasParent i c → d.pick c memberAt i = none := by
      intro d hp
      rw [← Option.not_isSome_iff_eq_none, Option.isSome_iff_exists]
      rintro ⟨sign, hsign⟩
      obtain ⟨e, he, hparent, -⟩ := Diagram.pick_eq_some.mp hsign
      exact hp ⟨e, he, hparent⟩
    rw [hnone hp, hnone hp']

/-- **What an instance holds survives the turns of others.** -/
theorem Holds.sameWithin {m : Import} (h : Holds m s offset d) (hsame : SameWithin s d d') :
    Holds m s offset d' where
  copied := by
    intro c hin
    have hin' := (hsame.inside c).mp hin
    obtain ⟨o, hcopy⟩ := h.copied c hin'
    exact ⟨o, hcopy.congr (hsame.core c (.inr hin'))⟩
  marked := by
    intro c first hin hmark
    have hin' := (hsame.inside c).mp hin
    obtain ⟨hfirst, hinterface, hmembers⟩ :=
      h.marked c first hin' (hmark.congr (hsame.core c (.inr hin')))
    refine ⟨(hsame.inside first).mpr hfirst, ?_, ?_⟩
    · rw [isInterface_iff] at hinterface ⊢
      rw [hsame.core first (.inr hfirst)]
      exact hinterface
    · rw [members_of_sameWithin hsame hfirst, members_of_sameWithin hsame hin', hmembers]

/-! ## Refreshing -/

/-- After a refresh an instance holds its drawing, and nothing is marked yet. -/
structure HoldsAnew (m : Import) (s : Slot) (offset : Nat) (d : Diagram) : Prop where
  copied : ∀ c, d.Inside c s → ∃ o drawn e, (o, c) ∈ m.copies ∧ m.diagram.get? o = some drawn ∧
    d.core? c = some e ∧ Mirrors m.copies s offset drawn e ∧ e.role = drawn.role

/-- What refreshing an instance comes to, whatever the parents are: the instance is cleared,
and copies of a drawing are made in new slots. -/
structure Refreshes (m : Import) (s : Slot) (offset : Nat) (d d' : Diagram) : Prop where
  turn : Turn s d d'
  old : ∀ j < d.bound, d'.core? j = (clear s d).core? j
  slots : ∀ o c, (o, c) ∈ m.copies → d.bound ≤ c ∧ c < d'.bound
  original : ∀ c e, d.bound ≤ c → d'.core? c = some e → ∃ o, (o, c) ∈ m.copies
  copied : ∀ o c e, (o, c) ∈ m.copies → d'.core? c = some e → ∃ drawn,
    m.diagram.get? o = some drawn ∧ Mirrors m.copies s offset drawn e ∧ e.role = drawn.role
  made : ∀ o c drawn, (o, c) ∈ m.copies → m.diagram.get? o = some drawn →
    isBroken m.copies drawn = false → ∃ e, d'.core? c = some e

theorem exists_refreshes {name : String} {done : Refreshed} (hs : s < d.bound)
    (h : Edit.Runs (refresh x s name offset) d done d') :
    ∃ m, Refreshes m s offset d d' ∧
      ∀ i : Subnet, i.drawing = some name → i.nodeCount = done.nodeCount → Imports x i m := by
  obtain ⟨e, drawing, compiled, diagram, d₂, -, hload, hcompile, himport, hrebind, rfl⟩ :=
    refreshVisiting_runs_iff.mp h
  have hbound₁ : 0 < (clear s d).bound := by
    rw [bound_clear]
    exact Nat.zero_lt_of_lt hs
  obtain ⟨copies, himprint⟩ := importVisiting_runs hbound₁ x.visiting.perm himport
  obtain ⟨hbound₃, hcore₃⟩ := rebindAll_frame hrebind
  refine ⟨⟨drawing, compiled, diagram, copies⟩, ⟨(turn_import himprint).congr hbound₃ hcore₃,
    fun j hj => ?_, fun o c hmem => ?_, fun c e hc he => ?_, fun o c e hmem he => ?_,
    fun o c drawn hmem hdrawn hwhole => ?_⟩,
    fun i hname hcount => ⟨⟨name, hname, loadDrawing_eq_ok hload⟩, hcompile, hcount,
      himprint.originals, ?_⟩⟩
  · rw [hcore₃, himprint.old j (Nat.lt_of_lt_of_eq hj (bound_clear s d).symm)]
  · rw [← bound_clear s d, hbound₃]
    exact himprint.le_of_mem hmem
  · exact himprint.exists_original (bound_clear s d ▸ hc) ((hcore₃ c).symm.trans he)
  · obtain ⟨drawn, hdrawn, hrole, hmirrors⟩ := himprint.new o c e hmem ((hcore₃ c).symm.trans he)
    exact ⟨drawn, hdrawn, hmirrors, hrole⟩
  · obtain ⟨e, he⟩ := himprint.made o c drawn hmem hdrawn hwhole
    exact ⟨e, (hcore₃ c).trans he⟩
  · rw [himprint.slots]
    exact List.nodup_range'

/-- The instance itself is left as it is. -/
theorem Refreshes.self {m : Import} (h : Refreshes m s offset d d') (hs : s < d.bound)
    (hloop : ¬ d.Inside s s) : d'.core? s = d.core? s :=
  (h.old s hs).trans (core?_clear_of_not_inside hloop)

/-- Where parents are issued, nothing but copies is in a refreshed instance. -/
theorem Refreshes.holdsAnew {m : Import} (h : Refreshes m s offset d d') (hrooted : d.Rooted)
    (hissued : d.Issued) (hloop : ¬ d.Inside s s) : HoldsAnew m s offset d' where
  copied := by
    intro c hin
    obtain ⟨e, he⟩ := hin.live
    have hnew : d.bound ≤ c := by
      by_contra hold
      -- An old element in the instance would have survived the clearing.
      have hin₀ := h.turn.inside_old hissued (Nat.lt_of_not_le hold) hin
      have hgone := core?_clear hrooted hloop c
      rw [if_pos hin₀, ← h.old c (Nat.lt_of_not_le hold), Diagram.core?_of_get? he] at hgone
      cases hgone
    obtain ⟨o, hmem⟩ := h.original c _ hnew (Diagram.core?_of_get? he)
    obtain ⟨drawn, hdrawn, hrest⟩ := h.copied o c _ hmem (Diagram.core?_of_get? he)
    exact ⟨o, drawn, e.core, hmem, hdrawn, Diagram.core?_of_get? he, hrest⟩

/-! ## Keeping content -/

/-- Moving the content of an instance is a turn. -/
theorem turn_moved (delta : Int) (s : Slot) (d : Diagram) : Turn s d (moved delta s d) := by
  rw [moved]
  split
  · exact turn_shiftAll (Topology.nodup_descendants d s) fun j hj =>
      (Diagram.mem_descendants.mp hj).2.2
  · exact .of_core? rfl fun _ => rfl

/-- Moving the content of an instance changes nothing outside it. -/
theorem core?_moved (delta : Int) (hnot : ¬ d.Inside i s) :
    (moved delta s d).core? i = d.core? i := by
  rw [moved]
  split
  · rw [core?_shiftAll (Topology.nodup_descendants d s), if_neg]
    exact fun hmem => hnot (Diagram.mem_descendants.mp hmem).2.2
  · rfl

/-! ## The whole turn -/

/-- The number of numbered nodes in an element. -/
def nodesIn (d : Diagram) (s : Slot) : Nat :=
  (d.descendants s).countP fun i => (d.get? i).any Element.isNumberedNode

/-- **The content of an instance is settled in one of two ways**, whatever the parents are:
it is a drawing anew, or what it was, with its numbers moved. -/
theorem settle_cases {drawing : Option String} {done : Bool × Refreshed} (hs : s < d.bound)
    (h : Edit.Runs (settle x s drawing offset) d done d') :
    (done.1 = true ∧ ∃ m, Refreshes m s offset d d' ∧
      ∀ i : Subnet, i.drawing = drawing → i.nodeCount = done.2.nodeCount → Imports x i m) ∨
    (done.1 = false ∧ ∃ e start recorded, d.get? s = some e ∧
      integerField e offsetField = .ok start ∧ recordedCount e = .ok recorded ∧
      done.2.nodeCount = recorded.getD (nodesIn d s) ∧
      d' = moved (displacement offset (start.getD 0)) s d) := by
  rw [settle_runs_iff] at h
  cases hfrom : refreshedFrom x d s drawing with
  | some name =>
    rw [hfrom] at h
    obtain ⟨m, hrefreshes, himports⟩ := exists_refreshes hs h.2
    rw [refreshedFrom, Option.filter_eq_some_iff] at hfrom
    exact .inl ⟨h.1, m, hrefreshes, by rw [hfrom.1]; exact himports⟩
  | none =>
    rw [hfrom] at h
    obtain ⟨nodeCount, rfl, hreuse⟩ := h
    exact .inr ⟨rfl, reuse_runs_iff.mp hreuse⟩

/-- Settling the content of an instance is a turn, and leaves the instance itself alone. -/
theorem settle_turn {drawing : Option String} {done : Bool × Refreshed} (hs : s < d.bound)
    (hloop : ¬ d.Inside s s) (h : Edit.Runs (settle x s drawing offset) d done d') :
    Turn s d d' ∧ d'.core? s = d.core? s := by
  obtain ⟨-, m, hrefreshes, -⟩ | ⟨-, e, start, recorded, -, -, -, -, rfl⟩ := settle_cases hs h
  · exact ⟨hrefreshes.turn, hrefreshes.self hs hloop⟩
  · exact ⟨turn_moved _ s d, core?_moved _ hloop⟩

/-- A fresh copy that is marked still is one. -/
theorem HoldsAnew.isCopy {m : Import} (h : HoldsAnew m s offset d) (hin : (marked s d).Inside c s) :
    ∃ o, IsCopy m s offset (marked s d) o c := by
  rw [marked, inside_markDuplicates] at hin
  obtain ⟨o, drawn, e, hpair, hdrawn, he, hmirrors, hrole⟩ := h.copied c hin
  refine ⟨o, hpair, ?_⟩
  rcases core?_markDuplicates (duplicates d (interfacesIn d s)) d c with hsame | ⟨first, -, hmark⟩
  · exact ⟨drawn, e, hdrawn, hsame.trans he, hmirrors, .inl hrole⟩
  · refine ⟨drawn, Assembly.mark first e, hdrawn, ?_, ?_, .inr ⟨first, ?_⟩⟩
    · rw [marked, hmark, he, Option.map_some]
    · exact ⟨hmirrors.label, hmirrors.fields, hmirrors.parent⟩
    · show e.role.setDuplicateOf first = _
      rw [hrole]

/-- The marks among fresh copies lead to interfaces with the same nodes. -/
theorem HoldsAnew.mark {m : Import} (h : HoldsAnew m s offset d)
    (hunmarked : ∀ o e, m.diagram.get? o = some e → e.role.IsUnmarked) :
    Holds m s offset (marked s d) where
  copied := fun c hin => h.isCopy hin
  marked := by
    intro c first hin hmark
    rw [marked, inside_markDuplicates] at hin
    rw [marked] at hmark ⊢
    obtain ⟨o, drawn, e, hpair, hdrawn, he, hmirrors, hrole⟩ := h.copied c hin
    obtain ⟨e', payload, he', hpayload, hfirst⟩ := hmark
    have hnot := hunmarked o drawn hdrawn
    rw [← hrole] at hnot
    rcases core?_markDuplicates (duplicates d (interfacesIn d s)) d c with
      hsame | ⟨first', hpairs, hmark⟩
    · rw [hsame, he] at he'
      cases he'
      rw [hnot payload hpayload] at hfirst
      cases hfirst
    · rw [hmark, he, Option.map_some] at he'
      cases he'
      -- The drawing has no marks, so the mark is the one that was just given.
      have heq : first' = first := by
        have hrole' : e.role.setDuplicateOf first' = .interface payload := hpayload
        cases hr : e.role <;> rw [hr] at hrole' <;> cases hrole'
        cases hfirst
        rfl
      subst heq
      obtain ⟨-, hmem, hsign⟩ := mem_duplicates hpairs
      obtain ⟨-, e₁, he₁, hinterface⟩ := mem_interfacesIn.mp hmem
      refine ⟨inside_markDuplicates.mpr (inside_of_mem_interfacesIn hmem), ?_, ?_⟩
      · rw [isInterface_iff]
        rcases core?_markDuplicates (duplicates d (interfacesIn d s)) d first' with
          hsame | ⟨first'', -, hmark⟩
        · exact ⟨e₁.core, hsame.trans (Diagram.core?_of_get? he₁), hinterface⟩
        · refine ⟨Assembly.mark first'' e₁.core,
            by rw [hmark, Diagram.core?_of_get? he₁, Option.map_some], ?_⟩
          exact (Role.isInterface_setDuplicateOf first'' e₁.role).trans hinterface
      · rw [members_congr (pick_markDuplicates _ d _), members_congr (pick_markDuplicates _ d _),
          hsign]

/-- Writing the place of an instance into its fields does not touch its content. -/
theorem HoldsAnew.withPlace {m : Import} {nodeCount : Nat} (h : HoldsAnew m s offset d)
    (hissued : d.Issued) (hloop : ¬ d.Inside s s) :
    HoldsAnew m s offset (d.modify s (withPlace offset nodeCount)) where
  copied := by
    intro c hin
    have hturn := turn_withPlace s offset nodeCount d
    obtain ⟨e', he'⟩ := hin.live
    have hlt := Diagram.lt_bound_of_get? he'
    rw [Diagram.bound_modify] at hlt
    have hin' := hturn.inside_old hissued hlt hin
    obtain ⟨o, drawn, e, hpair, hdrawn, he, hrest⟩ := h.copied c hin'
    refine ⟨o, drawn, e, hpair, hdrawn, ?_, hrest⟩
    have hne : s ≠ c := by
      rintro rfl
      exact hloop hin'
    have hcore := Diagram.core?_modify (f := Assembly.withPlace offset nodeCount) d s c
      fun e => rfl
    rw [hcore, if_neg hne, he]

/-- **The turn of an instance changes nothing outside it**, and all that a refreshed
instance holds is copied. -/
theorem place_turn {p : Placed} (hrooted : d.Rooted) (hissued : d.Issued) (hs : s < d.bound)
    (hloop : ¬ d.Inside s s) (h : Edit.Runs (place x s offset) d p d') :
    Turn s d d' ∧ p.slot = s ∧ p.subnet.offset = offset ∧
      (∃ e, d.get? s = some e ∧ p.subnet.name = e.displayName) ∧
      (p.wasRefreshed = true → ∃ m d₁, Imports x p.subnet m ∧ HoldsAnew m s offset d₁ ∧
        d' = marked s d₁) := by
  obtain ⟨e, wasRefreshed, done, d₁, d₂, he, hsettle, rfl, rfl, rfl⟩ := place_runs_iff.mp h
  obtain ⟨hturn, -⟩ := settle_turn hs hloop hsettle
  have hissued₁ := hturn.issued hissued hs
  have hloop₁ : ¬ d₁.Inside s s := fun hin => hloop (hturn.inside_old hissued hs hin)
  have hturn₁ := hturn.trans (turn_withPlace s offset done.nodeCount d₁) hissued
  refine ⟨hturn₁.trans (turn_markInstance s _) hissued, rfl, rfl, ⟨e, he, rfl⟩, fun hwas => ?_⟩
  obtain ⟨-, m, hrefreshes, himports⟩ | ⟨hkept, -⟩ := settle_cases hs hsettle
  · exact ⟨m, _, himports _ rfl rfl,
      (hrefreshes.holdsAnew hrooted hissued hloop).withPlace hissued₁ hloop₁, rfl⟩
  · cases hwas.symm.trans hkept

end Netlist.Assembly
