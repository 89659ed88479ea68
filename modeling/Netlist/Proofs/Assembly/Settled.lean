import Netlist.Proofs.Assembly.Renewal

/-!
# Instances after their turn

After its turn an instance is settled: its place is in its fields, and it is filled with
the copies of its drawing, or its content was kept and its duplicates are marked. It stays
settled while it is not its turn.

- `Settled`, `Settled.frame`: an instance after its turn, and after the turns of others.
- `Turned`: what one turn does; `place_turned`: **every turn that succeeds does this.**
-/

namespace Netlist.Assembly

open Diagram (proper?_eq_some)

variable {x : Context} {turn : Option Slot} {d d₁ d' : Diagram} {s t i j top : Slot}
  {instances : List Slot} {e e' : Element} {offset nodeCount : Nat} {p : Placed}

/-! ## At rest -/

/-- An instance with its place in its fields. -/
def Shows (e : Element) (i : Subnet) : Prop :=
  e.displayName = i.name ∧ e.fields.get? drawingField = i.drawing ∧ Written e i.offset i.nodeCount

/-- An instance after its turn. -/
structure Settled (x : Context) (top : Slot) (p : Placed) (d : Diagram) : Prop where
  here : ∃ e, d.get? p.slot = some e ∧ Shows e p.subnet
  refreshed : p.wasRefreshed = true → ∃ name m start, p.subnet.drawing = some name ∧
    Source x.catalog x.switches x.shelf name m ∧
    p.subnet.nodeCount = m.compiled.topology.nodeCount ∧
    Filled m start p.slot p.subnet.offset top d
  kept : p.wasRefreshed = false → Marked d p.slot ∧
    refreshedFrom x d p.slot p.subnet.drawing = none

theorem isEmpty_children_iff : (d.children s).isEmpty = true ↔ ∀ j, d.HasParent j s → j = s := by
  rw [List.isEmpty_iff, List.eq_nil_iff_forall_not_mem]
  simp only [Diagram.mem_children, not_and, not_not]

/-- Whether there is anything in an instance does not change while it is not its turn. -/
theorem Frame.isEmpty_children (h : Frame turn d d') (hd : Orderly top instances d)
    (hd' : Orderly top instances d') (hturn : ∀ s ∈ turn, s ∈ instances ∧ s ≠ t)
    (ht : t ∈ instances) : (d'.children t).isEmpty = (d.children t).isEmpty := by
  have hunder := h.sameUnder hd hturn ht
  -- What is directly in an instance is no super-port: those are at connectors.
  have hproper : ∀ {d : Diagram}, Orderly top instances d → ∀ {j}, d.HasParent j t →
      ∃ e, d.proper? j = some e ∧ e.parent = some t := by
    rintro d hd j ⟨e, he, hp⟩
    refine ⟨e, proper?_eq_some.mpr ⟨he, ?_⟩, hp⟩
    by_contra hport
    rw [Bool.not_eq_false] at hport
    obtain ⟨y, hy, hsub⟩ := hd.sub ht
    rw [hd.held j t e y he hport hp (proper?_eq_some.mp hy).1] at hsub
    cases hsub
  rw [Bool.eq_iff_iff, isEmpty_children_iff, isEmpty_children_iff]
  constructor
  · intro hempty j hp
    obtain ⟨e, he, hparent⟩ := hproper hd hp
    obtain ⟨e', he', hlike⟩ := hunder.kept j e (.single hp) he
    refine hempty j ⟨e', (proper?_eq_some.mp he').1, ?_⟩
    rw [hlike.parent, hparent]
    rfl
  · intro hempty j hp
    obtain ⟨e', he', hparent⟩ := hproper hd' hp
    obtain ⟨e, he, hparent⟩ := hunder.back j e' t he' hparent (.inl rfl)
    exact hempty j ⟨e, (proper?_eq_some.mp he).1, hparent⟩

theorem Frame.refreshedFrom (h : Frame turn d d') (hd : Orderly top instances d)
    (hd' : Orderly top instances d') (hturn : ∀ s ∈ turn, s ∈ instances ∧ s ≠ t)
    (ht : t ∈ instances) (x : Context) (drawing : Option String) :
    Assembly.refreshedFrom x d' t drawing = Assembly.refreshedFrom x d t drawing := by
  rw [Assembly.refreshedFrom, Assembly.refreshedFrom, h.isEmpty_children hd hd' hturn ht]

theorem displayName_of_stays (h : Stays e e') : e'.displayName = e.displayName := by
  rw [Element.displayName, Element.displayName, h.id, h.label]

/-- **An instance stays settled** while it is not its turn. -/
theorem Settled.frame (h : Settled x top p d) (hframe : Frame turn d d')
    (hd : Orderly top instances d) (hd' : Orderly top instances d')
    (hturn : ∀ t ∈ turn, t ∈ instances ∧ t ≠ p.slot) (hp : p.slot ∈ instances) :
    Settled x top p d' where
  here := by
    obtain ⟨e, he, hname, hdrawing, hoffset, hcount⟩ := h.here
    obtain ⟨y, hy, -⟩ := hd.sub hp
    obtain ⟨e', he', hstays, hfields⟩ := hframe.kept p.slot y (hd.clear hturn hp (.inl rfl)) hy
    rw [(proper?_eq_some.mp hy).1] at he
    cases he
    have hsame := hfields fun hmem => (hturn _ hmem).2 rfl
    refine ⟨e', (proper?_eq_some.mp he').1, (displayName_of_stays hstays).trans hname, ?_, ?_, ?_⟩
    · rw [hsame, hdrawing]
    · rw [hsame, hoffset]
    · rw [hsame, hcount]
  refreshed := by
    intro hwas
    obtain ⟨name, m, start, hname, hsource, hcount, hfilled⟩ := h.refreshed hwas
    exact ⟨name, m, start, hname, hsource, hcount, hfilled.frame hframe hd hd' hturn hp⟩
  kept := by
    intro hwas
    obtain ⟨hmarked, hfrom⟩ := h.kept hwas
    refine ⟨hframe.marked hd hd' hturn hp hmarked, ?_⟩
    rw [hframe.refreshedFrom hd hd' hturn hp, hfrom]

/-! ## One turn -/

/-- What the turn of an instance does: it is a step after which the instance is settled.
If it was refreshed, it is filled with copies in new slots, and otherwise there are no
new slots. -/
structure Turned (x : Context) (top s offset : Nat) (d : Diagram) (p : Placed) (d' : Diagram) :
    Prop where
  slot : p.slot = s
  start : p.subnet.offset = offset
  frame : Frame (some s) d d'
  settled : Settled x top p d'
  fields : ∀ e e', d.get? s = some e → d'.get? s = some e' →
    e'.fields = (withPlace offset p.subnet.nodeCount e).fields
  was : p.wasRefreshed = (refreshedFrom x d s p.subnet.drawing).isSome
  refreshed : p.wasRefreshed = true → ∃ name m, p.subnet.drawing = some name ∧
    Source x.catalog x.switches x.shelf name m ∧
    p.subnet.nodeCount = m.compiled.topology.nodeCount ∧ Filled m d.bound s offset top d' ∧
    Rebound s d d'
  kept : p.wasRefreshed = false → d'.bound = d.bound

/-- The instance itself at the end of its turn. -/
theorem get?_finished_self (offset nodeCount : Nat) (he : d.get? s = some e) :
    ∃ e', (finished s offset nodeCount d).get? s = some e' ∧ e'.displayName = e.displayName ∧
      e'.fields = (withPlace offset nodeCount e).fields := by
  refine ⟨_, by rw [get?_finished, he, Option.map_some], ?_, ?_⟩
  · rw [placedAt, if_pos rfl, Element.displayName, label_tag, id_tag]
    rfl
  · rw [fields_tag, placedAt, if_pos rfl]

/-- The fields of an instance with its place in them. -/
theorem shows_of_fields (hname : e'.displayName = e.displayName)
    (hfields : e'.fields = (withPlace offset nodeCount e).fields) :
    Shows e' ⟨e.displayName, e.fields.get? drawingField, offset, nodeCount⟩ := by
  obtain ⟨hoffset, hcount⟩ := written_withPlace offset nodeCount e
  refine ⟨hname, ?_, by rw [hfields, hoffset], by rw [hfields, hcount]⟩
  rw [hfields]
  show ((e.fields.insert offsetField (toString offset)).insert Connections.nodeCountField
    (toString nodeCount)).get? drawingField = _
  rw [Fields.get?_insert_of_ne (by decide), Fields.get?_insert_of_ne (by decide)]

theorem fields_withPlace (h : e'.fields = e.fields) (offset nodeCount : Nat) :
    (withPlace offset nodeCount e').fields = (withPlace offset nodeCount e).fields := by
  show (e'.fields.insert _ _).insert _ _ = (e.fields.insert _ _).insert _ _
  rw [h]

/-- The end of a turn leaves the ends of connectors alone. -/
theorem Rebound.finished (h : Rebound s d d₁) (hd : Orderly top instances d₁) :
    Rebound s d (finished s offset nodeCount d₁) := by
  intro c e e' isSource a y he hrole he' hend ha hy
  rw [get?_finished, Option.map_eq_some_iff] at he'
  obtain ⟨e₁, he₁, rfl⟩ := he'
  have hunder : SameUnder s d₁ (Assembly.finished s offset nodeCount d₁) :=
    sameUnder_finished (hd.loopless s)
  have hsame : (placedAt s offset nodeCount c e₁).endAt isSource = e₁.endAt isSource := by
    rw [placedAt]
    split
    · cases isSource <;> rfl
    · rfl
  have hbare := (sameShape_finished s offset nodeCount d₁).bare hd.bare
  rw [endAt_tag, hsame, hunder.labelled? hd.bare hbare]
  exact h c e e₁ isSource a y he hrole he₁ hend ha hy

theorem SameShape.isEmpty_children (h : SameShape d d') :
    (d'.children s).isEmpty = (d.children s).isEmpty := by
  rw [Bool.eq_iff_iff, isEmpty_children_iff, isEmpty_children_iff]
  simp only [h.hasParent]

theorem refreshedFrom_eq_some {drawing : Option String} {name : String} :
    refreshedFrom x d s drawing = some name ↔
      drawing = some name ∧ (x.assembly.refresh = true ∨ (d.children s).isEmpty = true) := by
  rw [refreshedFrom, Option.filter_eq_some_iff, Bool.or_eq_true]

/-- **Every turn that succeeds** settles its instance. -/
theorem place_turned (hd : Orderly top instances d) (hs : s ∈ instances) (hshelf : Docked x.shelf)
    (h : Edit.Runs (place x s offset) d p d') : Turned x top s offset d p d' := by
  obtain ⟨e, wasRefreshed, done, d₁, _, he, hsettle, rfl, rfl, rfl⟩ := place_runs_iff.mp h
  rw [settle_runs_iff] at hsettle
  show Turned x top s offset d _ (finished s offset done.nodeCount d₁)
  have hturn : ∀ t ∈ some s, t ∈ instances := fun t ht => Option.some.inj ht ▸ hs
  cases hfrom : refreshedFrom x d s (e.fields.get? drawingField) with
  | some name =>
    rw [hfrom] at hsettle
    -- The instance is refreshed: the copies fill it, and the end of the turn marks them.
    obtain ⟨rfl, hrefresh⟩ := hsettle
    obtain ⟨m, hsource, hcount, hrenewed⟩ := renewed_of_refresh x.visiting.perm hd hrefresh
    have himportable := hsource.importable hshelf
    have hframe := hrenewed.frame hd hs himportable
    have hd₁ := hd.frame hframe hturn
    obtain ⟨e₁, he₁, hcore⟩ := hrenewed.forth (hd.loopless s) he
    obtain ⟨hstays, hfields⟩ := stays_of_core hcore
    obtain ⟨e', he', hdisplay, hplaced⟩ := get?_finished_self offset done.nodeCount he₁
    rw [displayName_of_stays hstays] at hdisplay
    rw [fields_withPlace hfields] at hplaced
    have hname := (refreshedFrom_eq_some.mp hfrom).1
    have hfilled : Filled m d.bound s offset top (finished s offset done.nodeCount d₁) :=
      hrenewed.filled hd hs himportable done.nodeCount
    have hrefreshed : ∃ name m, e.fields.get? drawingField = some name ∧
        Source x.catalog x.switches x.shelf name m ∧
        done.nodeCount = m.compiled.topology.nodeCount ∧
        Filled m d.bound s offset top (finished s offset done.nodeCount d₁) ∧
        Rebound s d (finished s offset done.nodeCount d₁) :=
      ⟨name, m, hname, hsource, hcount, hfilled, hrenewed.rebound.finished hd₁⟩
    exact {
      slot := rfl
      start := rfl
      frame := hframe.trans (frame_finished hd₁ hs) hd.issued hd₁.issued
      settled := {
        here := ⟨e', he', shows_of_fields hdisplay hplaced⟩
        refreshed := fun _ => ⟨name, m, d.bound, hname, hsource, hcount, hfilled⟩
        kept := fun hwas => nomatch hwas }
      fields := fun e₀ e₀' he₀ he₀' => by
        rw [he] at he₀
        rw [he'] at he₀'
        cases he₀
        cases he₀'
        exact hplaced
      was := by rw [hfrom]; rfl
      refreshed := fun _ => hrefreshed
      kept := fun hwas => nomatch hwas }
  | none =>
    rw [hfrom] at hsettle
    -- The content is kept, and its numbers are moved.
    obtain ⟨n, heq, hreuse⟩ := hsettle
    obtain ⟨rfl, rfl⟩ := Prod.mk.inj heq
    obtain ⟨_, recordedOffset, _, -, -, -, -, rfl⟩ := reuse_runs_iff.mp hreuse
    have hframe := frame_moved (displacement offset (recordedOffset.getD 0)) hd hs
    have hd₁ := hd.frame hframe hturn
    have he₁ := (get?_moved_self (displacement offset (recordedOffset.getD 0)) s d).trans he
    obtain ⟨e', he', hdisplay, hplaced⟩ := get?_finished_self offset n he₁
    have hshape := (sameShape_moved (displacement offset (recordedOffset.getD 0)) s d).trans
      (sameShape_finished s offset n _)
    exact {
      slot := rfl
      start := rfl
      frame := hframe.trans (frame_finished hd₁ hs) hd.issued hd₁.issued
      settled := {
        here := ⟨e', he', shows_of_fields hdisplay hplaced⟩
        refreshed := fun hwas => nomatch hwas
        kept := fun _ => by
          refine ⟨marked_finished hd₁.bare hd₁.interfacesProper (hd₁.loopless s), ?_⟩
          rw [refreshedFrom, hshape.isEmpty_children]
          exact hfrom }
      fields := fun e₀ e₀' he₀ he₀' => by
        rw [he] at he₀
        rw [he'] at he₀'
        cases he₀
        cases he₀'
        exact hplaced
      was := by rw [hfrom]; rfl
      refreshed := fun hwas => nomatch hwas
      kept := fun _ => by rw [bound_finished, bound_moved] }

end Netlist.Assembly
