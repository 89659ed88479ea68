import Netlist.Proofs.Assembly.Keeping
import Netlist.Proofs.Assembly.Persisting
import Netlist.Proofs.Assembly.Sides

/-!
# Instances in their places

When an instance has had its turn, its place is in its fields and its content is in its
block of numbers: a copy of the drawing with the numbers of the drawing moved to the
block, or the content it had with all numbers moved by the same difference. Neither the
turns of other instances nor stitching change this.

- `InPlace`: an instance with its content where its fields say it is.
- `inPlace_of_place`: **a turn brings its instance into its place.**
- `local_inPlace`, `InPlace.keeps`: an instance stays in its place while others have their
  turns, and while super-ports are redrawn.
- `inPlace_of_placeAll`: **after all turns every instance is in its place.**
-/

namespace Netlist.Assembly

variable {x : Context} {d d₁ d' : Diagram} {s c q : Slot} {instances : List Slot} {p : Placed}
  {offset : Nat} {delta : Int} {e e' : Element}

/-! ## Moved content -/

/-- An element with its number moved; it may be marked as a duplicate since. -/
structure MovedBy (delta : Int) (e e' : Element) : Prop where
  id : e'.id = e.id
  fields : e'.fields = e.fields
  parent : e'.parent = e.parent
  role : e'.role.unmarked = e.role.unmarked
  label : e'.label = if delta = 0 then e.label else (shift delta e).label

/-- An element that is inside another one, is no super-port, and is in none there. -/
structure InsideFreely (d : Diagram) (c s : Slot) : Prop where
  inside : d.Inside c s
  free : ∀ q e, q = c ∨ d.Inside c q → d.Inside q s → d.core? q = some e → e.role.isSuperPort = false

/-- What is in an instance was in it before, with its number moved, and nothing was lost.
Super-ports are left out. -/
structure MovedWithin (delta : Int) (s : Slot) (d d' : Diagram) : Prop where
  back : ∀ c e', d'.Inside c s → d'.core? c = some e' → e'.role.isSuperPort = false →
    d.Inside c s ∧ ∃ e, d.core? c = some e ∧ MovedBy delta e e'
  forth : ∀ c e, InsideFreely d c s → d.core? c = some e →
    ∃ e', d'.core? c = some e' ∧ MovedBy delta e e'

/-- An instance with its content in its block of numbers: `d` is the diagram before its
turn. -/
structure InPlace (x : Context) (p : Placed) (d d' : Diagram) : Prop where
  here : ∃ e e', d.core? p.slot = some e ∧ d'.core? p.slot = some e' ∧
    e'.role.unmarked = e.role.unmarked ∧ Written e' p.subnet.offset p.subnet.nodeCount
  copied : p.wasRefreshed = true → ∃ m, Imports x p.subnet m ∧
    ∀ c e, d'.Inside c p.slot → d'.core? c = some e → e.role.isSuperPort = false →
      ∃ o, IsCopy m p.slot p.subnet.offset d' o c
  kept : p.wasRefreshed = false → ∃ e start recorded, d.core? p.slot = some e ∧
    integerField e offsetField = .ok start ∧ recordedCount e = .ok recorded ∧
    p.subnet.nodeCount = recorded.getD (nodesIn d p.slot) ∧
    MovedWithin (displacement p.subnet.offset (start.getD 0)) p.slot d d'

/-! ## One turn -/

/-- Moving a number does not look at ends. -/
theorem MovedBy.core (h : MovedBy delta e e') : MovedBy delta e.core e'.core where
  id := h.id
  fields := h.fields
  parent := h.parent
  role := h.role
  label := by
    have hlabel := h.label
    rw [shift_eq] at hlabel ⊢
    exact hlabel

/-- The content of an instance that is kept at the end of its turn. -/
theorem get?_finished_moved (hlive : ∃ e, d.get? s = some e) (hloop : ¬ d.Inside s s)
    (hin : d.Inside c s) (he' : (finished s offset nodeCount (moved delta s d)).get? c = some e') :
    ∃ e, d.get? c = some e ∧ MovedBy delta e e' := by
  have hne : s ≠ c := by
    rintro rfl
    exact hloop hin
  rw [get?_finished, Option.map_eq_some_iff] at he'
  obtain ⟨e₁, he₁, rfl⟩ := he'
  rw [placedAt, if_neg hne]
  by_cases hdelta : delta = 0
  · rw [moved, if_neg (not_not.mpr hdelta)] at he₁
    refine ⟨e₁, he₁, id_tag _ _, fields_tag _ _, parent_tag _ _, unmarked_tag _ _, ?_⟩
    rw [label_tag, if_pos hdelta]
  · have hmem : c ∈ d.descendants s := Diagram.mem_descendants.mpr ⟨hlive, Ne.symm hne, hin⟩
    rw [moved, if_pos hdelta, get?_shiftAll (Topology.nodup_descendants d s), if_pos hmem,
      Option.map_eq_some_iff] at he₁
    obtain ⟨e, he, rfl⟩ := he₁
    refine ⟨e, he, ?_, ?_, ?_, ?_, ?_⟩
    · rw [id_tag, shift_eq]
    · rw [fields_tag, shift_eq]
    · rw [parent_tag, shift_eq]
    · rw [unmarked_tag, shift_eq]
    · rw [label_tag, if_neg hdelta]

theorem exists_finished_moved (hlive : ∃ e, d.get? s = some e) (hloop : ¬ d.Inside s s)
    (hin : d.Inside c s) (he : d.core? c = some e) :
    ∃ e', (finished s offset nodeCount (moved delta s d)).core? c = some e' ∧ MovedBy delta e e' := by
  obtain ⟨e₀, he₀, rfl⟩ := Diagram.core?_eq_some.mp he
  have hshape := (sameShape_moved delta s d).trans (sameShape_finished s offset nodeCount _)
  obtain ⟨e', he', -⟩ := hshape.symm.back he₀
  obtain ⟨e, he, hmoved⟩ := get?_finished_moved hlive hloop hin he'
  rw [he₀] at he
  cases he
  exact ⟨e'.core, Diagram.core?_of_get? he', hmoved.core⟩

/-- **The content of an instance that is kept is moved** by the end of its turn. -/
theorem movedWithin_finished (delta : Int) (offset nodeCount : Nat)
    (hlive : ∃ e, d.get? s = some e) (hloop : ¬ d.Inside s s) :
    MovedWithin delta s d (finished s offset nodeCount (moved delta s d)) where
  back := by
    intro c e' hin he' _
    have hshape := (sameShape_moved delta s d).trans (sameShape_finished s offset nodeCount _)
    have hin' := hshape.inside.mp hin
    obtain ⟨e₀', he₀', rfl⟩ := Diagram.core?_eq_some.mp he'
    obtain ⟨e, he, hmoved⟩ := get?_finished_moved hlive hloop hin' he₀'
    exact ⟨hin', e.core, Diagram.core?_of_get? he, hmoved.core⟩
  forth := fun _ _ hin he => exists_finished_moved hlive hloop hin.inside he

/-- The place of an instance is in its fields at the end of its turn. -/
theorem written_finished (he : d.get? s = some e) (hself : d₁.core? s = d.core? s) :
    ∃ e', (finished s offset nodeCount d₁).core? s = some e' ∧
      e'.role.unmarked = e.role.unmarked ∧ Written e' offset nodeCount := by
  rw [Diagram.core?_of_get? he, Diagram.core?_eq_some] at hself
  obtain ⟨e₁, he₁, hcore⟩ := hself
  have hrole : e₁.core.role = e.core.role := congrArg Element.role hcore
  have he' := get?_finished s offset nodeCount d₁ s
  rw [he₁, Option.map_some, placedAt, if_pos rfl] at he'
  refine ⟨_, Diagram.core?_of_get? he', ?_, ?_⟩
  · show (tag _ (withPlace offset nodeCount e₁)).role.unmarked = e.role.unmarked
    rw [unmarked_tag]
    exact congrArg Role.unmarked hrole
  · have hfields : (tag (markFor? (d₁.modify s (withPlace offset nodeCount)) s s)
        (withPlace offset nodeCount e₁)).core.fields =
        (withPlace offset nodeCount e₁).fields := fields_tag _ _
    obtain ⟨hoffset, hcount⟩ := written_withPlace offset nodeCount e₁
    exact ⟨by rw [hfields]; exact hoffset, by rw [hfields]; exact hcount⟩

/-- What an instance records is read without looking at ends. -/
theorem integerField_core (e : Element) (key : String) :
    integerField e.core key = integerField e key := by
  have hlocator : e.core.locator = e.locator := rfl
  have hfields : e.core.fields = e.fields := rfl
  rw [integerField, integerField, hlocator, hfields]

theorem recordedCount_core (e : Element) : recordedCount e.core = recordedCount e := by
  have hlocator : e.core.locator = e.locator := rfl
  rw [recordedCount, recordedCount, integerField_core, hlocator]

/-- **A turn brings its instance into its place.** -/
theorem inPlace_of_place (hrooted : d.Rooted) (hissued : d.Issued) (hs : s < d.bound)
    (hloop : ¬ d.Inside s s) (h : Edit.Runs (place x s offset) d p d') : InPlace x p d d' := by
  obtain ⟨-, -, -, -, hrefreshed⟩ := place_turn hrooted hissued hs hloop h
  obtain ⟨e, wasRefreshed, done, d₁, d₂, he, hsettle, rfl, rfl, rfl⟩ := place_runs_iff.mp h
  obtain ⟨-, hself⟩ := settle_turn hs hloop hsettle
  constructor
  case here =>
    obtain ⟨e', he', hrest⟩ := written_finished he hself
    exact ⟨e.core, e', Diagram.core?_of_get? he, he', hrest⟩
  case copied =>
    intro hwas
    obtain ⟨m, d₃, himports, hholds, heq⟩ := hrefreshed hwas
    refine ⟨m, himports, fun c e hin he hport => ?_⟩
    rw [heq] at hin ⊢
    exact hholds.isCopy hin
  case kept =>
    intro hwas
    obtain ⟨hrefreshed, -⟩ | ⟨-, e₀, start, recorded, he₀, hstart, hrecorded, hcount, rfl⟩ :=
      settle_cases hs hsettle
    · cases hwas.symm.trans hrefreshed
    · exact ⟨e₀.core, start, recorded, Diagram.core?_of_get? he₀,
        (integerField_core e₀ offsetField).trans hstart, (recordedCount_core e₀).trans hrecorded,
        hcount, movedWithin_finished _ _ _ ⟨e, he⟩ hloop⟩

/-! ## Other turns and stitching -/

/-- The ways up within an element are the same. -/
theorem SameWithin.inside_below (h : SameWithin s d d') (hin : d'.Inside c q)
    (hq : d'.Inside q s) : d.Inside c q := by
  have hup : ∀ {c p}, d'.Inside c s → d'.HasParent c p → d.HasParent c p := fun hin hp =>
    hp.congr (h.core _ (.inr ((h.inside _).mp hin))).symm
  induction hin using Relation.TransGen.head_induction_on with
  | single hp => exact .single (hup (hq.head hp) hp)
  | head hp hin ih => exact ih.head (hup ((hin.trans hq).head hp) hp)

theorem InsideFreely.sameWithin (h : InsideFreely d c s) (hsame : SameWithin s d d') :
    InsideFreely d' c s where
  inside := (hsame.inside c).mpr h.inside
  free := by
    intro q e hq hin he
    have hin₀ := (hsame.inside q).mp hin
    rw [hsame.core q (.inr hin₀)] at he
    exact h.free q e (hq.imp id fun hq => hsame.inside_below hq hin) hin₀ he

/-- **What was in an instance and in no super-port is still in it.** -/
theorem MovedWithin.inside (h : MovedWithin delta s d d') (hin : InsideFreely d c s) :
    d'.Inside c s := by
  obtain ⟨hin, hfree⟩ := hin
  have hup : ∀ {c p}, InsideFreely d c s → d.HasParent c p → d'.HasParent c p := by
    intro c p hc hp
    obtain ⟨e, he, hparent⟩ := Diagram.hasParent_iff_core?.mp hp
    obtain ⟨e', he', hmoved⟩ := h.forth c e hc he
    exact Diagram.hasParent_iff_core?.mpr ⟨e', he', hmoved.parent.trans hparent⟩
  induction hin using Relation.TransGen.head_induction_on with
  | single hp => exact .single (hup ⟨.single hp, hfree⟩ hp)
  | head hp hin ih =>
    refine (ih fun q e hq => ?_).head (hup ⟨hin.head hp, hfree⟩ hp)
    refine hfree q e (.inr ?_)
    rcases hq with rfl | hq
    · exact .single hp
    · exact hq.head hp

theorem MovedWithin.before (h : MovedWithin delta s d₁ d') (hsame : SameWithin s d d₁) :
    MovedWithin delta s d d' where
  back := by
    intro c e' hin he' hport
    obtain ⟨hin₁, e, he, hmoved⟩ := h.back c e' hin he' hport
    rw [hsame.core c (.inr ((hsame.inside c).mp hin₁))] at he
    exact ⟨(hsame.inside c).mp hin₁, e, he, hmoved⟩
  forth := by
    intro c e hin he
    rw [← hsame.core c (.inr hin.inside)] at he
    exact h.forth c e (hin.sameWithin hsame) he

theorem MovedWithin.after (h : MovedWithin delta s d d₁) (hsame : SameWithin s d₁ d') :
    MovedWithin delta s d d' where
  back := by
    intro c e' hin he' hport
    have hin₁ := (hsame.inside c).mp hin
    rw [hsame.core c (.inr hin₁)] at he'
    exact h.back c e' hin₁ he' hport
  forth := by
    intro c e hin he
    obtain ⟨e', he', hmoved⟩ := h.forth c e hin he
    exact ⟨e', (hsame.core c (.inr (h.inside hin))).trans he', hmoved⟩

/-- **An instance stays in its place while others have their turns.** -/
theorem local_inPlace (x : Context) : Local (InPlace x) where
  before := by
    intro p d d₁ d' hsame h
    have hself := hsame.core p.slot (.inl rfl)
    refine ⟨?_, h.copied, fun hwas => ?_⟩
    · obtain ⟨e, e', he, hrest⟩ := h.here
      exact ⟨e, e', hself ▸ he, hrest⟩
    · obtain ⟨e, start, recorded, he, hstart, hrecorded, hcount, hmoved⟩ := h.kept hwas
      exact ⟨e, start, recorded, hself ▸ he, hstart, hrecorded, hsame.alike.nodesIn ▸ hcount,
        hmoved.before hsame⟩
  after := by
    intro p d d₁ d' hsame h
    have hself := hsame.core p.slot (.inl rfl)
    refine ⟨?_, fun hwas => ?_, fun hwas => ?_⟩
    · obtain ⟨e, e', he, he', hrest⟩ := h.here
      exact ⟨e, e', he, hself.trans he', hrest⟩
    · obtain ⟨m, himports, hcopies⟩ := h.copied hwas
      refine ⟨m, himports, fun c e hin he hport => ?_⟩
      have hin₁ := (hsame.inside c).mp hin
      have hcore := hsame.core c (.inr hin₁)
      obtain ⟨o, hcopy⟩ := hcopies c e hin₁ (hcore ▸ he) hport
      exact ⟨o, hcopy.congr hcore⟩
    · obtain ⟨e, start, recorded, he, hstart, hrecorded, hcount, hmoved⟩ := h.kept hwas
      exact ⟨e, start, recorded, he, hstart, hrecorded, hcount, hmoved.after hsame⟩

theorem MovedBy.isSuperPort (h : MovedBy delta e e') : e'.role.isSuperPort = e.role.isSuperPort :=
  Role.congr_of_unmarked Role.isSuperPort_unmarked h.role

theorem MovedWithin.keeps (h : MovedWithin delta s d d₁) (hkeeps : Keeps d₁ d') :
    MovedWithin delta s d d' where
  back := by
    intro c e' hin he' hport
    have he₁ := hkeeps.old he' hport
    exact h.back c e' (hkeeps.inside c s (Diagram.lt_bound_of_core? he₁) hin) he₁ hport
  forth := by
    intro c e hin he
    obtain ⟨e', he', hmoved⟩ := h.forth c e hin he
    have hport := hmoved.isSuperPort.trans (hin.free c e (.inl rfl) hin.inside he)
    exact ⟨e', hkeeps.kept c e' he' hport, hmoved⟩

/-- **An instance stays in its place while super-ports are redrawn.** -/
theorem InPlace.keeps (h : InPlace x p d d₁) (hkeeps : Keeps d₁ d')
    (hplain : ∀ e, d.core? p.slot = some e → e.role.isSuperPort = false) : InPlace x p d d' where
  here := by
    obtain ⟨e, e', he, he', hrole, hwritten⟩ := h.here
    have hport := Role.congr_of_unmarked Role.isSuperPort_unmarked hrole
    exact ⟨e, e', he, hkeeps.kept p.slot e' he' (hport.trans (hplain e he)), hrole, hwritten⟩
  copied := by
    intro hwas
    obtain ⟨m, himports, hcopies⟩ := h.copied hwas
    refine ⟨m, himports, fun c e hin he hport => ?_⟩
    have he₁ := hkeeps.old he hport
    have hin₁ := hkeeps.inside c p.slot (Diagram.lt_bound_of_core? he₁) hin
    obtain ⟨o, hcopy⟩ := hcopies c e hin₁ he₁ hport
    exact ⟨o, hcopy.congr (he.trans he₁.symm)⟩
  kept := by
    intro hwas
    obtain ⟨e, start, recorded, he, hstart, hrecorded, hcount, hmoved⟩ := h.kept hwas
    exact ⟨e, start, recorded, he, hstart, hrecorded, hcount, hmoved.keeps hkeeps⟩

/-! ## All turns -/

/-- **After all turns every instance is in its place**, and whatever is apart from all
instances is as it was. -/
theorem inPlace_of_placeAll {placed : List Placed} (hrooted : d.Rooted) (hissued : d.Issued)
    (hlive : ∀ s ∈ instances, s < d.bound) (hflat : Flat d instances) (hnodup : instances.Nodup)
    (h : Edit.Runs (placeAll x offset instances) d placed d') :
    (∀ p ∈ placed, InPlace x p d d') ∧ d'.Issued ∧
      ∀ t < d.bound, (∀ s ∈ instances, Apart d s t) → SameWithin t d d' := by
  obtain ⟨hall, -, hissued', -, hframe⟩ := placeAll_turns (local_inPlace x)
    (fun d s offset p d' hrooted hissued hs hself hplace =>
      inPlace_of_place hrooted hissued hs hself hplace) hrooted hissued hlive hflat hnodup h
  exact ⟨hall, hissued', hframe⟩

/-- An instance that was found is no super-port. -/
theorem plain_of_findInstances {top : Slot} (h : findInstances d top = .ok instances)
    (hs : s ∈ instances) (he : d.core? s = some e) : e.role.isSuperPort = false := by
  obtain ⟨⟨e₀, he₀, hsub⟩, -⟩ := (mem_directInstances h).2 s hs
  rw [Diagram.core?_of_get? he₀] at he
  cases he
  show e₀.role.isSuperPort = false
  cases hr : e₀.role <;> rw [hr] at hsub <;> first | rfl | cases hsub

end Netlist.Assembly
