import Netlist.Proofs.Assembly.Filling

/-!
# Content that is kept

An instance that is not refreshed keeps its content and moves its numbers; then its place
is written into its fields and its duplicates are marked. None of this changes what an
element is or what it is in, so both are steps of the turn. When the place is in the
fields already and the duplicates are marked, there is nothing left to do.

- `Frame.of_shape`: a step that changes labels, fields and marks of an instance.
- `frame_moved`, `frame_finished`: moving the numbers, and the end of a turn.
- `Filled.isMarked`: the duplicates of a filled instance are marked.
- `place_kept_again`: **keeping content again changes nothing.**
-/

namespace Netlist.Assembly

open Diagram (proper?_eq_some)

variable {d d₁ d' : Diagram} {m : Import} {s a i j top start : Slot} {instances : List Slot}
  {e e' : Element} {offset nodeCount : Nat}

/-! ## Steps that change no shapes -/

/-- **A step that changes labels, fields and marks** of an instance, and nothing else. -/
theorem Frame.of_shape (hd : Orderly top instances d) (hshape : SameShape d d')
    (hbound : d'.bound = d.bound)
    (hkept : ∀ j e e', ¬ d.Inside j s → d.get? j = some e → d'.get? j = some e' →
      Stays e e' ∧ (j ≠ s → e'.fields = e.fields))
    (hends : ∀ j e e' isSource, d.get? j = some e → d'.get? j = some e' →
      e'.endAt isSource = e.endAt isSource)
    (hmarks : ∀ a e' first, d'.get? a = some e' → e'.role.mark? = some first →
      (∃ e, d.get? a = some e ∧ e.role.mark? = some first ∧ ¬ d.Inside a s) ∨
        d'.Inside a s ∧ d'.Inside first s ∧ Assembly.isInterface d' first = true) :
    Frame (some s) d d' := by
  have hclear : ∀ {j}, Clear (some s) d j ↔ ¬ d.Inside j s := by
    intro j
    constructor
    · exact fun h => h s rfl
    · intro h t ht
      rw [Option.mem_def, Option.some.injEq] at ht
      exact ht ▸ h
  -- Nothing is added, so nothing has to be said of new elements.
  have hnone : ∀ {j e'}, d.bound ≤ j → d'.get? j ≠ some e' := by
    intro j e' hj he'
    rw [Diagram.get?_of_bound_le (hbound ▸ hj)] at he'
    cases he'
  have hconnector : ∀ {c e'}, d'.get? c = some e' → e'.role = .connector →
      ∃ e, d.get? c = some e ∧ e.role = .connector := by
    intro c e' he' hrole
    obtain ⟨e, he, hunmarked, -⟩ := hshape.back he'
    refine ⟨e, he, ?_⟩
    rw [← Role.unmarked_eq_connector, ← hunmarked, hrole]
    rfl
  constructor
  case bound => rw [hbound]
  case kept =>
    intro j e hj he
    obtain ⟨hget, hport⟩ := proper?_eq_some.mp he
    obtain ⟨e', he', -⟩ := hshape.symm.back hget
    obtain ⟨hstays, hfields⟩ := hkept j e e' (hclear.mp hj) hget he'
    refine ⟨e', proper?_eq_some.mpr ⟨he', by rw [hstays.role, hport]⟩, hstays, fun hnot => ?_⟩
    exact hfields fun heq => hnot (heq ▸ rfl)
  case old =>
    intro j e' _ he'
    obtain ⟨e, he, hunmarked, hparent⟩ := hshape.back he'
    exact ⟨e, he, hparent, hunmarked⟩
  case new => exact fun j e' hj he' => absurd he' (hnone hj)
  case hung => exact fun j e' p x hj he' => absurd he' (hnone hj)
  case loopless => exact fun j _ hin => hd.loopless j (hshape.inside.mp hin)
  case marks =>
    intro a e' first he' hmark
    rcases hmarks a e' first he' hmark with ⟨e, he, hmark, hout⟩ | hin
    · exact .inl ⟨e, he, hmark, hclear.mpr hout⟩
    · exact .inr ⟨s, rfl, hin⟩
  case anchored =>
    intro c e' isSource a he' hrole' hend'
    obtain ⟨e, he, hrole⟩ := hconnector he' hrole'
    rw [hbound]
    exact hd.anchored c e isSource a he hrole (hends c e e' isSource he he' ▸ hend')
  case back => exact fun c e e' isSource a he he' _ _ hend' => hends c e e' isSource he he' ▸ hend'
  case moved =>
    intro c e e' isSource a he he' hrole' ha hend'
    obtain ⟨e₀, he₀, hrole⟩ := hconnector he' hrole'
    rw [he] at he₀
    cases he₀
    exact absurd (hd.anchored c e isSource a he hrole (hends c e e' isSource he he' ▸ hend'))
      (Nat.not_lt.mpr ha)
  case stays =>
    exact fun c e e' isSource a he he' _ hend _ _ => (hends c e e' isSource he he').trans hend
  case newEnds => exact fun c e' isSource a hc he' => absurd he' (hnone hc)

/-- A mark stays within an instance. -/
theorem Orderly.mark_cases {first : Slot} (hd : Orderly top instances d) (hs : s ∈ instances)
    (hshape : SameShape d d') (he : d.get? a = some e) (hmark : e.role.mark? = some first) :
    (∃ e, d.get? a = some e ∧ e.role.mark? = some first ∧ ¬ d.Inside a s) ∨
      d'.Inside a s ∧ d'.Inside first s ∧ isInterface d' first = true := by
  by_cases hin : d.Inside a s
  · obtain ⟨t, ht, hina, hinfirst, hinterface⟩ := hd.marks a e first he hmark
    obtain rfl : t = s := by
      by_contra hne
      exact hd.apart ht hs hne hina hin
    exact .inr ⟨hshape.inside.mpr hina, hshape.inside.mpr hinfirst,
      hshape.isInterface.trans hinterface⟩
  · exact .inl ⟨e, he, hmark, hin⟩

/-! ## Moving the numbers -/

theorem shape_shift (delta : Int) (e : Element) : shape (shift delta e) = shape e := by
  rw [shift_eq]
  rfl

theorem sameShape_shiftAll {delta : Int} {slots : List Slot} (hnodup : slots.Nodup) (d : Diagram) :
    SameShape d (shiftAll delta slots d) := by
  intro j
  rw [get?_shiftAll hnodup]
  split
  · rw [Option.map_map]
    congr 1
    exact funext fun e => shape_shift delta e
  · rfl

/-- **Moving numbers in an instance is a step of its turn.** -/
theorem frame_shiftAll {delta : Int} {slots : List Slot} (hd : Orderly top instances d)
    (hs : s ∈ instances) (hnodup : slots.Nodup) (hslots : ∀ j ∈ slots, d.Inside j s) :
    Frame (some s) d (shiftAll delta slots d) := by
  have hat : ∀ {j e e'}, d.get? j = some e → (shiftAll delta slots d).get? j = some e' →
      e' = e ∨ d.Inside j s ∧ e' = shift delta e := by
    intro j e e' he he'
    rw [get?_shiftAll hnodup, he] at he'
    split at he'
    · rename_i hj
      exact .inr ⟨hslots j hj, (Option.some.inj he').symm⟩
    · exact .inl (Option.some.inj he').symm
  have hshape : SameShape d (shiftAll delta slots d) := sameShape_shiftAll hnodup d
  have hrole : ∀ {j e e'}, d.get? j = some e → (shiftAll delta slots d).get? j = some e' →
      e'.role = e.role := by
    intro j e e' he he'
    rcases hat he he' with rfl | ⟨-, rfl⟩
    · rfl
    · rw [shift_eq]
  refine .of_shape hd hshape (bound_shiftAll _ _ d) (fun j e e' hout he he' => ?_)
    (fun j e e' isSource he he' => ?_) fun a e' first he' hmark => ?_
  · obtain rfl := (hat he he').resolve_right fun hin => hout hin.1
    exact ⟨⟨rfl, rfl, rfl, rfl⟩, fun _ => rfl⟩
  · rcases hat he he' with rfl | ⟨-, rfl⟩
    · rfl
    · rw [shift_eq]
      cases isSource <;> rfl
  · obtain ⟨e, he, -⟩ := hshape.back he'
    exact hd.mark_cases hs hshape he (hrole he he' ▸ hmark)

theorem frame_moved (delta : Int) (hd : Orderly top instances d) (hs : s ∈ instances) :
    Frame (some s) d (moved delta s d) := by
  rw [moved]
  split
  · exact frame_shiftAll hd hs (Topology.nodup_descendants d s) fun j hj =>
      (Diagram.mem_descendants.mp hj).2.2
  · have hnone : shiftAll delta [] d = d := rfl
    exact hnone ▸ frame_shiftAll hd hs .nil (List.forall_mem_nil _)

theorem sameShape_moved (delta : Int) (s : Slot) (d : Diagram) : SameShape d (moved delta s d) := by
  rw [moved]
  split
  · exact sameShape_shiftAll (Topology.nodup_descendants d s) d
  · exact fun _ => rfl

/-- The instance itself is not moved. -/
theorem get?_moved_self (delta : Int) (s : Slot) (d : Diagram) :
    (moved delta s d).get? s = d.get? s := by
  rw [moved]
  split
  · rw [get?_shiftAll (Topology.nodup_descendants d s), if_neg]
    exact fun hs => (Diagram.mem_descendants.mp hs).2.1 rfl
  · rfl

theorem bound_moved (delta : Int) (s : Slot) (d : Diagram) : (moved delta s d).bound = d.bound := by
  rw [moved]
  split
  · exact bound_shiftAll _ _ d
  · rfl

/-! ## The end of a turn -/

/-- **The end of a turn is a step of it.** -/
theorem frame_finished (hd : Orderly top instances d) (hs : s ∈ instances) :
    Frame (some s) d (finished s offset nodeCount d) := by
  have hshape := sameShape_finished s offset nodeCount d
  have hat : ∀ {j e'}, (finished s offset nodeCount d).get? j = some e' → ∃ e, d.get? j = some e ∧
      e' = tag (markFor? (d.modify s (withPlace offset nodeCount)) s j)
        (placedAt s offset nodeCount j e) := by
    intro j e' he'
    rw [get?_finished, Option.map_eq_some_iff] at he'
    obtain ⟨e, he, rfl⟩ := he'
    exact ⟨e, he, rfl⟩
  -- Writing the place changes no parents, so the interfaces are those from before.
  have hinside : ∀ {i}, i ∈ interfacesIn (d.modify s (withPlace offset nodeCount)) s →
      d.Inside i s ∧ isInterface d i = true := by
    intro i hi
    have hmodify : SameShape d (d.modify s (withPlace offset nodeCount)) := by
      intro j
      rw [Diagram.get?_modify]
      split
      · rw [Option.map_map]
        rfl
      · rfl
    exact ⟨hmodify.inside.mp (inside_of_mem_interfacesIn hi),
      hmodify.isInterface.symm.trans (isInterface_of_mem_interfacesIn hi)⟩
  refine .of_shape hd hshape (bound_finished s offset nodeCount d) (fun j e e' hout he he' => ?_)
    (fun j e e' isSource he he' => ?_) fun a e' first he' hmark => ?_
  · obtain ⟨e₀, he₀, rfl⟩ := hat he'
    rw [he] at he₀
    cases he₀
    -- Only interfaces of the instance are marked, and this element is not in it.
    have hnone : markFor? (d.modify s (withPlace offset nodeCount)) s j = none := by
      by_contra hsome
      obtain ⟨first, hfirst⟩ := Option.ne_none_iff_exists'.mp hsome
      exact hout (hinside (markFor?_eq_some hfirst).1).1
    rw [hnone, tag, placedAt]
    split
    · exact ⟨⟨rfl, rfl, rfl, rfl⟩, fun hne => absurd (by assumption) (Ne.symm hne)⟩
    · exact ⟨⟨rfl, rfl, rfl, rfl⟩, fun _ => rfl⟩
  · obtain ⟨e₀, he₀, rfl⟩ := hat he'
    rw [he] at he₀
    cases he₀
    rw [endAt_tag, placedAt]
    split
    · cases isSource <;> rfl
    · rfl
  · obtain ⟨e, he, rfl⟩ := hat he'
    have hrole : (placedAt s offset nodeCount a e).role = e.role := by
      rw [placedAt]
      split <;> rfl
    cases hfor : markFor? (d.modify s (withPlace offset nodeCount)) s a with
    | none =>
      rw [hfor, tag, hrole] at hmark
      exact hd.mark_cases hs hshape he hmark
    | some i =>
      obtain ⟨ha, hi⟩ := markFor?_eq_some hfor
      obtain ⟨hina, hinterface⟩ := hinside ha
      rw [isInterface, he, Option.any_some] at hinterface
      rw [hfor, mark?_tag _ (hrole ▸ hinterface), Option.some_or, Option.some.injEq] at hmark
      subst hmark
      exact .inr ⟨hshape.inside.mpr hina, hshape.inside.mpr (hinside hi).1,
        hshape.isInterface.trans (hinside hi).2⟩

/-! ## Keeping content again -/

/-- The duplicates of a filled instance are marked. -/
theorem Filled.isMarked (h : Filled m start s offset top d) (hbare : d.BarePorts) : Marked d s := by
  intro i first e hfirst he
  obtain ⟨-, -, hin, x, hx, hrole⟩ := mem_interfacesIn_iff_proper?.mp (markFor?_eq_some hfirst).1
  rw [(proper?_eq_some.mp hx).1] at he
  cases he
  rw [h.marks i e (h.mem_of_inside hbare hx hin) (proper?_eq_some.mp hx).1 hrole, hfirst]

/-- A place that is written in the fields of an instance. -/
structure Written (e : Element) (offset nodeCount : Nat) : Prop where
  offset : e.fields.get? offsetField = some (toString offset)
  nodeCount : e.fields.get? Connections.nodeCountField = some (toString nodeCount)

theorem written_withPlace (offset nodeCount : Nat) (e : Element) :
    Written (withPlace offset nodeCount e) offset nodeCount where
  offset := by
    show ((e.fields.insert offsetField (toString offset)).insert Connections.nodeCountField
      (toString nodeCount)).get? offsetField = _
    rw [Fields.get?_insert_of_ne (by decide), Fields.get?_insert_self]
  nodeCount := Fields.get?_insert_self _ _ _

/-- A place that is written already. -/
theorem Written.withPlace_eq (h : Written e offset nodeCount) :
    withPlace offset nodeCount e = e := by
  have hoffset : e.withField offsetField (toString offset) = e := by
    rw [Element.withField, Fields.insert_of_get? h.offset]
  rw [withPlace, hoffset, Element.withField, Fields.insert_of_get? h.nodeCount]

theorem integerField_toString {key : String} {n : Nat} (h : e.fields.get? key = some (toString n))
    (hn : n ≤ Text.integerLimit) : integerField e key = .ok (some n) := by
  have hread : Text.readSigned (Text.trim (toString n)) = .ok (n : Int) := by
    rw [Text.trim_toString]
    exact Text.readSigned_toString.mpr ⟨rfl, hn⟩
  rw [integerField, h]
  simp only [hread]

/-- **Keeping content whose place is written changes nothing.** -/
theorem reuse_again (he : d.get? s = some e) (h : Written e offset nodeCount)
    (hoffset : offset ≤ Text.integerLimit) (hcount : nodeCount ≤ Text.integerLimit) :
    Edit.Runs (reuse s offset) d nodeCount d := by
  refine reuse_runs_iff.mpr ⟨e, some offset, some nodeCount, he,
    integerField_toString h.offset hoffset, ?_, rfl, ?_⟩
  · rw [recordedCount, integerField_toString h.nodeCount hcount]
    rfl
  · rw [Option.getD_some, displacement_self, moved, if_neg (not_not.mpr rfl)]

/-- **A turn in which the content is kept changes nothing**, if the place is written and
the duplicates are marked. -/
theorem place_kept_again {x : Context} (he : d.get? s = some e)
    (hkept : refreshedFrom x d s (e.fields.get? drawingField) = none)
    (h : Written e offset nodeCount) (hoffset : offset ≤ Text.integerLimit)
    (hcount : nodeCount ≤ Text.integerLimit) (hmarked : Marked d s) :
    ∃ duplicates, Edit.Runs (place x s offset) d ⟨s, ⟨e.displayName, e.fields.get? drawingField,
      offset, nodeCount⟩, false, duplicates, 0⟩ d := by
  have hplace : d.modify s (withPlace offset nodeCount) = d := by
    refine Diagram.ext_get? (Diagram.bound_modify d s _) fun j => ?_
    rw [Diagram.get?_modify]
    split
    · rename_i hj
      rw [← hj, he, Option.map_some, h.withPlace_eq]
    · rfl
  refine ⟨_, place_runs_iff.mpr ⟨e, false, ⟨nodeCount, 0, 0⟩, d, d, he, ?_, hplace.symm,
    (marked_of_marked hmarked).symm, rfl⟩⟩
  rw [settle_runs_iff, hkept]
  exact ⟨nodeCount, rfl, reuse_again he h hoffset hcount⟩

end Netlist.Assembly
