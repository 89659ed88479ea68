import Netlist.Proofs.Assembly.Marks
import Netlist.Proofs.Assembly.Refreshing

/-!
# Elements that persist

Parents may be slots that were not issued yet. A copy that fills such a slot in the turn of
an instance brings everything below the slot into the instance, and marking duplicates
reaches it there. All else that is not in the instance stays as it is, but for ends. So an
element persists if it stays but for its ends and its mark, and what lies on the way up
from instances is never in one that waits for its turn.

- `Persists`: an element that stays but for its ends and its mark.
- `AlikeWithin`: an element that persists with all that is in it, and nothing more is.
- `Passage`, `passage_of_place`: **what a turn may change, whatever the parents are.**
- `Clearway`, `Clearway.passage`: slots that lead up to no instance that waits. A turn adds
  to them its instance, what is in it and all new slots.
- `Clearway.persists`, `Clearway.alikeWithin`: **a turn leaves them and all other instances
  alone**, but for marks.
-/

namespace Netlist.Assembly

variable {x : Context} {d d₁ d' : Diagram} {j p s t : Slot} {e e' : Element} {offset : Nat}
  {way : Slot → Prop} {instances : List Slot}

/-! ## One element -/

/-- The last mark counts. -/
theorem tag_tag (o o' : Option Slot) (e : Element) : tag o' (tag o e) = tag (o'.or o) e := by
  cases o' with
  | none => rfl
  | some a =>
    cases o with
    | none => rfl
    | some b =>
      show mark a (mark b e) = mark a e
      rw [mark, mark, mark, Role.setDuplicateOf_setDuplicateOf]

/-- The element in a slot stays, or the slot stays empty, but for ends and the mark. -/
def Persists (d d' : Diagram) (j : Slot) : Prop := ∃ o, d'.core? j = (d.core? j).map (tag o)

theorem persists_of_core? (h : d'.core? j = d.core? j) : Persists d d' j :=
  ⟨none, h.trans (congrFun Option.map_id (d.core? j)).symm⟩

namespace Persists

theorem trans (h : Persists d d₁ j) (h' : Persists d₁ d' j) : Persists d d' j := by
  obtain ⟨o, h⟩ := h
  obtain ⟨o', h'⟩ := h'
  refine ⟨o'.or o, ?_⟩
  rw [h', h, Option.map_map]
  congr 1
  exact funext (tag_tag o o')

theorem exists_tag (h : Persists d d' j) (he : d.core? j = some e) :
    ∃ o, d'.core? j = some (tag o e) := by
  obtain ⟨o, h⟩ := h
  exact ⟨o, by rw [h, he, Option.map_some]⟩

theorem back (h : Persists d d' j) (he' : d'.core? j = some e') :
    ∃ e o, d.core? j = some e ∧ tag o e = e' := by
  obtain ⟨o, h⟩ := h
  rw [h, Option.map_eq_some_iff] at he'
  obtain ⟨e, he, htag⟩ := he'
  exact ⟨e, o, he, htag⟩

theorem hasParent (h : Persists d d' j) : d'.HasParent j p ↔ d.HasParent j p := by
  rw [Diagram.hasParent_iff_core?, Diagram.hasParent_iff_core?]
  constructor
  · rintro ⟨x', hx', hp⟩
    obtain ⟨x, o, hx, rfl⟩ := h.back hx'
    exact ⟨x, hx, by rwa [parent_tag] at hp⟩
  · rintro ⟨x, hx, hp⟩
    obtain ⟨o, hx'⟩ := h.exists_tag hx
    exact ⟨_, hx', by rwa [parent_tag]⟩

end Persists

/-! ## All within an element -/

/-- An element persists with all that is in it, and nothing more is in it. -/
structure AlikeWithin (t : Slot) (d d' : Diagram) : Prop where
  inside : ∀ j, d'.Inside j t ↔ d.Inside j t
  persists : ∀ j, j = t ∨ d.Inside j t → Persists d d' j

theorem AlikeWithin.refl (t : Slot) (d : Diagram) : AlikeWithin t d d :=
  ⟨fun _ => Iff.rfl, fun _ _ => persists_of_core? rfl⟩

theorem AlikeWithin.trans (h : AlikeWithin t d d₁) (h' : AlikeWithin t d₁ d') :
    AlikeWithin t d d' where
  inside := fun j => (h'.inside j).trans (h.inside j)
  persists := fun j hj => (h.persists j hj).trans (h'.persists j (hj.imp id (h.inside j).mpr))

theorem SameWithin.alike (h : SameWithin t d d') : AlikeWithin t d d' :=
  ⟨h.inside, fun j hj => persists_of_core? (h.core j hj)⟩

theorem AlikeWithin.descendants (h : AlikeWithin t d d') : d'.descendants t = d.descendants t := by
  refine List.Pairwise.eq_of_mem_iff (Diagram.sorted_descendants d' t)
    (Diagram.sorted_descendants d t) fun c => ?_
  have hlive : (∃ e, d'.get? t = some e) ↔ ∃ e, d.get? t = some e := by
    obtain ⟨o, hcore⟩ := h.persists t (.inl rfl)
    rw [← Option.isSome_iff_exists, ← Option.isSome_iff_exists, ← Option.isSome_map (f := Element.core),
      ← Option.isSome_map (f := Element.core) (x := d.get? t)]
    show (d'.core? t).isSome = true ↔ (d.core? t).isSome = true
    rw [hcore, Option.isSome_map]
  rw [Diagram.mem_descendants, Diagram.mem_descendants, hlive, h.inside]

/-- Nodes are counted without looking at marks. -/
theorem AlikeWithin.nodesIn (h : AlikeWithin t d d') : nodesIn d' t = nodesIn d t := by
  rw [Assembly.nodesIn, Assembly.nodesIn, h.descendants]
  refine List.countP_congr fun c hc => ?_
  obtain ⟨o, hcore⟩ := h.persists c (.inr (Diagram.mem_descendants.mp hc).2.2)
  have hany : ∀ d : Diagram, (d.get? c).any Element.isNumberedNode =
      (d.core? c).any Element.isNumberedNode := by
    intro d
    rw [Diagram.core?, Option.any_map]
    rfl
  have htag : (fun e => (tag o e).isNumberedNode) = Element.isNumberedNode := funext fun e =>
    congrArg (Option.any NodeKind.isNumbered)
      (Role.congr_of_unmarked Role.nodeKind?_unmarked (unmarked_tag o e))
  rw [hany, hany, hcore, Option.any_map, htag]

/-! ## What an instance records -/

/-- What an instance records is read without looking at its mark. -/
theorem integerField_tag (o : Option Slot) (e : Element) (key : String) :
    integerField (tag o e) key = integerField e key := by
  cases o <;> rfl

theorem recordedCount_tag (o : Option Slot) (e : Element) :
    recordedCount (tag o e) = recordedCount e := by
  cases o <;> rfl

/-! ## Turns -/

/-- What a turn of the instance `s` may change, whatever the parents are. -/
structure Passage (s : Slot) (d d' : Diagram) : Prop where
  bound : d.bound ≤ d'.bound
  outside : ∀ j < d.bound, j ≠ s → ¬ d.Inside j s → Persists d d' j
  parents : ∀ j < d.bound, ∀ p, d'.HasParent j p → d.HasParent j p
  fresh : ∀ j p, d.bound ≤ j → d'.HasParent j p → p = s ∨ d.bound ≤ p

/-- The end of a turn gives marks to others, and fields to none. -/
theorem persists_finished (offset nodeCount : Nat) (d : Diagram) (hj : j ≠ s) :
    Persists d (finished s offset nodeCount d) j := by
  refine ⟨markFor? (d.modify s (withPlace offset nodeCount)) s j, ?_⟩
  rw [Diagram.core?, get?_finished, Diagram.core?, Option.map_map, Option.map_map]
  congr 1
  funext e
  rw [Function.comp_apply, Function.comp_apply, placedAt, if_neg (Ne.symm hj)]
  cases markFor? (d.modify s (withPlace offset nodeCount)) s j <;> rfl

/-- **A turn changes nothing outside its instance but marks**, whatever the parents are. -/
theorem passage_of_place {p : Placed} (hs : s < d.bound) (hloop : ¬ d.Inside s s)
    (h : Edit.Runs (place x s offset) d p d') : Passage s d d' := by
  obtain ⟨e, wasRefreshed, done, d₁, d₂, -, hsettle, rfl, rfl, -⟩ := place_runs_iff.mp h
  obtain ⟨hturn, -⟩ := settle_turn hs hloop hsettle
  have hshape := sameShape_finished s offset done.nodeCount d₁
  constructor
  case bound => exact hturn.bound.trans_eq (bound_finished s offset done.nodeCount d₁).symm
  case outside =>
    intro j hj hne hout
    exact (persists_of_core? (hturn.outside j hj hne hout)).trans (persists_finished offset _ d₁ hne)
  case parents => exact fun j hj p hp => hturn.parents j hj p (hshape.hasParent.mp hp)
  case fresh => exact fun j p hj hp => (hturn.fresh j p hj (hshape.hasParent.mp hp)).imp id And.left

/-! ## Slots on the way up -/

/-- Slots that lead up to no instance. What is above an instance is among them. -/
structure Clearway (way : Slot → Prop) (instances : List Slot) (d : Diagram) : Prop where
  up : ∀ j p, way j → d.HasParent j p → way p
  above : ∀ t ∈ instances, ∀ p, d.HasParent t p → way p
  free : ∀ t ∈ instances, ¬ way t

theorem Clearway.of_inside (h : Clearway way instances d) (hj : way j) (hin : d.Inside j p) :
    way p := by
  induction hin with
  | single hp => exact h.up _ _ hj hp
  | tail _ hp ih => exact h.up _ _ ih hp

theorem Clearway.not_inside (h : Clearway way instances d) (hj : way j) (ht : t ∈ instances) :
    j ≠ t ∧ ¬ d.Inside j t :=
  ⟨fun heq => h.free t ht (heq ▸ hj), fun hin => h.free t ht (h.of_inside hj hin)⟩

/-- No instance is in another one, nor in itself. -/
theorem Clearway.flat (h : Clearway way instances d) : Flat d instances := by
  intro s hs t ht hin
  obtain ⟨p, hp, hup⟩ := Relation.TransGen.head'_iff.mp hin
  rcases Relation.reflTransGen_iff_eq_or_transGen.mp hup with rfl | hin
  · exact h.free _ ht (h.above s hs _ hp)
  · exact (h.not_inside (h.above s hs p hp) ht).2 hin

/-- The slots above instances are a way up from them. -/
theorem clearway_of_flat (hflat : Flat d instances) :
    Clearway (fun j => ∃ t ∈ instances, d.Inside t j) instances d where
  up := fun _ _ hj hp => hj.imp fun _ ht => ⟨ht.1, ht.2.tail hp⟩
  above := fun t ht _ hp => ⟨t, ht, .single hp⟩
  free := fun t ht ⟨s, hs, hin⟩ => hflat s hs t ht hin

/-- The way up after the turn of an instance: the instance and what is in it had their turn,
and new slots lead to it. -/
def wayAfter (way : Slot → Prop) (s : Slot) (d : Diagram) (j : Slot) : Prop :=
  way j ∨ j = s ∨ d.Inside j s ∨ d.bound ≤ j

/-- **New slots lead to no instance that waits.** -/
theorem Clearway.passage (h : Clearway way (s :: instances) d) (hnot : s ∉ instances)
    (hlive : ∀ t ∈ instances, t < d.bound) (hpass : Passage s d d') :
    Clearway (wayAfter way s d) instances d' where
  up := by
    intro j p hj hp
    by_cases hold : d.bound ≤ j
    · exact (hpass.fresh j p hold hp).elim (.inr ∘ .inl) fun hp => .inr (.inr (.inr hp))
    have hp := hpass.parents j (Nat.lt_of_not_le hold) p hp
    obtain hj | rfl | hin | hj := hj
    · exact .inl (h.up j p hj hp)
    · exact .inl (h.above j List.mem_cons_self p hp)
    · exact (hin.step hp).elim (.inr ∘ .inl) fun hin => .inr (.inr (.inl hin))
    · exact absurd hj hold
  above := fun t ht p hp => .inl (h.above t (List.mem_cons_of_mem s ht) p
    (hpass.parents t (hlive t ht) p hp))
  free := by
    rintro t ht (hway | rfl | hin | hle)
    · exact h.free t (List.mem_cons_of_mem s ht) hway
    · exact hnot ht
    · exact h.flat t (List.mem_cons_of_mem s ht) s List.mem_cons_self hin
    · exact Nat.not_lt.mpr hle (hlive t ht)

theorem Clearway.persists (h : Clearway way instances d) (hs : s ∈ instances)
    (hpass : Passage s d d') (hlt : j < d.bound) (hj : way j) : Persists d d' j :=
  hpass.outside j hlt (h.not_inside hj hs).1 (h.not_inside hj hs).2

/-- **A turn leaves all other instances alone**, but for marks. -/
theorem Clearway.alikeWithin (h : Clearway way instances d) (hs : s ∈ instances)
    (ht : t ∈ instances) (hne : t ≠ s) (hlive : t < d.bound) (hpass : Passage s d d') :
    AlikeWithin t d d' := by
  have hapart : Apart d s t := ⟨hne, h.flat s hs t ht, h.flat t ht s hs⟩
  have hkept : ∀ {j}, d.Inside j t → Persists d d' j := by
    intro j hin
    obtain ⟨e, he⟩ := hin.live
    obtain ⟨hne, hout⟩ := hapart.not_inside hin
    exact hpass.outside j (Diagram.lt_bound_of_get? he) hne hout
  -- New slots lead to new ones or to `s`, and neither are in `t`.
  have hold : ∀ {j p}, p = t ∨ p < d.bound ∧ d.Inside p t → d'.HasParent j p →
      j < d.bound ∧ d.Inside j t := by
    intro j p hp hj
    have hlt : j < d.bound := by
      by_contra hnew
      rcases hpass.fresh j p (Nat.le_of_not_lt hnew) hj with rfl | hle
      · exact hp.elim (Ne.symm hne) fun hp => hapart.left hp.2
      · exact hp.elim (fun heq => Nat.not_lt.mpr hle (heq ▸ hlive)) fun hp =>
          Nat.not_lt.mpr hle hp.1
    refine ⟨hlt, ?_⟩
    have hj := hpass.parents j hlt p hj
    rcases hp with rfl | hp
    · exact .single hj
    · exact hp.2.head hj
  have hback : ∀ {j}, d'.Inside j t → j < d.bound ∧ d.Inside j t := by
    intro j hin
    induction hin using Relation.TransGen.head_induction_on with
    | single hp => exact hold (.inl rfl) hp
    | head hp _ ih => exact hold (.inr ih) hp
  refine ⟨fun j => ⟨fun hin => (hback hin).2, fun hin => ?_⟩, ?_⟩
  · induction hin using Relation.TransGen.head_induction_on with
    | single hp => exact .single ((hkept (.single hp)).hasParent.mpr hp)
    | head hp hin ih => exact ih.head ((hkept (hin.head hp)).hasParent.mpr hp)
  · rintro j (rfl | hin)
    · exact hpass.outside j hlive hne hapart.right
    · exact hkept hin

end Netlist.Assembly
