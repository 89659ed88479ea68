import Netlist.Assembly
import Netlist.Proofs.Assembly.Duplicates
import Netlist.Proofs.Assembly.Linking

/-!
# Turns of instances

Assembly works on one instance after the other. Such a turn may do a lot inside
the instance, and it may add elements there, but it leaves the rest of the
diagram alone, but for the ends of connectors. What holds of one instance thus
still holds after the turns of the others.

- `Turn`: what a turn may change. `Turn.trans` composes turns.
- `SameWithin`, `Turn.sameWithin`: **a turn changes nothing within another
  instance.**
- `core?_clear`, `rebindAll_frame`, `turn_shiftAll`: the parts of a turn.
-/

namespace Netlist.Assembly

open Diagram (root)

variable {d d₁ d' : Diagram} {s t i j c p q : Slot}

/-! ## What a turn may change -/

/-- What a turn of the instance `s` may change: what is in it, and itself. New
elements are put into it or into each other. -/
structure Turn (s : Slot) (d d' : Diagram) : Prop where
  bound : d.bound ≤ d'.bound
  outside : ∀ j < d.bound, j ≠ s → ¬ d.Inside j s → d'.core? j = d.core? j
  parents : ∀ j < d.bound, ∀ p, d'.HasParent j p → d.HasParent j p
  fresh : ∀ j p, d.bound ≤ j → d'.HasParent j p → p = s ∨ d.bound ≤ p ∧ p < d'.bound

/-- After a turn nothing old is inside anything else than before. -/
theorem Turn.inside_old (h : Turn s d d') (hissued : d.Issued) (hj : j < d.bound)
    (hin : d'.Inside j q) : d.Inside j q := by
  induction hin using Relation.TransGen.head_induction_on with
  | single hp => exact .single (h.parents _ hj _ hp)
  | head hp _ ih =>
    have hp' := h.parents _ hj _ hp
    exact (ih (hissued _ _ hp')).head hp'

theorem Turn.issued (h : Turn s d d') (hissued : d.Issued) (hs : s < d.bound) : d'.Issued := by
  intro j p hp
  by_cases hj : j < d.bound
  · exact Nat.lt_of_lt_of_le (hissued j p (h.parents j hj p hp)) h.bound
  · rcases h.fresh j p (Nat.le_of_not_lt hj) hp with rfl | ⟨-, hp⟩
    · exact Nat.lt_of_lt_of_le hs h.bound
    · exact hp

theorem Turn.rooted (h : Turn s d d') (hrooted : d.Rooted) (hs : s < d.bound) : d'.Rooted :=
  fun p hp => hrooted p (h.parents root (Nat.zero_lt_of_lt hs) p hp)

/-- One part of a turn after the other, if the first one puts nothing old into `s`. -/
theorem Turn.trans_of_inside (h : Turn s d d₁) (h' : Turn s d₁ d')
    (hinside : ∀ j < d.bound, d₁.Inside j s → d.Inside j s) : Turn s d d' where
  bound := Nat.le_trans h.bound h'.bound
  outside := by
    intro j hj hne hout
    rw [h'.outside j (Nat.lt_of_lt_of_le hj h.bound) hne fun hin => hout (hinside j hj hin),
      h.outside j hj hne hout]
  parents := fun j hj p hp => h.parents j hj p (h'.parents j (Nat.lt_of_lt_of_le hj h.bound) p hp)
  fresh := by
    intro j p hj hp
    by_cases hj' : j < d₁.bound
    · refine (h.fresh j p hj (h'.parents j hj' p hp)).imp id fun hp => ⟨hp.1, ?_⟩
      exact Nat.lt_of_lt_of_le hp.2 h'.bound
    · refine (h'.fresh j p (Nat.le_of_not_lt hj') hp).imp id fun hp => ⟨?_, hp.2⟩
      exact Nat.le_trans h.bound hp.1

theorem Turn.trans (h : Turn s d d₁) (h' : Turn s d₁ d') (hissued : d.Issued) : Turn s d d' :=
  h.trans_of_inside h' fun _ hj => h.inside_old hissued hj

/-- A turn after which some more ends are changed. -/
theorem Turn.congr (h : Turn s d d₁) (hbound : d'.bound = d₁.bound)
    (hcore : ∀ j, d'.core? j = d₁.core? j) : Turn s d d' where
  bound := hbound ▸ h.bound
  outside := fun j hj hne hout => (hcore j).trans (h.outside j hj hne hout)
  parents := fun j hj p hp => h.parents j hj p (hp.congr (hcore j).symm)
  fresh := fun j p hj hp => hbound ▸ h.fresh j p hj (hp.congr (hcore j).symm)

/-- A turn that adds nothing and changes no parents, and only what is in the
instance or is the instance. -/
theorem Turn.of_within (hbound : d'.bound = d.bound)
    (houtside : ∀ j, j ≠ s → ¬ d.Inside j s → d'.core? j = d.core? j)
    (hparents : ∀ j x, d'.core? j = some x → ∃ y, d.core? j = some y ∧ x.parent = y.parent) :
    Turn s d d' where
  bound := Nat.le_of_eq hbound.symm
  outside := fun j _ => houtside j
  parents := by
    intro j _ p hp
    obtain ⟨x, hx, hp⟩ := Diagram.hasParent_iff_core?.mp hp
    obtain ⟨y, hy, heq⟩ := hparents j x hx
    exact Diagram.hasParent_iff_core?.mpr ⟨y, hy, heq ▸ hp⟩
  fresh := by
    rintro j p hj ⟨e, he, -⟩
    rw [Diagram.get?_of_bound_le (hbound ▸ hj)] at he
    cases he

/-- A turn that changes nothing but ends. -/
theorem Turn.of_core? (hbound : d'.bound = d.bound) (h : ∀ j, d'.core? j = d.core? j) :
    Turn s d d' :=
  .of_within hbound (fun j _ _ => h j) fun j x hx => ⟨x, h j ▸ hx, rfl⟩

/-! ## Other instances -/

/-- Nothing within an element changes, nor the element itself, but for ends. -/
structure SameWithin (t : Slot) (d d' : Diagram) : Prop where
  inside : ∀ j, d'.Inside j t ↔ d.Inside j t
  core : ∀ j, j = t ∨ d.Inside j t → d'.core? j = d.core? j

theorem SameWithin.refl (t : Slot) (d : Diagram) : SameWithin t d d :=
  ⟨fun _ => Iff.rfl, fun _ _ => rfl⟩

theorem SameWithin.trans (h : SameWithin t d d₁) (h' : SameWithin t d₁ d') : SameWithin t d d' where
  inside := fun j => (h'.inside j).trans (h.inside j)
  core := fun j hj => (h'.core j (hj.imp id (h.inside j).mpr)).trans (h.core j hj)

/-- Two elements none of which is in the other. -/
structure Apart (d : Diagram) (s t : Slot) : Prop where
  ne : t ≠ s
  left : ¬ d.Inside s t
  right : ¬ d.Inside t s

theorem Apart.not_inside (h : Apart d s t) (hin : d.Inside j t) : j ≠ s ∧ ¬ d.Inside j s := by
  constructor
  · rintro rfl
    exact h.left hin
  · intro hin'
    rcases hin.nested hin' with heq | hts | hst
    · exact h.ne heq
    · exact h.right hts
    · exact h.left hst

/-- **A turn changes nothing within another instance.** -/
theorem Turn.sameWithin (h : Turn s d d') (hissued : d.Issued) (hs : s < d.bound)
    (ht : t < d.bound) (hapart : Apart d s t) : SameWithin t d d' := by
  -- A new element leads to new ones or to `s`, and `s` does not lead to `t`.
  have hold : ∀ {j}, d'.Inside j t → j < d.bound := by
    intro j hin
    induction hin using Relation.TransGen.head_induction_on with
    | single hp =>
      by_contra hj
      rcases h.fresh _ t (Nat.le_of_not_lt hj) hp with heq | ⟨hle, -⟩
      · exact hapart.ne heq
      · exact Nat.not_lt.mpr hle ht
    | head hp hin ih =>
      by_contra hj
      rcases h.fresh _ _ (Nat.le_of_not_lt hj) hp with rfl | ⟨hle, -⟩
      · exact hapart.left (h.inside_old hissued hs hin)
      · exact Nat.not_lt.mpr hle ih
  have hkept : ∀ {j}, d.Inside j t → d'.core? j = d.core? j := by
    intro j hin
    obtain ⟨e, he⟩ := hin.live
    obtain ⟨hne, hout⟩ := hapart.not_inside hin
    exact h.outside j (Diagram.lt_bound_of_get? he) hne hout
  refine ⟨fun j => ⟨fun hin => h.inside_old hissued (hold hin) hin, fun hin => ?_⟩, ?_⟩
  · induction hin using Relation.TransGen.head_induction_on with
    | single hp => exact .single (hp.congr (hkept (.single hp)))
    | head hp hin ih => exact ih.head (hp.congr (hkept (hin.head hp)))
  · rintro j (rfl | hin)
    · exact h.outside j ht hapart.ne hapart.right
    · exact hkept hin

/-! ## The parts of a turn -/

open Classical in
/-- **Clearing an element removes all that is in it.** -/
theorem core?_clear (hrooted : d.Rooted) (hs : ¬ d.Inside s s) (j : Slot) :
    (clear s d).core? j = if d.Inside j s then none else d.core? j := by
  have hchild : ∀ {c}, c ∈ d.children s ↔ d.HasParent c s := by
    intro c
    rw [Diagram.mem_children]
    refine ⟨And.left, fun hp => ⟨hp, ?_⟩⟩
    rintro rfl
    exact hs (.single hp)
  have hbelow : d.Below (d.children s) j ↔ d.Inside j s := by
    constructor
    · rintro ⟨c, hc, rfl | hin⟩
      · exact .single (hchild.mp hc)
      · exact hin.tail (hchild.mp hc)
    · intro hin
      obtain ⟨c, hup, hp⟩ := Relation.TransGen.tail'_iff.mp hin
      refine ⟨c, hchild.mpr hp, ?_⟩
      rcases Relation.reflTransGen_iff_eq_or_transGen.mp hup with heq | hin
      · exact .inl heq.symm
      · exact .inr hin
  rw [clear, Diagram.core?_foldl_removeSubtree hrooted]
  · simp only [hbelow]
  · intro c hc
    have hp := hchild.mp hc
    obtain ⟨e, he, -⟩ := id hp
    refine ⟨?_, e, he⟩
    rintro rfl
    exact hrooted s hp

theorem bound_clear (s : Slot) (d : Diagram) : (clear s d).bound = d.bound := by
  rw [clear]
  generalize d.children s = children
  induction children generalizing d with
  | nil => rfl
  | cons c children ih => rw [List.foldl_cons, ih, Diagram.bound_removeSubtree]

/-- Clearing an element is a run of removals inside it, however the parents loop. -/
theorem clear_eq_foldl_remove (s : Slot) (d : Diagram) :
    ∃ slots : List Slot, clear s d = slots.foldl Diagram.remove d ∧
      ∀ j ∈ slots, d.Inside j s := by
  have hrun : ∀ (children : List Slot) (dk : Diagram),
      (∀ j x, dk.core? j = some x → d.core? j = some x) → (∀ c ∈ children, d.Inside c s) →
      ∃ slots : List Slot, children.foldl (fun d child => (d.removeSubtree child).2) dk =
        slots.foldl Diagram.remove dk ∧ ∀ j ∈ slots, d.Inside j s := by
    intro children
    induction children with
    | nil => exact fun dk _ _ => ⟨[], rfl, List.forall_mem_nil _⟩
    | cons c children ih =>
      intro dk hle hchildren
      obtain ⟨hc, hchildren⟩ := List.forall_mem_cons.mp hchildren
      obtain ⟨first, hfirst, hin⟩ : ∃ slots : List Slot,
          (dk.removeSubtree c).2 = slots.foldl Diagram.remove dk ∧ ∀ j ∈ slots, d.Inside j s := by
        rw [Diagram.removeSubtree]
        split
        · exact ⟨[], rfl, List.forall_mem_nil _⟩
        · rename_i e hremovable
          have he : dk.get? c = some e := by
            rw [Diagram.removable?] at hremovable
            split at hremovable
            · cases hremovable
            · exact hremovable
          refine ⟨_, rfl, fun j hj => ?_⟩
          rcases (Diagram.mem_subtree he).mp hj with rfl | hin
          · exact hc
          · exact (Diagram.inside_of_core?_le hle hin).trans hc
      obtain ⟨later, hlater, hin'⟩ := ih (first.foldl Diagram.remove dk)
        (fun j x hx => hle j x (Diagram.core?_of_foldl_remove hx)) hchildren
      refine ⟨first ++ later, ?_, fun j hj => (List.mem_append.mp hj).elim (hin j) (hin' j)⟩
      rw [List.foldl_cons, hfirst, hlater, List.foldl_append]
  exact hrun _ d (fun _ _ hx => hx) fun c hc => .single (Diagram.mem_children.mp hc).1

/-- Clearing an element leaves what is not in it, and nothing but what was there. -/
theorem core?_clear_of_not_inside (hout : ¬ d.Inside j s) : (clear s d).core? j = d.core? j := by
  obtain ⟨slots, hslots, hin⟩ := clear_eq_foldl_remove s d
  rw [hslots]
  exact (Diagram.core?_foldl_remove_cases slots d j).resolve_right fun hj => hout (hin j hj.1)

theorem core?_of_clear {x : Element} (h : (clear s d).core? j = some x) : d.core? j = some x := by
  obtain ⟨slots, hslots, -⟩ := clear_eq_foldl_remove s d
  rw [hslots] at h
  exact Diagram.core?_of_foldl_remove h

/-- **Clearing an element clears the ends at what is in it**, and no other ones. -/
theorem endAt_clear {e e' : Element} {isSource : Bool} {a : Slot} (hrooted : d.Rooted)
    (hs : ¬ d.Inside s s) (he : d.get? j = some e) (he' : (clear s d).get? j = some e') :
    e'.endAt isSource = some a ↔ e.endAt isSource = some a ∧ ¬ d.Inside a s := by
  classical
  have hcore := core?_clear hrooted hs a
  obtain ⟨slots, hslots, -⟩ := clear_eq_foldl_remove s d
  rw [hslots] at he' hcore
  rw [Diagram.endAt_foldl_remove he he', and_congr_right_iff]
  have hlive : ∀ d : Diagram, d.isLive a = true ↔ d.core? a ≠ none := by
    intro d
    rw [Diagram.isLive, ne_eq, Diagram.core?_eq_none, Option.isSome_iff_ne_none]
  intro _
  rw [hlive, hlive, hcore]
  by_cases hin : d.Inside a s
  · obtain ⟨x, hx⟩ := Diagram.Inside.live hin
    simp [hin, Diagram.core?_of_get? hx]
  · simp [hin]

theorem turn_clear (s : Slot) (d : Diagram) : Turn s d (clear s d) :=
  .of_within (bound_clear s d) (fun _ _ hout => core?_clear_of_not_inside hout)
    fun _ x hx => ⟨x, core?_of_clear hx, rfl⟩

/-- What is in an element that is cleared was in it before. -/
theorem inside_of_clear {c : Slot} (h : (clear s d).Inside j c) : d.Inside j c :=
  Diagram.inside_of_core?_le (fun _ _ hx => core?_of_clear hx) h

/-- Importing a drawing is a part of a turn. -/
theorem Imprint.turn {drawing : Diagram} {offset : Nat} {order : List Slot}
    {copies : List (Slot × Slot)} (h : Imprint drawing s offset order d d' copies) :
    Turn s d d' where
  bound := by
    rw [h.bound]
    exact Nat.le_add_right _ _
  outside := fun j hj _ _ => h.old j hj
  parents := fun j hj _ hp => hp.congr (h.old j hj).symm
  fresh := by
    intro j p hj hp
    obtain ⟨x, hx, hp⟩ := Diagram.hasParent_iff_core?.mp hp
    obtain ⟨o, hmem⟩ := h.exists_original hj hx
    obtain ⟨drawn, -, -, hmirrors⟩ := h.new o j x hmem hx
    rw [hmirrors.parent, Option.some.injEq, parentAmong] at hp
    cases hcopy : copyOf? copies drawn.parent with
    | none =>
      rw [hcopy] at hp
      exact .inl hp.symm
    | some c =>
      rw [hcopy] at hp
      obtain ⟨o', -, hmem'⟩ := copyOf?_eq_some hcopy
      cases hp
      exact .inr (h.le_of_mem hmem')

/-- Clearing an instance and importing a drawing into it. -/
theorem turn_import {drawing : Diagram} {offset : Nat} {order : List Slot}
    {copies : List (Slot × Slot)} (h : Imprint drawing s offset order (clear s d) d' copies) :
    Turn s d d' :=
  (turn_clear s d).trans_of_inside h.turn fun _ _ => inside_of_clear

theorem rebind_frame {interfaces : List Slot} {l : LooseEnd} {u : Unit}
    (h : Edit.Runs (rebind interfaces l) d u d') :
    d'.bound = d.bound ∧ ∀ j, d'.core? j = d.core? j := by
  rw [rebind, Edit.runs_read_bind] at h
  split at h
  · rename_i interface _
    rw [Edit.runs_update] at h
    subst h
    refine ⟨Diagram.bound_modify d _ _, fun j => ?_⟩
    have hattach : ∀ e, (l.attach interface e).core = e.core := by
      intro e
      rw [LooseEnd.attach]
      split <;> rfl
    rw [Diagram.core?_modify d _ _ fun e => by rw [hattach, hattach]; rfl]
    split
    · cases hcore : d.core? j with
      | none => rfl
      | some x =>
        obtain ⟨e, -, rfl⟩ := Diagram.core?_eq_some.mp hcore
        rw [Option.map_some, hattach]
        rfl
    · rfl
  · rw [Edit.runs_warn] at h
    subst h
    exact ⟨rfl, fun _ => rfl⟩

/-- Attaching connectors again changes nothing but ends. -/
theorem rebindAll_frame {ends : List LooseEnd} {u : Unit}
    (h : Edit.Runs (rebindAll s ends) d u d') :
    d'.bound = d.bound ∧ ∀ j, d'.core? j = d.core? j := by
  rw [rebindAll, Edit.runs_read_bind] at h
  rw [Edit.runs_bind] at h
  obtain ⟨_, d₁, hloop, h⟩ := h
  obtain ⟨-, rfl⟩ := Edit.runs_pure.mp h
  refine hloop.forEach_invariant (fun d' => d'.bound = d.bound ∧ ∀ j, d'.core? j = d.core? j)
    (fun l _ d₁ _ d₂ hd hstep => ?_) ⟨rfl, fun _ => rfl⟩
  obtain ⟨hbound, hcore⟩ := rebind_frame hstep
  exact ⟨hbound.trans hd.1, fun j => (hcore j).trans (hd.2 j)⟩

/-- Moving the numbers within an element is a part of its turn. -/
theorem turn_shiftAll {delta : Int} {slots : List Slot} (hnodup : slots.Nodup)
    (hslots : ∀ j ∈ slots, d.Inside j s) : Turn s d (shiftAll delta slots d) := by
  refine .of_within (bound_shiftAll delta slots d) (fun j _ hout => ?_) fun j x hx => ?_
  · rw [core?_shiftAll hnodup, if_neg fun hj => hout (hslots j hj)]
  · rw [core?_shiftAll hnodup] at hx
    split at hx
    · obtain ⟨y, hy, rfl⟩ := Option.map_eq_some_iff.mp hx
      exact ⟨y, hy, by rw [shift_eq]; rfl⟩
    · exact ⟨x, hx, rfl⟩

/-- Changing the fields of an instance is a part of its turn. -/
theorem turn_withPlace (s : Slot) (offset nodeCount : Nat) (d : Diagram) :
    Turn s d (d.modify s (withPlace offset nodeCount)) := by
  have hcore := fun j => Diagram.core?_modify (f := withPlace offset nodeCount) d s j fun e => rfl
  refine .of_within (Diagram.bound_modify d s _) (fun j hne _ => ?_) fun j x hx => ?_
  · rw [hcore, if_neg (Ne.symm hne)]
  · rw [hcore] at hx
    split at hx
    · obtain ⟨y, hy, rfl⟩ := Option.map_eq_some_iff.mp hx
      exact ⟨y, hy, rfl⟩
    · exact ⟨x, hx, rfl⟩

theorem mem_interfacesIn : i ∈ interfacesIn d s ↔
    i ∈ d.descendants s ∧ ∃ e, d.get? i = some e ∧ e.role.isInterface = true := by
  rw [interfacesIn, List.mem_filter, Option.any_eq_true]

theorem inside_of_mem_interfacesIn (h : i ∈ interfacesIn d s) : d.Inside i s :=
  (Diagram.mem_descendants.mp (mem_interfacesIn.mp h).1).2.2

/-- Marking duplicates within an element is a part of its turn. -/
theorem turn_markDuplicates {pairs : List (Slot × Slot)} (hpairs : ∀ p ∈ pairs, d.Inside p.1 s) :
    Turn s d (markDuplicates pairs d) := by
  refine .of_within (bound_markDuplicates pairs d) (fun j _ hout => ?_) fun j x hx => ?_
  · rcases core?_markDuplicates pairs d j with hsame | ⟨first, hfirst, -⟩
    · exact hsame
    · exact absurd (hpairs _ hfirst) hout
  · rcases core?_markDuplicates pairs d j with hsame | ⟨first, -, hmark⟩
    · exact ⟨x, hsame ▸ hx, rfl⟩
    · rw [hmark] at hx
      obtain ⟨y, hy, rfl⟩ := Option.map_eq_some_iff.mp hx
      exact ⟨y, hy, rfl⟩

/-- Marking the duplicates among the interfaces of an instance. -/
theorem turn_markInstance (s : Slot) (d : Diagram) :
    Turn s d (markDuplicates (duplicates d (interfacesIn d s)) d) :=
  turn_markDuplicates fun _ hp => inside_of_mem_interfacesIn (mem_duplicates hp).1

end Netlist.Assembly
