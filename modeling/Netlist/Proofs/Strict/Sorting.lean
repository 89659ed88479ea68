import Netlist.Proofs.Strict.Descendants

/-!
# Sorting the elements by containment

The check for loops puts all elements into an order, those inside an element after it, and
then looks for an element that comes before its parent. Here it is tied to the loops: such an
element is the lowest of a loop, and every loop has one.

The search for the order goes in rounds, one for each element in order that was not met
before. Where the parents of such an element lead back to it, it is the lowest of its loop,
because a lower one would have met it in an earlier round.

- `Lowest`: the lowest element of a loop; `isLowest_iff` finds it out by going round.
- `Round`: what one round keeps; `Round.visit` and `Round.close` are its two steps, and
  `finish_eq_ok` is the whole round.
- `Ordered`: what the order is good for; `finishAll_eq`: the search gives such an order, or it
  reports the first element that is its own parent.
- `checkOrder_eq`: the element reported for an order.
- `validate_eq`: **the check by sorting reports what the check of loops reports**, on every
  diagram.
-/

namespace Netlist.Strict

open Diagram (markAt news mem_news)

variable {d : Diagram} {i j m p r y : Slot} {marks : Array Bool} {s : Sorting}
  {seen stack pending order later earlier rest : List Slot}

/-! ## The lowest element of a loop -/

/-- An element of a loop with no lower one in it. -/
structure Lowest (d : Diagram) (m : Slot) : Prop where
  loop : d.Inside m m
  least : ∀ y, d.Inside m y → m ≤ y

/-- A loop has one lowest element, and no other lowest element leads into it. -/
theorem Lowest.unique (hi : Lowest d i) (hm : Lowest d m) (h : d.Inside i m) : i = m :=
  Nat.le_antisymm (hi.least m h) (hm.least i (hi.loop.returns h))

/-- The test for the lowest element of a loop: no element met on the way round is lower. -/
def isLowest (d : Diagram) (i : Slot) : Bool :=
  (d.loopThrough? i).any fun loop => loop.all (i ≤ ·)

/-- On the way up to `i`, the parent of each element comes next. -/
theorem mem_lap {count : Nat} (h : i ∈ d.ascend count j) :
    ∀ y, y = j ∨ y ∈ (d.ascend count j).takeWhile (· != i) → ∀ p, d.HasParent y p →
      p ∈ (d.ascend count j).takeWhile (· != i) ++ [i] := by
  induction count generalizing j with
  | zero => cases h
  | succ count ih =>
    rw [Diagram.ascend] at h ⊢
    split at h
    · rename_i q hq
      have hparent := Diagram.bind_parent_eq_some.mp hq
      split at h
      · rename_i hlive
        simp only [hlive, if_true]
        by_cases hqi : q = i
        · subst hqi
          rw [List.takeWhile_cons_of_neg (by simp)]
          rintro y (rfl | hy) p hp
          · rw [hp.unique hparent]
            exact List.mem_singleton_self q
          · cases hy
        · rw [List.takeWhile_cons_of_pos (by simpa using hqi)]
          have hlater := ih ((List.mem_cons.mp h).resolve_left (Ne.symm hqi))
          rintro y (rfl | hy) p hp
          · rw [hp.unique hparent]
            exact List.mem_cons_self
          · exact List.mem_cons_of_mem q (hlater y (List.mem_cons.mp hy) p hp)
      · cases h
    · cases h

/-- **The test finds the lowest element of a loop.** -/
theorem isLowest_iff : isLowest d i = true ↔ Lowest d i := by
  rw [isLowest, Option.any_eq_true]
  constructor
  · rintro ⟨loop, hloop, hall⟩
    have hself := Diagram.inside_of_loopThrough? hloop
    rw [Diagram.loopThrough?_of_inside hself, Option.some.injEq] at hloop
    subst hloop
    have hmem : i ∈ d.ascend d.bound i := by
      obtain ⟨n, hn, hlap⟩ := Diagram.exists_lap hself
      exact Diagram.mem_ascend hlap (Diagram.isLive_iff.mpr hself.live) hn
    refine ⟨hself, fun y hy => of_decide_eq_true (List.all_eq_true.mp hall y ?_)⟩
    induction hy with
    | single hp => exact mem_lap hmem i (.inl rfl) _ hp
    | tail _ hp ih =>
      rcases List.mem_append.mp ih with ih | ih
      · exact mem_lap hmem _ (.inr ih) _ hp
      · exact mem_lap hmem _ (.inl (List.mem_singleton.mp ih)) _ hp
  · intro h
    refine ⟨_, Diagram.loopThrough?_of_inside h.loop, List.all_eq_true.mpr fun y hy => ?_⟩
    rw [decide_eq_true_eq]
    rcases List.mem_append.mp hy with hy | hy
    · exact h.least y (Diagram.inside_of_mem_ascend (List.takeWhile_subset _ hy))
    · rw [List.mem_singleton.mp hy]

/-! ## Orders -/

/-- An order of elements, the last finished first: whatever is directly inside an element
comes after it, unless it is the lowest of a loop. Lowest elements come in falling order. -/
structure Ordered (d : Diagram) (order : List Slot) : Prop where
  nodup : order.Nodup
  live : ∀ i ∈ order, ∃ e, d.get? i = some e
  below : ∀ later i earlier, order = later ++ i :: earlier → ∀ j, d.HasParent j i →
    j ∈ earlier ∨ Lowest d j
  falling : order.Pairwise fun i j => Lowest d i → Lowest d j → j < i

theorem ordered_nil : Ordered d [] where
  nodup := List.nodup_nil
  live := fun _ hi => nomatch hi
  below := by
    intro later i earlier h
    cases later <;> cases h
  falling := .nil

theorem Ordered.cons (h : Ordered d order) (hnew : i ∉ order) (hi : ∃ e, d.get? i = some e)
    (hbelow : ∀ j, d.HasParent j i → j ∈ order ∨ Lowest d j)
    (hlast : Lowest d i → ∀ j ∈ order, Lowest d j → j < i) : Ordered d (i :: order) where
  nodup := List.nodup_cons.mpr ⟨hnew, h.nodup⟩
  live := List.forall_mem_cons.mpr ⟨hi, h.live⟩
  below := by
    intro later k earlier heq
    cases later with
    | nil =>
      cases heq
      exact hbelow
    | cons _ later =>
      cases heq
      exact h.below later k earlier rfl
  falling := List.pairwise_cons.mpr ⟨fun j hj hi => hlast hi j hj, h.falling⟩

/-- **Whatever is inside the lowest element of a loop comes after it.** -/
theorem Ordered.after_lowest (h : Ordered d (later ++ m :: earlier)) (hm : Lowest d m)
    (hin : d.Inside y m) (hne : y ≠ m) : y ∈ earlier := by
  have hnext : ∀ {k}, d.HasParent k m → k ≠ m → k ∈ earlier := fun hp hk =>
    (h.below later m earlier rfl _ hp).resolve_right fun hlow => hk (hlow.unique hm (.single hp))
  induction hin using Relation.TransGen.head_induction_on with
  | single hp => exact hnext hp hne
  | @head y b hp hin ih =>
    by_cases hb : b = m
    · exact hnext (hb ▸ hp) hne
    · obtain ⟨front, back, rfl⟩ := List.append_of_mem (ih hb)
      have hafter := h.below (later ++ m :: front) b back (by simp) y hp
      rcases hafter with hafter | hlow
      · exact List.mem_append_right _ (List.mem_cons_of_mem b hafter)
      · exact absurd (hlow.unique hm (hin.head hp)) hne

/-! ## A round -/

/-- A stack of slots in which, but for the first slot of a round, the parent of each slot
lies deeper. -/
def Chained (d : Diagram) (r : Slot) : List Slot → Prop
  | [] => True
  | i :: rest => (i = r ∨ ∃ p ∈ rest, d.HasParent i p) ∧ Chained d r rest

theorem Chained.parent (h : Chained d r stack) (hi : i ∈ stack) (hne : i ≠ r)
    (hp : d.HasParent i p) : p ∈ stack := by
  induction stack with
  | nil => cases hi
  | cons k rest ih =>
    rcases List.mem_cons.mp hi with rfl | hi
    · obtain ⟨q, hq, hparent⟩ := h.1.resolve_left hne
      exact List.mem_cons_of_mem _ (hparent.unique hp ▸ hq)
    · exact List.mem_cons_of_mem k (ih h.2 hi)

theorem Chained.append {new : List Slot} (h : Chained d r (i :: pending))
    (hnew : ∀ j ∈ new, d.HasParent j i) : Chained d r (new ++ i :: pending) := by
  induction new with
  | nil => exact h
  | cons j new ih =>
    obtain ⟨hj, hnew⟩ := List.forall_mem_cons.mp hnew
    exact ⟨.inr ⟨i, List.mem_append_right _ List.mem_cons_self, hj⟩, ih hnew⟩

/-- What a round keeps that starts from `r`. The slots in `seen` were met; the finished ones
are in the order, and the others are on the stack. -/
structure Round (d : Diagram) (r : Slot) (s : Sorting) (seen stack : List Slot) : Prop where
  met : Marked d s.met seen
  finished : Marked d s.finished s.order
  ordered : Ordered d s.order
  order_subset : ∀ i ∈ s.order, i ∈ seen
  held : ∀ i ∈ seen, i ∈ s.order ∨ i ∈ stack
  closed : ∀ i ∈ seen, ∀ j, d.HasParent j i → j ∈ seen ∨ j ∈ stack
  proper : ∀ i ∈ seen, ¬ d.HasParent i i
  bounded : ∀ i ∈ s.order, Lowest d i → i ≤ r
  nodup : stack.Nodup
  fresh : ∀ i ∈ stack, i ∉ s.order
  live : ∀ i ∈ stack, ∃ e, d.get? i = some e
  inside : ∀ i ∈ stack, i = r ∨ d.Inside i r
  chained : Chained d r stack
  begun : r ∈ seen ∨ stack = [r]

/-- A slot on the stack is not its own parent, if the first slot of the round is not. -/
theorem Round.not_own_parent (h : Round d r s seen (i :: pending)) (hr : ¬ d.HasParent r r) :
    ¬ d.HasParent i i := by
  intro hself
  by_cases hi : i = r
  · exact hr (hi ▸ hself)
  · obtain ⟨p, hp, hparent⟩ := h.chained.1.resolve_left hi
    exact (List.nodup_cons.mp h.nodup).1 (hparent.unique hself ▸ hp)

/-- A slot that is met for the first time stays on the stack, under what is inside it. -/
theorem Round.visit (h : Round d r s seen (i :: pending)) (hr : ¬ d.HasParent r r)
    (hnew : i ∉ seen) :
    Round d r { s with met := s.met.setIfInBounds i true } (i :: seen)
      (d.news i (i :: seen) ++ i :: pending) := by
  have hself := h.not_own_parent hr
  obtain ⟨hi, hpending⟩ := List.nodup_cons.mp h.nodup
  obtain ⟨e, he⟩ := h.live i List.mem_cons_self
  -- What is met anew is not on the stack: the parent of a slot there lies deeper than the slot.
  have hapart : ∀ j ∈ d.news i (i :: seen), j ∉ i :: pending := by
    intro j hj hmem
    obtain ⟨hp, hunseen⟩ := mem_news.mp hj
    rcases List.mem_cons.mp hmem with rfl | hmem
    · exact hself hp
    by_cases hjr : j = r
    · subst hjr
      rcases h.begun with hbegun | hbegun
      · exact hunseen (List.mem_cons_of_mem i hbegun)
      · cases hbegun
        cases hmem
    · exact hi (h.chained.2.parent hmem hjr hp)
  refine {
    met := h.met.cons (Diagram.lt_bound_of_get? he)
    finished := h.finished
    ordered := h.ordered
    order_subset := fun j hj => List.mem_cons_of_mem i (h.order_subset j hj)
    held := ?_
    closed := ?_
    proper := List.forall_mem_cons.mpr ⟨hself, h.proper⟩
    bounded := h.bounded
    nodup := ?_
    fresh := ?_
    live := ?_
    inside := ?_
    chained := h.chained.append fun j hj => (mem_news.mp hj).1
    begun := ?_ }
  · refine List.forall_mem_cons.mpr ⟨.inr (List.mem_append_right _ List.mem_cons_self), fun j hj => ?_⟩
    exact (h.held j hj).imp_right (List.mem_append_right _)
  · intro k hk j hj
    by_cases hmem : j ∈ i :: seen
    · exact .inl hmem
    refine .inr (List.mem_append.mpr ?_)
    rcases List.mem_cons.mp hk with rfl | hk
    · exact .inl (mem_news.mpr ⟨hj, hmem⟩)
    · exact .inr ((h.closed k hk j hj).resolve_left fun hseen => hmem (List.mem_cons_of_mem i hseen))
  · exact List.nodup_append'.mpr ⟨(Diagram.nodup_select d _).filter _, h.nodup, hapart⟩
  · intro j hj
    rcases List.mem_append.mp hj with hj | hj
    · exact fun hmem => (mem_news.mp hj).2 (List.mem_cons_of_mem i (h.order_subset j hmem))
    · exact h.fresh j hj
  · intro j hj
    rcases List.mem_append.mp hj with hj | hj
    · obtain ⟨⟨e, he, -⟩, -⟩ := mem_news.mp hj
      exact ⟨e, he⟩
    · exact h.live j hj
  · intro j hj
    rcases List.mem_append.mp hj with hj | hj
    · have hp := (mem_news.mp hj).1
      rcases h.inside i List.mem_cons_self with rfl | hin
      · exact .inr (.single hp)
      · exact .inr (hin.head hp)
    · exact h.inside j hj
  · rcases h.begun with hbegun | hbegun
    · exact .inl (List.mem_cons_of_mem i hbegun)
    · cases hbegun
      exact .inl List.mem_cons_self

/-- A slot that is met again is finished, and so is what is inside it. -/
theorem Round.close (h : Round d r s seen (i :: pending))
    (hfirst : ∀ y, d.Inside r y → d.Inside y r → r ≤ y) (hmet : i ∈ seen) :
    Round d r { s with finished := s.finished.setIfInBounds i true, order := i :: s.order } seen
      pending := by
  obtain ⟨hi, hpending⟩ := List.nodup_cons.mp h.nodup
  obtain ⟨e, he⟩ := h.live i List.mem_cons_self
  have hfresh := h.fresh i List.mem_cons_self
  have hinside := h.inside i List.mem_cons_self
  -- What is directly inside it and not finished would have to lie deeper on the stack,
  -- where only the first slot of the round has no parent under it.
  have hbelow : ∀ j, d.HasParent j i → j ∈ s.order ∨ Lowest d j := by
    intro j hp
    by_cases hj : j ∈ s.order
    · exact .inl hj
    have hstack : j ∈ i :: pending := by
      rcases h.closed i hmet j hp with hseen | hstack
      · exact (h.held j hseen).resolve_left hj
      · exact hstack
    have hji : j ≠ i := by
      rintro rfl
      exact h.proper j hmet hp
    have hmem := (List.mem_cons.mp hstack).resolve_left hji
    have hjr : j = r := by
      by_contra hne
      exact hi (h.chained.2.parent hmem hne hp)
    subst hjr
    have hloop : d.Inside j j := (hinside.resolve_left hji.symm).head hp
    exact .inr ⟨hloop, fun y hy => hfirst y hy (hloop.returns hy)⟩
  -- The only lowest element of the round is the one it started from.
  have hlow : Lowest d i → i = r := by
    intro hlow
    rcases hinside with heq | hin
    · exact heq
    · exact Nat.le_antisymm (hlow.least r hin) (hfirst i (hlow.loop.returns hin) hin)
  refine {
    met := h.met
    finished := h.finished.cons (Diagram.lt_bound_of_get? he)
    ordered := h.ordered.cons hfresh ⟨e, he⟩ hbelow fun hi j hj hjlow => ?_
    order_subset := List.forall_mem_cons.mpr ⟨hmet, h.order_subset⟩
    held := ?_
    closed := ?_
    proper := h.proper
    bounded := List.forall_mem_cons.mpr ⟨fun hi => Nat.le_of_eq (hlow hi), h.bounded⟩
    nodup := hpending
    fresh := ?_
    live := fun j hj => h.live j (List.mem_cons_of_mem i hj)
    inside := fun j hj => h.inside j (List.mem_cons_of_mem i hj)
    chained := h.chained.2
    begun := ?_ }
  · refine Nat.lt_of_le_of_ne ?_ (ne_of_mem_of_not_mem hj hfresh)
    rw [hlow hi]
    exact h.bounded j hj hjlow
  · intro j hj
    rcases h.held j hj with hj | hj
    · exact .inl (List.mem_cons_of_mem i hj)
    · rcases List.mem_cons.mp hj with rfl | hj
      · exact .inl List.mem_cons_self
      · exact .inr hj
  · intro k hk j hj
    rcases h.closed k hk j hj with hj | hj
    · exact .inl hj
    · rcases List.mem_cons.mp hj with rfl | hj
      · exact .inl hmet
      · exact .inr hj
  · intro j hj hmem
    rcases List.mem_cons.mp hmem with rfl | hmem
    · exact hi hj
    · exact h.fresh j (List.mem_cons_of_mem i hj) hmem
  · rcases h.begun with hbegun | hbegun
    · exact .inl hbegun
    · cases hbegun
      exact .inl hmet

theorem contains_below : (below d i).contains i = true ↔ d.HasParent i i := by
  rw [List.contains_iff_mem, below, Diagram.mem_select, Diagram.HasParent]
  simp only [beq_iff_eq]

theorem finish_of_not_mem (h : Marked d s.met seen) (hi : i < d.bound) (hnew : i ∉ seen)
    (hself : ¬ d.HasParent i i) :
    finish d s (i :: pending) = finish d { s with met := s.met.setIfInBounds i true }
      (d.news i (i :: seen) ++ i :: pending) := by
  have hmark := h.markAt hi
  rw [decide_eq_false hnew] at hmark
  rw [finish]
  split
  · rename_i hmark'
    cases hmark.symm.trans hmark'
  · rw [if_neg (mt contains_below.mp hself), (h.cons hi).unmarked_below]
    rfl
  · rename_i hmark'
    cases hmark.symm.trans hmark'

theorem finish_of_own_parent (h : Marked d s.met seen) (hi : i < d.bound) (hnew : i ∉ seen)
    (hself : d.HasParent i i) : finish d s (i :: pending) = d.cycleAt i := by
  have hmark := h.markAt hi
  rw [decide_eq_false hnew] at hmark
  rw [finish]
  split
  · rename_i hmark'
    cases hmark.symm.trans hmark'
  · rw [if_pos (contains_below.mpr hself)]
  · rename_i hmark'
    cases hmark.symm.trans hmark'

theorem finish_of_mem (h : Marked d s.met seen) (hfinished : Marked d s.finished s.order)
    (hi : i < d.bound) (hmet : i ∈ seen) (hfresh : i ∉ s.order) :
    finish d s (i :: pending) =
      finish d { s with finished := s.finished.setIfInBounds i true, order := i :: s.order } pending := by
  have hmark := h.markAt hi
  rw [decide_eq_true hmet] at hmark
  rw [finish]
  split
  · rename_i hmark'
    cases hmark.symm.trans hmark'
  · rename_i hmark'
    cases hmark.symm.trans hmark'
  · rw [hfinished.markAt hi, decide_eq_false hfresh]
    rfl

/-- **A round ends**, and leaves nothing on the stack. -/
theorem finish_eq_ok (h : Round d r s seen stack) (hr : ¬ d.HasParent r r)
    (hfirst : ∀ y, d.Inside r y → d.Inside y r → r ≤ y) :
    ∃ s' seen', finish d s stack = .ok s' ∧ Round d r s' seen' [] ∧ ∀ i ∈ s.order, i ∈ s'.order := by
  have hlt : ∀ {s : Sorting} {seen pending : List Slot} {i : Slot},
      Round d r s seen (i :: pending) → i < d.bound := fun h => by
    obtain ⟨e, he⟩ := h.live _ List.mem_cons_self
    exact Diagram.lt_bound_of_get? he
  induction s, stack using finish.induct d generalizing seen with
  | case1 s => exact ⟨s, seen, by rw [finish], h, fun _ hi => hi⟩
  | case2 s i pending fault hmark =>
    rw [h.met.markAt (hlt h)] at hmark
    cases hmark
  | case3 s i pending hmark hself =>
    exact absurd (contains_below.mp hself) (h.not_own_parent hr)
  | case4 s i pending hmark hself ih =>
    rw [h.met.markAt (hlt h), Except.ok.injEq, decide_eq_false_iff_not] at hmark
    obtain ⟨s', seen', hfinish, hround, hkeeps⟩ := ih (d.news i (i :: seen)) (h.visit hr hmark)
    refine ⟨s', seen', ?_, hround, hkeeps⟩
    rw [finish_of_not_mem h.met (hlt h) hmark (h.not_own_parent hr), hfinish]
  | case5 s i pending hmark _ ih =>
    rw [h.met.markAt (hlt h), Except.ok.injEq, decide_eq_true_eq] at hmark
    obtain ⟨s', seen', hfinish, hround, hkeeps⟩ := ih (h.close hfirst hmark)
    refine ⟨s', seen', ?_, hround, fun j hj => hkeeps j (List.mem_cons_of_mem i hj)⟩
    rw [finish_of_mem h.met h.finished (hlt h) hmark (h.fresh i List.mem_cons_self), hfinish]

/-! ## All rounds -/

/-- What is kept from round to round: whatever was met is finished. -/
structure Settled (d : Diagram) (s : Sorting) : Prop where
  met : Marked d s.met s.order
  finished : Marked d s.finished s.order
  ordered : Ordered d s.order
  closed : ∀ i ∈ s.order, ∀ j, d.HasParent j i → j ∈ s.order
  proper : ∀ i ∈ s.order, ¬ d.HasParent i i

theorem settled_nil (d : Diagram) :
    Settled d ⟨Array.replicate d.bound false, Array.replicate d.bound false, []⟩ :=
  ⟨marked_nil d, marked_nil d, ordered_nil, fun _ hi => (nomatch hi), fun _ hi => (nomatch hi)⟩

/-- A round begins. -/
theorem Settled.round (h : Settled d s) (hlive : ∃ e, d.get? r = some e) (hnew : r ∉ s.order)
    (hbounded : ∀ i ∈ s.order, Lowest d i → i < r) : Round d r s s.order [r] where
  met := h.met
  finished := h.finished
  ordered := h.ordered
  order_subset := fun _ hi => hi
  held := fun _ hi => .inl hi
  closed := fun i hi j hj => .inl (h.closed i hi j hj)
  proper := h.proper
  bounded := fun i hi hlow => Nat.le_of_lt (hbounded i hi hlow)
  nodup := List.nodup_singleton r
  fresh := List.forall_mem_singleton.mpr hnew
  live := List.forall_mem_singleton.mpr hlive
  inside := List.forall_mem_singleton.mpr (.inl rfl)
  chained := ⟨.inl rfl, trivial⟩
  begun := .inr rfl

/-- A round is over. -/
theorem Round.settled (h : Round d r s seen []) : Settled d s ∧ r ∈ s.order := by
  have hall : ∀ i ∈ seen, i ∈ s.order := fun i hi => (h.held i hi).resolve_right List.not_mem_nil
  refine ⟨⟨h.met.congr fun i => ⟨h.order_subset i, hall i⟩, h.finished, h.ordered, ?_, ?_⟩, ?_⟩
  · exact fun i hi j hj =>
      hall j ((h.closed i (h.order_subset i hi) j hj).resolve_right List.not_mem_nil)
  · exact fun i hi => h.proper i (h.order_subset i hi)
  · exact hall r (h.begun.resolve_right fun hnil => nomatch hnil)

/-- The test for an element that is its own parent. -/
def isOwnParent (d : Diagram) (i : Slot) : Bool := (d.get? i).any (·.parent == some i)

theorem isOwnParent_iff : isOwnParent d i = true ↔ d.HasParent i i := by
  rw [isOwnParent, Option.any_eq_true, Diagram.HasParent]
  simp only [beq_iff_eq]

/-- The element of a loop that is reported goes through what would be done next. -/
theorem cycleAt_bind {α β : Type} (hlive : ∃ e, d.get? i = some e) (f : α → Except Fault β) :
    (d.cycleAt i >>= f) = d.cycleAt i := by
  obtain ⟨e, he⟩ := hlive
  show ((d.fetch i >>= fun e => _) >>= f) = (d.fetch i >>= fun e => _)
  rw [Diagram.fetch_eq_ok.mpr he]
  rfl

/-- A lower element of a loop would have met an element that is not met yet. -/
theorem Settled.first (h : Settled d s) (hr : ∀ i ∈ rest, r < i)
    (hall : ∀ i, (∃ e, d.get? i = some e) → i ∈ s.order ∨ i ∈ r :: rest) (hnew : r ∉ s.order)
    (hy : d.Inside r y) (hback : d.Inside y r) : r ≤ y := by
  by_contra hlow
  have hdone : y ∈ s.order := by
    rcases hall y hback.live with hdone | hlater
    · exact hdone
    · rcases List.mem_cons.mp hlater with rfl | hlater
      · exact absurd (Nat.le_refl _) hlow
      · exact absurd (Nat.le_of_lt (hr y hlater)) hlow
  have hin : ∀ k, d.Inside k y → k ∈ s.order := by
    intro k hk
    induction hk using Relation.TransGen.head_induction_on with
    | single hp => exact h.closed y hdone _ hp
    | head hp _ ih => exact h.closed _ ih _ hp
  exact hnew (hin r hy)

/-- **The rounds give an order of all elements, or stop at the first that is its own
parent.** -/
theorem finishAll_eq (h : Settled d s) (hsorted : rest.Pairwise (· < ·))
    (hlive : ∀ i ∈ rest, ∃ e, d.get? i = some e)
    (hall : ∀ i, (∃ e, d.get? i = some e) → i ∈ s.order ∨ i ∈ rest)
    (hbounded : ∀ i ∈ s.order, Lowest d i → ∀ j ∈ rest, i < j) :
    (∃ i, rest.find? (isOwnParent d) = some i ∧ finishAll d s rest = d.cycleAt i) ∨
      rest.find? (isOwnParent d) = none ∧ ∃ s', finishAll d s rest = .ok s' ∧ Settled d s' ∧
        ∀ i, (∃ e, d.get? i = some e) → i ∈ s'.order := by
  induction rest generalizing s with
  | nil =>
    exact .inr ⟨rfl, s, rfl, h, fun i hi => (hall i hi).resolve_right List.not_mem_nil⟩
  | cons r rest ih =>
    obtain ⟨hr, hsorted⟩ := List.pairwise_cons.mp hsorted
    obtain ⟨⟨e, he⟩, hlive⟩ := List.forall_mem_cons.mp hlive
    have hlt := Diagram.lt_bound_of_get? he
    -- What was finished stays in the order, and the first slot gets there.
    have hkeep : ∀ {s' : Sorting}, (∀ i ∈ s.order, i ∈ s'.order) → r ∈ s'.order →
        ∀ i, (∃ e, d.get? i = some e) → i ∈ s'.order ∨ i ∈ rest := by
      intro s' hkeeps hrmem i hi
      rcases hall i hi with hi | hi
      · exact .inl (hkeeps i hi)
      · rcases List.mem_cons.mp hi with rfl | hi
        · exact .inl hrmem
        · exact .inr hi
    by_cases hmem : r ∈ s.order
    · -- It was met in an earlier round.
      have hnot : ¬ isOwnParent d r = true := mt isOwnParent_iff.mp (h.proper r hmem)
      have hskip : finishAll d s (r :: rest) = finishAll d s rest := by
        rw [finishAll, h.met.markAt hlt, decide_eq_true hmem]
        rfl
      rw [List.find?_cons_of_neg hnot, hskip]
      exact ih h hsorted hlive (hkeep (fun _ hi => hi) hmem) fun i hi hlow j hj =>
        hbounded i hi hlow j (List.mem_cons_of_mem r hj)
    have hround : finishAll d s (r :: rest) =
        (finish d s [r] >>= fun s => finishAll d s rest) := by
      rw [finishAll, h.met.markAt hlt, decide_eq_false hmem]
      rfl
    -- A slot that is its own parent is reported at once. Otherwise the round ends, and the slot is
    -- in the order.
    by_cases hself : d.HasParent r r
    · refine .inl ⟨r, List.find?_cons_of_pos (isOwnParent_iff.mpr hself), ?_⟩
      rw [hround, finish_of_own_parent h.met hlt hmem hself, cycleAt_bind ⟨e, he⟩]
    · have hnot : ¬ isOwnParent d r = true := mt isOwnParent_iff.mp hself
      have hbegin := h.round ⟨e, he⟩ hmem fun i hi hlow =>
        hbounded i hi hlow r List.mem_cons_self
      obtain ⟨s', seen', hfinish, hover, hkeeps⟩ :=
        finish_eq_ok hbegin hself fun y => h.first hr hall hmem
      obtain ⟨hsettled, hrmem⟩ := hover.settled
      rw [List.find?_cons_of_neg hnot, hround, hfinish]
      exact ih hsettled hsorted hlive (hkeep hkeeps hrmem) fun i hi hlow j hj =>
        Nat.lt_of_le_of_lt (hover.bounded i hi hlow) (hr j hj)

/-! ## Checking the order -/

/-- **The check of an order reports the parent of the first lowest element of a loop.** -/
theorem checkOrder_eq (h : Ordered d (later ++ rest))
    (hall : ∀ i, (∃ e, d.get? i = some e) → i ∈ later ++ rest)
    (hproper : ∀ i, ¬ d.HasParent i i) (hmarks : Marked d marks later)
    (hlater : ∀ i ∈ later, ¬ Lowest d i) :
    checkOrder d marks rest =
      match (rest.find? (isLowest d)).bind fun i => (d.get? i).bind Element.parent with
      | some p => d.cycleAt p
      | none => .ok () := by
  induction rest generalizing later marks with
  | nil => rfl
  | cons i rest ih =>
    have hsplit : later ++ i :: rest = (later ++ [i]) ++ rest := by simp
    obtain ⟨e, he⟩ := h.live i (List.mem_append_right _ List.mem_cons_self)
    have hlt := Diagram.lt_bound_of_get? he
    obtain ⟨-, hnodup, hapart⟩ := List.nodup_append'.mp h.nodup
    have hi : i ∉ later := fun hmem => hapart hmem List.mem_cons_self
    have hmarks' : Marked d (marks.setIfInBounds i true) (later ++ [i]) :=
      (hmarks.cons hlt).congr fun j => by rw [List.mem_append, List.mem_singleton, List.mem_cons, or_comm]
    rw [checkOrder, hmarks.markAt hlt, decide_eq_false hi, ok_bind, if_neg Bool.false_ne_true]
    dsimp only
    by_cases hlow : Lowest d i
    · obtain ⟨p, hp, hin⟩ := Relation.TransGen.head'_iff.mp hlow.loop
      have hback : d.Inside p i := hlow.loop.returns (.single hp)
      have hne : p ≠ i := by
        rintro rfl
        exact hproper p hp
      have hafter := h.after_lowest hlow hback hne
      have hnot : p ∉ later ++ [i] := by
        rw [List.mem_append, List.mem_singleton, not_or]
        exact ⟨fun hmem => hapart hmem (List.mem_cons_of_mem i hafter), hne⟩
      obtain ⟨x, hx⟩ := hback.live
      rw [List.find?_cons_of_pos (isLowest_iff.mpr hlow), Option.bind_some,
        Diagram.bind_parent_eq_some.mpr hp, Option.filter_some_pos (Diagram.isLive_iff.mpr ⟨x, hx⟩)]
      dsimp only
      rw [hmarks'.markAt (Diagram.lt_bound_of_get? hx), decide_eq_false hnot]
      rfl
    · have hlater' : ∀ j ∈ later ++ [i], ¬ Lowest d j := by
        intro j hj
        rcases List.mem_append.mp hj with hj | hj
        · exact hlater j hj
        · exact List.mem_singleton.mp hj ▸ hlow
      have hrest := ih (hsplit ▸ h) (hsplit ▸ hall) hmarks' hlater'
      rw [List.find?_cons_of_neg (mt isLowest_iff.mp hlow)]
      split
      · exact hrest
      · rename_i p hparent
        obtain ⟨hparent, hplive⟩ := Option.filter_eq_some_iff.mp hparent
        have hp := Diagram.bind_parent_eq_some.mp hparent
        obtain ⟨x, hx⟩ := Diagram.isLive_iff.mp hplive
        -- The parent came before, since only a lowest element may come before its parent.
        have hmem : p ∈ later := by
          rcases List.mem_append.mp (hall p ⟨x, hx⟩) with hmem | hmem
          · exact hmem
          exfalso
          rcases List.mem_cons.mp hmem with rfl | hmem
          · exact hproper p hp
          obtain ⟨front, back, rfl⟩ := List.append_of_mem hmem
          rcases h.below (later ++ i :: front) p back (by simp) i hp with hafter | hlow'
          · exact (List.nodup_cons.mp hnodup).1 (by simp [hafter])
          · exact hlow hlow'
        rw [hmarks'.markAt (Diagram.lt_bound_of_get? hx),
          decide_eq_true (List.mem_append_left [i] hmem)]
        exact hrest

/-- The first lowest element of an order is the highest of all. -/
theorem find?_isLowest (h : Ordered d order)
    (hall : ∀ i, (∃ e, d.get? i = some e) → i ∈ order) :
    order.find? (isLowest d) = ((d.select fun _ => true).filter (isLowest d)).getLast? := by
  have hsame : order.filter (isLowest d) =
      ((d.select fun _ => true).filter (isLowest d)).reverse := by
    refine List.Perm.eq_of_pairwise
      (fun a b _ _ (h : a ≥ b) (h' : b ≥ a) => Nat.le_antisymm h' h) ?_ ?_ ?_
    · refine (List.pairwise_filter.mpr (h.falling.imp fun hlt hi hj => ?_))
      exact Nat.le_of_lt (hlt (isLowest_iff.mp hi) (isLowest_iff.mp hj))
    · rw [List.pairwise_reverse]
      exact (List.pairwise_lt_range.filter _).filter _ |>.imp Nat.le_of_lt
    · refine ((List.perm_ext_iff_of_nodup (h.nodup.filter _)
        ((Diagram.nodup_select d _).filter _)).mpr fun i => ?_).trans (List.reverse_perm _).symm
      rw [List.mem_filter, List.mem_filter, Diagram.mem_select]
      refine and_congr_left fun _ => ⟨fun hi => ?_, fun ⟨e, he, _⟩ => hall i ⟨e, he⟩⟩
      obtain ⟨e, he⟩ := h.live i hi
      exact ⟨e, he, rfl⟩
  rw [← List.head?_filter, hsame, List.head?_reverse]

theorem loopWitness?_of_find?_eq_some
    (h : (d.select fun _ => true).find? (isOwnParent d) = some i) : d.loopWitness? = some i := by
  show (match (d.select fun _ => true).find? (isOwnParent d) with
    | some i => some i
    | none => _) = some i
  rw [h]

theorem loopWitness?_of_find?_eq_none
    (h : (d.select fun _ => true).find? (isOwnParent d) = none) :
    d.loopWitness? = ((d.select fun _ => true).filter (isLowest d)).getLast?.bind fun i =>
      (d.get? i).bind Element.parent := by
  show (match (d.select fun _ => true).find? (isOwnParent d) with
    | some i => some i
    | none => _) = _
  rw [h]
  rfl

/-- **The check by sorting reports what the check of loops reports.** -/
theorem validate_eq (d : Diagram) : validate d = d.validate := by
  have hlive : ∀ i ∈ d.select fun _ => true, ∃ e, d.get? i = some e := fun i hi => by
    obtain ⟨e, he, -⟩ := Diagram.mem_select.mp hi
    exact ⟨e, he⟩
  have hsorted : (d.select fun _ => true).Pairwise (· < ·) := List.pairwise_lt_range.filter _
  have hsort := finishAll_eq (settled_nil d) hsorted hlive
    (fun i ⟨e, he⟩ => .inr (Diagram.mem_select.mpr ⟨e, he, rfl⟩)) fun _ hi =>
      absurd hi List.not_mem_nil
  rw [validate, Diagram.validate]
  rcases hsort with ⟨i, hfound, hsort⟩ | ⟨hnone, s, hs, hsettled, hall⟩
  · obtain ⟨e, he, -⟩ := Diagram.mem_select.mp (List.mem_of_find?_eq_some hfound)
    rw [loopWitness?_of_find?_eq_some hfound]
    dsimp only
    rw [hsort, cycleAt_bind ⟨e, he⟩]
  · have hordered : Ordered d ([] ++ s.order) := hsettled.ordered
    have hcheck := checkOrder_eq hordered hall
      (fun i hp => hsettled.proper i (hall i ⟨_, hp.choose_spec.1⟩) hp) (marked_nil d)
      fun _ hi => absurd hi List.not_mem_nil
    rw [loopWitness?_of_find?_eq_none hnone, ← find?_isLowest hsettled.ordered hall, hs]
    exact hcheck

end Netlist.Strict
