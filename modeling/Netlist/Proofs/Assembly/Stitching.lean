import Netlist.Proofs.Assembly.Placing

/-!
# What stitching reads and draws

Stitching first throws away the super-ports of an earlier stitching and then
draws new ones, connector by connector. New super-ports are in nobody's way:
whatever is read for a connector is the same when it is read at the end.

- `discard_core?`: discarding removes super-ports and nothing else.
- `Draws`: a diagram with new super-ports, and what they do not change.
- `stitchAll_runs`: **every connector that joins two interfaces was bound, and
  the super-ports it was bound with are among the result.**
-/

namespace Netlist.Assembly

open Diagram (root)

variable {d d₁ d₂ d' : Diagram} {a b c i j : Slot} {naming : Naming} {placements : Placements}
  {ports ports' : List SuperPort}

/-! ## Discarding -/

theorem discard_snd (old : List Slot) (d : Diagram) :
    (discard old d).2 = old.foldl Diagram.remove d := by
  induction old generalizing d with
  | nil => rfl
  | cons port old ih => exact ih (d.remove port)

/-- What is left of a diagram without its super-ports. -/
structure Discards (d d' : Diagram) : Prop where
  bound : d'.bound = d.bound
  left : ∀ j x, d'.core? j = some x → d.core? j = some x
  kept : ∀ j x, d.core? j = some x → x.role.isSuperPort = false → d'.core? j = some x

/-- **Discarding removes super-ports and nothing else.** -/
theorem discard_core? (d : Diagram) :
    Discards d (discard (d.select fun e => e.role.isSuperPort) d).2 := by
  let old := (d.select fun e => e.role.isSuperPort).filter (· != root)
  have hold : (discard (d.select fun e => e.role.isSuperPort) d).2 = old.foldl Diagram.remove d := by
    rw [discard_snd, Diagram.foldl_remove_filter]
  have hmem : ∀ j ∈ old, j ≠ root ∧ ∃ e, d.get? j = some e ∧ e.role.isSuperPort = true := by
    intro j hj
    rw [List.mem_filter, Diagram.mem_select] at hj
    exact ⟨by simpa using hj.2, hj.1⟩
  have hcore : ∀ j, (old.foldl Diagram.remove d).core? j = if j ∈ old then none else d.core? j := by
    refine Diagram.core?_foldl_remove ((Diagram.nodup_select d _).filter _) fun j hj => ?_
    obtain ⟨hroot, e, he, -⟩ := hmem j hj
    exact ⟨hroot, by rw [he]; rfl⟩
  rw [hold]
  refine ⟨Diagram.bound_foldl_remove d old, fun j x hx => ?_, fun j x hx hport => ?_⟩
  · rw [hcore] at hx
    split at hx
    · cases hx
    · exact hx
  · rw [hcore, if_neg, hx]
    intro hj
    obtain ⟨-, e, he, hrole⟩ := hmem j hj
    rw [Diagram.core?_of_get? he] at hx
    cases hx
    rw [show e.core.role = e.role from rfl, hrole] at hport
    cases hport

theorem Discards.inside (h : Discards d d') (hin : d'.Inside i j) : d.Inside i j :=
  Diagram.inside_of_core?_le h.left hin

theorem Discards.issued (h : Discards d d') (hissued : d.Issued) : d'.Issued := by
  intro i p hp
  obtain ⟨x, hx, hparent⟩ := Diagram.hasParent_iff_core?.mp hp
  rw [h.bound]
  exact hissued i p (Diagram.hasParent_iff_core?.mpr ⟨x, h.left i x hx, hparent⟩)

/-! ## Drawing -/

/-- A diagram with new super-ports at elements that were there. -/
structure Draws (d d' : Diagram) : Prop where
  grows : d.Extends d'
  new : ∀ j e, d.bound ≤ j → d'.get? j = some e → e.role.isSuperPort = true ∧
    ∃ p, e.parent = some p ∧ p < d'.bound

theorem Draws.refl (d : Diagram) : Draws d d :=
  ⟨⟨Nat.le_refl _, fun _ _ => rfl⟩, fun j e hj he => by
    rw [Diagram.get?_of_bound_le hj] at he
    cases he⟩

theorem Draws.trans (h : Draws d d₁) (h' : Draws d₁ d') : Draws d d' where
  grows := ⟨Nat.le_trans h.grows.bound h'.grows.bound, fun j hj => by
    rw [h'.grows.same j (Nat.lt_of_lt_of_le hj h.grows.bound), h.grows.same j hj]⟩
  new := by
    intro j e hj he
    by_cases hj' : j < d₁.bound
    · rw [h'.grows.same j hj'] at he
      obtain ⟨hrole, p, hp, hlt⟩ := h.new j e hj he
      exact ⟨hrole, p, hp, Nat.lt_of_lt_of_le hlt h'.grows.bound⟩
    · exact h'.new j e (Nat.le_of_not_lt hj') he

theorem Draws.issued (h : Draws d d') (hissued : d.Issued) : d'.Issued := by
  rintro j p ⟨e, he, hp⟩
  by_cases hj : j < d.bound
  · rw [h.grows.same j hj] at he
    exact Nat.lt_of_lt_of_le (hissued j p ⟨e, he, hp⟩) h.grows.bound
  · obtain ⟨-, q, hq, hlt⟩ := h.new j e (Nat.le_of_not_lt hj) he
    rw [hp, Option.some.injEq] at hq
    exact hq ▸ hlt

/-- Whatever is no super-port was there before. -/
theorem Draws.old (h : Draws d d') {e : Element} (he : d'.get? j = some e)
    (hrole : e.role.isSuperPort = false) : j < d.bound ∧ d.get? j = some e := by
  by_cases hj : j < d.bound
  · exact ⟨hj, h.grows.same j hj ▸ he⟩
  · rw [(h.new j e (Nat.le_of_not_lt hj) he).1] at hrole
    cases hrole

theorem Draws.of_get? (h : Draws d d') {e : Element} (he : d.get? j = some e) :
    d'.get? j = some e := by
  rw [h.grows.same j (Diagram.lt_bound_of_get? he), he]

/-- What was inside something old is so still, and nothing old is inside anything else. -/
theorem Draws.inside_old (h : Draws d d') (hissued : d.Issued) (hi : i < d.bound) :
    d'.Inside i j ↔ d.Inside i j := by
  constructor
  · intro hin
    induction hin using Relation.TransGen.head_induction_on with
    | single hp =>
      obtain ⟨e, he, hp⟩ := hp
      exact .single ⟨e, h.grows.same _ hi ▸ he, hp⟩
    | head hp _ ih =>
      obtain ⟨e, he, hp⟩ := hp
      have hp' : d.HasParent _ _ := ⟨e, h.grows.same _ hi ▸ he, hp⟩
      exact (ih (hissued _ _ hp')).head hp'
  · refine Relation.TransGen.mono (fun a b hab => ?_) i j
    obtain ⟨e, he, hp⟩ := hab
    exact ⟨e, h.of_get? he, hp⟩

/-! ## What is read for a connector -/

theorem Draws.isInterface (h : Draws d d') (a : Slot) : isInterface d' a = isInterface d a := by
  rw [Assembly.isInterface, Assembly.isInterface]
  by_cases ha : a < d.bound
  · rw [h.grows.same a ha]
  · rw [Diagram.get?_of_bound_le (Nat.le_of_not_lt ha)]
    cases he : d'.get? a with
    | none => rfl
    | some e =>
      have hrole := (h.new a e (Nat.le_of_not_lt ha) he).1
      rw [Option.any_some, Option.any_none, Role.isInterface_of_isSuperPort hrole]

/-- The interfaces that a connector joins are not changed by new super-ports. -/
theorem Draws.joined? (h : Draws d d') (hc : c < d.bound) :
    Assembly.joined? d' c = Assembly.joined? d c := by
  simp only [Assembly.joined?, h.grows.same c hc, h.isInterface]

/-- What is read off a node inside an interface. -/
def nodeAt (i : Slot) (e : Element) : Option (Slot × Element) :=
  if e.nodeKind?.isSome then some (i, e) else none

theorem nodesOf_eq (d : Diagram) (interface : Slot) :
    nodesOf d interface = (d.children interface).filterMap fun i => (d.get? i).bind (nodeAt i) := by
  rw [nodesOf]
  refine List.filterMap_congr fun i _ => ?_
  cases d.get? i with
  | none => rfl
  | some e =>
    rw [Option.bind_some, nodeAt, Option.filter_some]
    split <;> rfl

theorem mem_nodesOf {interface : Slot} {n : Slot × Element} : n ∈ nodesOf d interface ↔
    d.get? n.1 = some n.2 ∧ n.2.parent = some interface ∧ n.1 ≠ interface ∧
      n.2.nodeKind?.isSome = true := by
  obtain ⟨i, e⟩ := n
  rw [nodesOf_eq, List.mem_filterMap]
  constructor
  · rintro ⟨k, hk, hnode⟩
    obtain ⟨⟨e', he', hp⟩, hne⟩ := Diagram.mem_children.mp hk
    rw [he', Option.bind_some, nodeAt] at hnode
    split at hnode
    · rename_i hkind
      cases hnode
      exact ⟨he', hp, hne, hkind⟩
    · cases hnode
  · rintro ⟨he, hp, hne, hkind⟩
    refine ⟨i, Diagram.mem_children.mpr ⟨⟨e, he, hp⟩, hne⟩, ?_⟩
    rw [he, Option.bind_some, nodeAt, if_pos hkind]

theorem Draws.nodesOf (h : Draws d d') (interface : Slot) :
    Assembly.nodesOf d' interface = Assembly.nodesOf d interface := by
  rw [nodesOf_eq, nodesOf_eq]
  refine Diagram.filterMap_children_congr fun i => ?_
  rw [Diagram.pick, Diagram.pick]
  by_cases hi : i < d.bound
  · rw [h.grows.same i hi]
  · rw [Diagram.get?_of_bound_le (Nat.le_of_not_lt hi)]
    cases he : d'.get? i with
    | none => rfl
    | some e =>
      have hrole := (h.new i e (Nat.le_of_not_lt hi) he).1
      have hkind : e.nodeKind? = none := Role.nodeKind?_of_isSuperPort hrole
      rw [Option.bind_some, Option.bind_none, nodeAt, hkind]
      exact ite_self none

/-- The parts of a side. -/
theorem side_eq_ok {s : Side} : side d a = .ok s ↔
    s.interface = canonical d a ∧ s.nodes = nodesOf d (canonical d a) ∧
      d.nearestAncestor (canonical d a) (fun _ e => e.role.isSubNetwork) = .ok (some s.subnet) := by
  rw [side, bind_eq_ok]
  constructor
  · rintro ⟨o, hnear, h⟩
    cases o with
    | none =>
      dsimp only at h
      rw [bind_eq_ok] at h
      obtain ⟨e, -, h⟩ := h
      cases h
    | some subnet =>
      cases h
      exact ⟨rfl, rfl, hnear⟩
  · rintro ⟨hinterface, hnodes, hnear⟩
    refine ⟨_, hnear, ?_⟩
    obtain ⟨interface, subnet, nodes⟩ := s
    cases hinterface
    cases hnodes
    rfl

/-- **A side is the same at the end**, if the same interface stands for it. -/
theorem Draws.side (h : Draws d d') (hissued : d.Issued) {s : Side}
    (hcanonical : canonical d' a = canonical d a) (hlt : canonical d a < d.bound)
    (hside : Assembly.side d a = .ok s) : Assembly.side d' a = .ok s := by
  rw [side_eq_ok] at hside ⊢
  obtain ⟨hinterface, hnodes, hnear⟩ := hside
  rw [hcanonical, h.nodesOf]
  exact ⟨hinterface, hnodes, Diagram.nearestAncestor_of_extends h.grows hissued hlt hnear⟩

theorem Draws.record? (h : Draws d d') {s : Side} (hlt : s.interface < d.bound) :
    s.record? d' = s.record? d := by
  rw [Side.record?, Side.record?, h.grows.same s.interface hlt]

theorem Draws.superPortsOf (h : Draws d d') {own other : Side} (hlt : own.interface < d.bound) :
    Assembly.superPortsOf d' placements own other = Assembly.superPortsOf d placements own other := by
  rw [Assembly.superPortsOf, Assembly.superPortsOf, h.record? hlt]

/-! ## Drawing all super-ports -/

theorem drawSuperPort_runs {p : SuperPort} {u : Unit}
    (h : Edit.Runs (drawSuperPort naming c p) d u d') : Draws d d' := by
  rw [drawSuperPort] at h
  obtain ⟨e, hfetch, h⟩ := Edit.runs_check_bind.mp h
  have hc := Diagram.lt_bound_of_get? (Diagram.fetch_eq_ok.mp hfetch)
  rw [Edit.runs_read_bind] at h
  rw [Edit.runs_bind] at h
  obtain ⟨slot, d₁, hchange, h⟩ := h
  obtain ⟨-, rfl⟩ := Edit.runs_pure.mp h
  rw [Edit.runs_change, mapError_eq_ok] at hchange
  obtain ⟨rfl, hbound⟩ := Diagram.slot_insert hchange
  have hget := Diagram.get?_insert hchange
  refine ⟨⟨by rw [hbound]; exact Nat.le_succ _, fun j hj => ?_⟩, fun j e hj he => ?_⟩
  · rw [hget, if_neg (Nat.ne_of_lt hj)]
  · have hlt := Diagram.lt_bound_of_get? he
    have hj' : j = d.bound := by
      rw [hbound] at hlt
      exact Nat.le_antisymm (Nat.le_of_lt_succ hlt) hj
    subst hj'
    rw [hget, if_pos rfl] at he
    cases he
    exact ⟨rfl, c, rfl, by rw [hbound]; exact Nat.lt_succ_of_lt hc⟩

/-- All super-ports that are found get into the list. -/
theorem drawNew_runs {found : List SuperPort}
    (h : Edit.Runs (drawNew naming c ports found) d ports' d') :
    Draws d d' ∧ ∀ p, p ∈ ports' ↔ p ∈ ports ∨ p ∈ found := by
  induction found generalizing d ports with
  | nil =>
    rw [drawNew] at h
    obtain ⟨rfl, rfl⟩ := Edit.runs_pure.mp h
    exact ⟨.refl d, fun p => by simp⟩
  | cons q found ih =>
    rw [drawNew] at h
    split at h
    · rename_i hq
      rw [List.contains_iff_mem] at hq
      obtain ⟨hdraws, hmem⟩ := ih h
      refine ⟨hdraws, fun p => ?_⟩
      rw [hmem, List.mem_cons]
      constructor
      · exact Or.imp id .inr
      · rintro (hp | rfl | hp)
        · exact .inl hp
        · exact .inl hq
        · exact .inr hp
    · rw [Edit.runs_bind] at h
      obtain ⟨_, d₁, hdraw, h⟩ := h
      obtain ⟨hdraws, hmem⟩ := ih h
      refine ⟨(drawSuperPort_runs hdraw).trans hdraws, fun p => ?_⟩
      rw [hmem, List.mem_append, List.mem_singleton, List.mem_cons, or_assoc]

/-- **Every connector that joins two interfaces was bound**, at a time when some of
the super-ports were drawn, and what was found for it is among the result. -/
theorem stitchAll_runs {connectors : List Slot}
    (h : Edit.Runs (stitchAll naming placements ports connectors) d ports' d') :
    Draws d d' ∧ (∀ p ∈ ports, p ∈ ports') ∧
      ∀ c ∈ connectors, c < d.bound → ∀ a b, Assembly.joined? d c = some (a, b) →
        ∃ dk found, Draws d dk ∧ Draws dk d' ∧ bindSides dk placements c a b = .ok found ∧
          ∀ p ∈ found, p ∈ ports' := by
  induction connectors generalizing d ports with
  | nil =>
    rw [stitchAll] at h
    obtain ⟨rfl, rfl⟩ := Edit.runs_pure.mp h
    exact ⟨.refl d, fun _ hp => hp, fun _ hmem => nomatch hmem⟩
  | cons q connectors ih =>
    rw [stitchAll, Edit.runs_bind] at h
    obtain ⟨o, _, hread, h⟩ := h
    obtain ⟨hjoined, rfl⟩ := Edit.runs_read.mp hread
    cases o with
    | none =>
      dsimp only at h
      obtain ⟨e, -, h⟩ := Edit.runs_check_bind.mp h
      rw [Edit.runs_bind] at h
      obtain ⟨_, _, hwarn, h⟩ := h
      rw [← Edit.runs_warn.mp hwarn] at h
      obtain ⟨hdraws, hports, hall⟩ := ih h
      refine ⟨hdraws, hports, List.forall_mem_cons.mpr ⟨fun _ a b hab => ?_, hall⟩⟩
      rw [hjoined] at hab
      cases hab
    | some pair =>
      obtain ⟨a, b⟩ := pair
      dsimp only at h
      obtain ⟨found, hbind, h⟩ := Edit.runs_check_bind.mp h
      rw [Edit.runs_bind] at h
      obtain ⟨ports₁, d₁, hdraw, h⟩ := h
      obtain ⟨hdraws₁, hmem₁⟩ := drawNew_runs hdraw
      obtain ⟨hdraws, hports, hall⟩ := ih h
      refine ⟨hdraws₁.trans hdraws, fun p hp => hports p ((hmem₁ p).mpr (.inl hp)),
        List.forall_mem_cons.mpr ⟨fun _ a' b' hab => ?_, fun c hc hlt a' b' hab => ?_⟩⟩
      · rw [hjoined] at hab
        cases hab
        exact ⟨d, found, .refl d, hdraws₁.trans hdraws, hbind,
          fun p hp => hports p ((hmem₁ p).mpr (.inr hp))⟩
      · rw [← hdraws₁.joined? hlt] at hab
        obtain ⟨dk, found', hk, hk', hbind', hfound⟩ :=
          hall c hc (Nat.lt_of_lt_of_le hlt hdraws₁.grows.bound) a' b' hab
        exact ⟨dk, found', hdraws₁.trans hk, hk', hbind', hfound⟩

end Netlist.Assembly
