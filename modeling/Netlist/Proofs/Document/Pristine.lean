import Netlist.Document
import Netlist.Proofs.Diagram.Subtree

/-!
# Diagrams as they are read

A diagram that was read from a document and not worked on yet has some order:
its root is in nothing, every parent is a slot of it, and no interface is marked
as a duplicate, since marks are made by assembly alone.

- `Diagram.Pristine`: this order, which can be checked slot by slot.
- `Diagram.Anchored`: the ends of elements are slots of it, too.
- `Document.read_pristine`, `Document.read_anchored`: **whatever is read from a document
  has both.**
-/

namespace Netlist

namespace Role

/-- A role that is marked as no duplicate. -/
def IsUnmarked (r : Role) : Prop := ∀ payload, r = .interface payload → payload.duplicateOf = none

instance (r : Role) : Decidable r.IsUnmarked :=
  match r with
  | .interface payload => decidable_of_iff (payload.duplicateOf = none)
      ⟨fun h _ heq => by cases heq; exact h, fun h => h payload rfl⟩
  | .root | .node _ | .link _ | .port | .spotter _ | .network _ | .connector | .superPort _ |
    .plain => .isTrue nofun

theorem isUnmarked_of_not_interface {r : Role} (h : r.isInterface = false) : r.IsUnmarked := by
  rintro payload rfl
  cases h

end Role

namespace Diagram

variable {d d' : Diagram} {i : Slot}

/-- A diagram as it is read. -/
structure Pristine (d : Diagram) : Prop where
  rooted : d.Rooted
  issued : d.Issued
  unmarked : ∀ i e, d.get? i = some e → e.role.IsUnmarked

/-- A diagram is as it is read if the element in every slot is. -/
theorem pristine_iff : d.Pristine ↔ ∀ i < d.bound, ∀ e ∈ d.get? i,
    (i = root → e.parent = none) ∧ (∀ p ∈ e.parent, p < d.bound) ∧ e.role.IsUnmarked := by
  constructor
  · intro h i _ e he
    refine ⟨?_, fun p hp => h.issued i p ⟨e, he, hp⟩, h.unmarked i e he⟩
    rintro rfl
    rw [Option.eq_none_iff_forall_ne_some]
    exact fun p hp => h.rooted p ⟨e, he, hp⟩
  · intro h
    refine ⟨?_, ?_, fun i e he => (h i (lt_bound_of_get? he) e he).2.2⟩
    · rintro p ⟨e, he, hp⟩
      rw [(h root (lt_bound_of_get? he) e he).1 rfl] at hp
      cases hp
    · rintro i p ⟨e, he, hp⟩
      exact (h i (lt_bound_of_get? he) e he).2.1 p hp

instance (d : Diagram) : Decidable d.Pristine := decidable_of_iff' _ pristine_iff

/-- The parent of an element that gets a new one, or keeps its old one. -/
theorem hasParent_modify {f : Element → Element} {j p : Slot}
    (h : (d.modify i f).HasParent j p) :
    (i = j ∧ ∃ e, d.get? i = some e ∧ (f e).parent = some p) ∨ d.HasParent j p := by
  obtain ⟨e, he, hp⟩ := h
  rw [get?_modify] at he
  split at he
  · rename_i hij
    subst hij
    obtain ⟨e', he', rfl⟩ := Option.map_eq_some_iff.mp he
    exact .inl ⟨rfl, e', he', hp⟩
  · exact .inr ⟨e, he, hp⟩

/-- Changing the parent and the ends of an element other than the root. -/
theorem Pristine.modify {f : Element → Element} (h : d.Pristine) (hi : i ≠ root)
    (hrole : ∀ e, (f e).role = e.role)
    (hparent : ∀ e p, d.get? i = some e → (f e).parent = some p → p < d.bound) :
    (d.modify i f).Pristine where
  rooted := by
    intro p hp
    rcases hasParent_modify hp with ⟨heq, -⟩ | hp
    · exact hi heq
    · exact h.rooted p hp
  issued := by
    intro j p hp
    rw [bound_modify]
    rcases hasParent_modify hp with ⟨-, e, he, hp⟩ | hp
    · exact hparent e p he hp
    · exact h.issued j p hp
  unmarked := by
    intro j e he
    rw [get?_modify] at he
    split at he
    · obtain ⟨e', he', rfl⟩ := Option.map_eq_some_iff.mp he
      rw [hrole]
      exact h.unmarked j e' he'
    · exact h.unmarked j e he

/-- A new element under the root. -/
theorem Pristine.insert {e : Element} (h : d.Pristine) (hbound : 0 < d.bound)
    (hparent : e.parent = none) (hrole : e.role.IsUnmarked) (hinsert : d.insert e = .ok (i, d')) :
    d'.Pristine := by
  obtain ⟨rfl, hbound'⟩ := slot_insert hinsert
  have hget := get?_insert hinsert
  have hroot : root ≠ d.bound := Nat.ne_of_lt hbound
  refine ⟨?_, ?_, ?_⟩
  · rintro p ⟨e', he', hp⟩
    rw [hget, if_neg hroot] at he'
    exact h.rooted p ⟨e', he', hp⟩
  · rintro j p ⟨e', he', hp⟩
    rw [hget] at he'
    split at he'
    · cases he'
      rw [hparent] at hp
      cases hp
      exact Nat.lt_of_lt_of_eq (Nat.lt_succ_of_lt hbound) hbound'.symm
    · exact Nat.lt_of_lt_of_eq (Nat.lt_succ_of_lt (h.issued j p ⟨e', he', hp⟩)) hbound'.symm
  · intro j e' he'
    rw [hget] at he'
    split at he'
    · cases he'
      exact hrole
    · exact h.unmarked j e' he'

theorem pristine_empty : empty.Pristine := by
  have hget : ∀ i e, empty.get? i = some e → e.parent = none ∧ e.role = .root := by
    intro i e he
    cases i with
    | zero =>
      cases he
      exact ⟨rfl, rfl⟩
    | succ i => cases he
  refine ⟨?_, ?_, ?_⟩
  · rintro p ⟨e, he, hp⟩
    rw [(hget _ e he).1] at hp
    cases hp
  · rintro i p ⟨e, he, hp⟩
    rw [(hget i e he).1] at hp
    cases hp
  · intro i e he
    rw [(hget i e he).2]
    exact Role.isUnmarked_of_not_interface rfl

/-- Every end is at a slot that was issued. -/
def Anchored (d : Diagram) : Prop :=
  ∀ i e isSource a, d.get? i = some e → e.endAt isSource = some a → a < d.bound

theorem anchored_iff : d.Anchored ↔ ∀ i < d.bound, ∀ e ∈ d.get? i,
    (∀ a ∈ e.source, a < d.bound) ∧ ∀ a ∈ e.target, a < d.bound := by
  constructor
  · exact fun h i _ e he => ⟨fun a ha => h i e true a he ha, fun a ha => h i e false a he ha⟩
  · intro h i e isSource a he ha
    obtain ⟨hsource, htarget⟩ := h i (lt_bound_of_get? he) e he
    cases isSource with
    | true => exact hsource a ha
    | false => exact htarget a ha

instance (d : Diagram) : Decidable d.Anchored := decidable_of_iff' _ anchored_iff

/-- Changing an element so that it has issued ends. -/
theorem Anchored.modify {f : Element → Element} (h : d.Anchored)
    (hends : ∀ e isSource a, (f e).endAt isSource = some a → a < d.bound) :
    (d.modify i f).Anchored := by
  intro j e isSource a he ha
  rw [bound_modify]
  rw [get?_modify] at he
  split at he
  · obtain ⟨e', -, rfl⟩ := Option.map_eq_some_iff.mp he
    exact hends e' isSource a ha
  · exact h j e isSource a he ha

/-- A new element without ends. -/
theorem Anchored.insert {e : Element} (h : d.Anchored) (hends : ∀ isSource, e.endAt isSource = none)
    (hinsert : d.insert e = .ok (i, d')) : d'.Anchored := by
  obtain ⟨-, hbound⟩ := slot_insert hinsert
  intro j e' isSource a he' ha
  rw [get?_insert hinsert] at he'
  split at he'
  · cases he'
    have hnone : e.endAt isSource = some a := by
      cases isSource <;> exact ha
    rw [hends] at hnone
    cases hnone
  · exact Nat.lt_of_lt_of_eq (Nat.lt_succ_of_lt (h j e' isSource a he' ha)) hbound.symm

theorem anchored_empty : empty.Anchored := by
  decide

theorem lt_bound_of_find? {name : String} (h : d.find? name = some i) : i < d.bound :=
  List.mem_range.mp (List.mem_of_find?_eq_some h)

end Diagram

/-! ## Cells -/

namespace Cell

theorem isUnmarked_interface {fs : Fields} {payload : Interface} (h : interface fs = .ok payload) :
    (Role.interface payload).IsUnmarked := by
  rintro payload' heq
  cases heq
  rw [interface] at h
  split at h
  · cases h
    rfl
  · cases h

/-- The role of a cell is marked as no duplicate. -/
theorem isUnmarked_role {id : String} {tag : Xml.Node} {fs : Fields} {span : Text.Span} {r : Role}
    (h : role id tag fs span = .ok r) : r.IsUnmarked := by
  rw [role] at h
  dsimp only at h
  split at h
  · split at h <;> cases h
    exact Role.isUnmarked_of_not_interface rfl
  · split at h <;> cases h
    exact Role.isUnmarked_of_not_interface rfl
  · split at h <;> cases h
    exact Role.isUnmarked_of_not_interface rfl
  · cases h
    exact Role.isUnmarked_of_not_interface rfl
  · split at h
    · cases h
      exact Role.isUnmarked_of_not_interface rfl
    · cases h
      exact Role.isUnmarked_of_not_interface rfl
    · split at h
      · rename_i hread
        cases h
        exact isUnmarked_interface hread
      · cases h
    · cases h
      exact Role.isUnmarked_of_not_interface rfl
    · split at h <;> cases h
      exact Role.isUnmarked_of_not_interface rfl
    · cases h
  · cases h

/-- The element of a cell is in nothing yet, has no ends and is marked as no duplicate. -/
structure IsBare (c : Cell) : Prop where
  parent : c.element.parent = none
  ends : ∀ isSource, c.element.endAt isSource = none
  role : c.element.role.IsUnmarked

theorem isBare_ofParts {n : Xml.Node} {p : Parts} {c : Cell} (h : ofParts n p = .ok c) :
    c.IsBare := by
  rw [ofParts] at h
  dsimp only at h
  split at h
  · cases h
  split at h
  · rw [bind_eq_ok] at h
    obtain ⟨r, hrole, h⟩ := h
    split at h <;> cases h
    exact ⟨rfl, Bool.rec rfl rfl, isUnmarked_role hrole⟩
  · rw [bind_eq_ok] at h
    obtain ⟨r, hrole, h⟩ := h
    cases hrole
    split at h <;> cases h
    exact ⟨rfl, Bool.rec rfl rfl, Role.isUnmarked_of_not_interface rfl⟩

theorem isBare_readAll {nodes : List Xml.Node} {cells : List Cell}
    (h : readAll nodes = .ok cells) : ∀ c ∈ cells, c.IsBare := by
  induction nodes generalizing cells with
  | nil =>
    cases h
    exact fun _ hmem => nomatch hmem
  | cons n nodes ih =>
    rw [readAll] at h
    split at h
    · exact ih h
    · rw [bind_eq_ok] at h
      obtain ⟨c, hc, h⟩ := h
      rw [bind_eq_ok] at h
      obtain ⟨rest, hrest, h⟩ := h
      cases h
      exact List.forall_mem_cons.mpr ⟨isBare_ofParts hc, ih hrest⟩

end Cell

/-! ## Documents -/

namespace Document

open Diagram (Pristine)

variable {d d' : Diagram}

/-- Placed cells are in new slots. -/
theorem place_pristine {cells : List Cell} {placed : List (Slot × Cell)} (hd : d.Pristine)
    (hbound : 0 < d.bound) (hcells : ∀ c ∈ cells, c.IsBare) (h : place cells d = .ok (placed, d')) :
    d'.Pristine ∧ ∀ p ∈ placed, p.1 ≠ Diagram.root := by
  induction cells generalizing d placed with
  | nil =>
    cases h
    exact ⟨hd, fun _ hmem => nomatch hmem⟩
  | cons c cells ih =>
    obtain ⟨hc, hcells⟩ := List.forall_mem_cons.mp hcells
    rw [place] at h
    split at h
    · cases h
    rename_i i d₁ hinsert
    rw [bind_eq_ok] at h
    obtain ⟨⟨later, d₂⟩, hlater, h⟩ := h
    cases h
    obtain ⟨hslot, hbound₁⟩ := Diagram.slot_insert hinsert
    obtain ⟨hd', hplaced⟩ := ih (hd.insert hbound hc.parent hc.role hinsert) (by omega) hcells hlater
    refine ⟨hd', List.forall_mem_cons.mpr ⟨?_, hplaced⟩⟩
    rw [hslot]
    exact (Nat.ne_of_lt hbound).symm

theorem reference_lt {c : Cell} {via : LinkAttribute} {name : Option String} {i : Slot}
    (h : reference d c via name = .ok (some i)) : i < d.bound := by
  cases name with
  | none => cases h
  | some name =>
    rw [reference] at h
    split at h
    · rename_i hfind
      cases h
      exact Diagram.lt_bound_of_find? hfind
    · cases h

theorem link_pristine {placed : List (Slot × Cell)} (hd : d.Pristine)
    (hplaced : ∀ p ∈ placed, p.1 ≠ Diagram.root) (h : link placed d = .ok d') : d'.Pristine := by
  induction placed generalizing d with
  | nil =>
    cases h
    exact hd
  | cons head placed ih =>
    obtain ⟨i, c⟩ := head
    obtain ⟨hi, hplaced⟩ := List.forall_mem_cons.mp hplaced
    rw [link, bind_eq_ok] at h
    obtain ⟨parent, hparent, h⟩ := h
    rw [bind_eq_ok] at h
    obtain ⟨source, -, h⟩ := h
    rw [bind_eq_ok] at h
    obtain ⟨target, -, h⟩ := h
    refine ih ?_ hplaced h
    refine hd.modify hi (fun _ => rfl) fun e p he hp => ?_
    cases parent with
    | none => exact hd.issued i p ⟨e, he, hp⟩
    | some q =>
      cases hp
      exact reference_lt hparent

/-- Reading a document places its cells and links them. -/
theorem read_eq_ok {source : String} (h : read source = .ok d) : ∃ cells placed d₁,
    (∀ c ∈ cells, c.IsBare) ∧ place cells Diagram.empty = .ok (placed, d₁) ∧
      link placed d₁ = .ok d := by
  rw [read] at h
  split at h
  · rw [ofTree, bind_eq_ok] at h
    obtain ⟨root, -, h⟩ := h
    rw [ofCells, bind_eq_ok] at h
    obtain ⟨cells, hcells, h⟩ := h
    rw [bind_eq_ok] at h
    obtain ⟨⟨placed, d₁⟩, hplace, h⟩ := h
    exact ⟨cells, placed, d₁, Cell.isBare_readAll hcells, hplace, h⟩
  · cases h

/-- **Whatever is read from a document is as diagrams are read.** -/
theorem read_pristine {source : String} (h : read source = .ok d) : d.Pristine := by
  obtain ⟨cells, placed, d₁, hcells, hplace, hlink⟩ := read_eq_ok h
  obtain ⟨hd₁, hplaced⟩ := place_pristine Diagram.pristine_empty Nat.one_pos hcells hplace
  exact link_pristine hd₁ hplaced hlink

/-! ### Ends -/

theorem place_anchored {cells : List Cell} {placed : List (Slot × Cell)} (hd : d.Anchored)
    (hcells : ∀ c ∈ cells, c.IsBare)
    (h : place cells d = .ok (placed, d')) : d'.Anchored := by
  induction cells generalizing d placed with
  | nil =>
    cases h
    exact hd
  | cons c cells ih =>
    obtain ⟨hc, hcells⟩ := List.forall_mem_cons.mp hcells
    rw [place] at h
    split at h
    · cases h
    rename_i i d₁ hinsert
    rw [bind_eq_ok] at h
    obtain ⟨⟨later, d₂⟩, hlater, h⟩ := h
    cases h
    exact ih (hd.insert hc.ends hinsert) hcells hlater

theorem link_anchored {placed : List (Slot × Cell)} (hd : d.Anchored)
    (h : link placed d = .ok d') : d'.Anchored := by
  induction placed generalizing d with
  | nil =>
    cases h
    exact hd
  | cons head placed ih =>
    obtain ⟨i, c⟩ := head
    rw [link, bind_eq_ok] at h
    obtain ⟨parent, -, h⟩ := h
    rw [bind_eq_ok] at h
    obtain ⟨source, hsource, h⟩ := h
    rw [bind_eq_ok] at h
    obtain ⟨target, htarget, h⟩ := h
    refine ih (hd.modify fun e isSource a ha => ?_) h
    cases isSource with
    | true =>
      obtain rfl : source = some a := ha
      exact reference_lt hsource
    | false =>
      obtain rfl : target = some a := ha
      exact reference_lt htarget

/-- **Every end that is read from a document is at an element of it.** -/
theorem read_anchored {source : String} (h : read source = .ok d) : d.Anchored := by
  obtain ⟨cells, placed, d₁, hcells, hplace, hlink⟩ := read_eq_ok h
  exact link_anchored (place_anchored Diagram.anchored_empty hcells hplace) hlink

end Document

end Netlist
