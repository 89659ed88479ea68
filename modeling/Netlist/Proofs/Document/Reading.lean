import Netlist.Document
import Netlist.Proofs.Diagram.Arena
import Netlist.Proofs.Document.Cells
import Netlist.Proofs.Lists

/-!
# Which documents are read, and as what

Cells are put into a diagram one after the other, and what they refer to is looked up when
all of them are there. So it does not matter where in the document a cell is that another
one names.

- `WellFormed`: what the cells under a model root have to say.
- `Drawn`: the diagram that has one element for each cell, in order.
- `place_eq_ok`, `link_eq_ok`: when cells are placed and linked, and what comes of it.
- `read_iff`: **a document is read if and only if its cells are well-formed, and it is read
  as the diagram they draw.**
-/

namespace Netlist

namespace Cell

/-- The identity in one of the references of a cell. -/
def reference? (c : Cell) : LinkAttribute → Option String
  | .parent => c.parent
  | .source => c.source
  | .target => c.target

end Cell

namespace Diagram

variable {d d' : Diagram} {i j : Slot} {e : Element} {f : Element → Element} {id : String}

theorem find?_modify (hf : ∀ e, (f e).id = e.id) : (d.modify i f).find? id = d.find? id := by
  rw [find?, find?, bound_modify]
  refine congrArg (fun p => (List.range d.bound).find? p) (funext fun j => ?_)
  rw [get?_modify]
  split
  · rw [Option.any_map]
    refine congrArg (fun p => (d.get? j).any p) (funext fun e => ?_)
    exact congrArg (· == id) (hf e)
  · rfl

/-- Identities are found where they are, if they tell elements apart. -/
theorem Distinct.find?_eq_some (h : d.Distinct) : d.find? id = some i ↔ d.idAt? i = some id := by
  refine ⟨Diagram.find?_eq_some, fun hid => ?_⟩
  obtain ⟨e, he, rfl⟩ := idAt?_eq_some.mp hid
  cases hfind : d.find? e.id with
  | none => exact absurd ⟨i, e, he, rfl⟩ (find?_eq_none_iff.mp hfind)
  | some j =>
    obtain ⟨e', he', hsame⟩ := idAt?_eq_some.mp (Diagram.find?_eq_some hfind)
    rw [h j i e' e he' he hsame]

/-- Elements at different slots are changed independently. -/
theorem get?_foldl_modify {α : Type} {g : α → Element → Element} {xs : List (Slot × α)}
    (hnodup : (xs.map Prod.fst).Nodup) (d : Diagram) :
    (∀ i a, (i, a) ∈ xs → (xs.foldl (fun d x => d.modify x.1 (g x.2)) d).get? i = (d.get? i).map (g a)) ∧
      ∀ i, i ∉ xs.map Prod.fst → (xs.foldl (fun d x => d.modify x.1 (g x.2)) d).get? i = d.get? i := by
  induction xs generalizing d with
  | nil => exact ⟨fun _ _ hmem => absurd hmem List.not_mem_nil, fun _ _ => rfl⟩
  | cons x xs ih =>
    obtain ⟨k, b⟩ := x
    obtain ⟨hk, hxs⟩ := List.nodup_cons.mp hnodup
    obtain ⟨hin, hout⟩ := ih hxs (d.modify k (g b))
    constructor
    · intro i a hmem
      rcases List.mem_cons.mp hmem with heq | hmem
      · cases heq
        rw [List.foldl_cons, hout k hk, get?_modify, if_pos rfl]
      · have hne : k ≠ i := (ne_of_mem_of_not_mem (List.mem_map_of_mem (f := Prod.fst) hmem) hk).symm
        rw [List.foldl_cons, hin i a hmem, get?_modify, if_neg hne]
    · intro i hi
      rw [List.map_cons, List.mem_cons, not_or] at hi
      obtain ⟨hne, hi⟩ := hi
      rw [List.foldl_cons, hout i hi, get?_modify, if_neg (Ne.symm hne)]

theorem bound_foldl_modify {α : Type} {g : α → Element → Element} (xs : List (Slot × α))
    (d : Diagram) : (xs.foldl (fun d x => d.modify x.1 (g x.2)) d).bound = d.bound := by
  induction xs generalizing d with
  | nil => rfl
  | cons x xs ih => rw [List.foldl_cons, ih, bound_modify]

end Diagram

namespace Document

open Netlist.Text (Span)
open Cell (isCell inner labelText dataFields Plays IsDrawnAsEdge HasEnd Says)

variable {d d₁ d' : Diagram} {nodes : List Xml.Node} {n : Xml.Node} {cells : List Cell} {c : Cell}
  {placed : List (Slot × Cell)} {i : Slot} {k : Nat}

/-! ## What the cells say -/

/-- The cells under a model root, in order. -/
def cellNodes (nodes : List Xml.Node) : List Xml.Node := nodes.filter isCell

/-- The identities of the cells, in order. -/
def identities (nodes : List Xml.Node) : List String :=
  (cellNodes nodes).filterMap fun n => n.attribute? "id"

/-- What the cells under a model root have to say. Each has an identity, which no other
cell has and which is not the one of the root; its tag, if it has one, names a role; an edge
has a source or a target; and whatever is named as parent, source or target is the identity
of a cell or of the root. -/
structure WellFormed (nodes : List Xml.Node) : Prop where
  identified : ∀ n ∈ cellNodes nodes, n.attribute? "id" ≠ none
  distinct : (identities nodes).Nodup
  unreserved : Diagram.rootId ∉ identities nodes
  known : ∀ n ∈ cellNodes nodes, ∃ r, Plays n r
  ended : ∀ n ∈ cellNodes nodes, ∀ r, Plays n r → IsDrawnAsEdge n r → HasEnd n
  resolved : ∀ n ∈ cellNodes nodes, ∀ via : LinkAttribute, ∀ name,
    (inner n).attribute? via.name = some name → name = Diagram.rootId ∨ name ∈ identities nodes

/-- The slot that an identity leads to: the one of the cell that has it, or the root. -/
inductive LeadsTo (nodes : List Xml.Node) (name : String) : Slot → Prop
  | root (reserved : name = Diagram.rootId) : LeadsTo nodes name Diagram.root
  | cell (k : Nat) (n : Xml.Node) (here : (cellNodes nodes)[k]? = some n)
      (identity : n.attribute? "id" = some name) : LeadsTo nodes name (k + 1)

/-- What a reference is resolved to; without one there is a default. -/
def ResolvesTo (nodes : List Xml.Node) (default : Option Slot) :
    Option String → Option Slot → Prop
  | none, slot => slot = default
  | some name, slot => ∃ i, slot = some i ∧ LeadsTo nodes name i

/-- The element that a cell draws. -/
structure Draws (nodes : List Xml.Node) (n : Xml.Node) (e : Element) : Prop where
  id : n.attribute? "id" = some e.id
  role : Plays n e.role
  label : e.label = labelText n
  fields : e.fields = dataFields n
  span : e.span = some n.span
  parent : ResolvesTo nodes (some Diagram.root) ((inner n).attribute? "parent") e.parent
  source : ResolvesTo nodes none ((inner n).attribute? "source") e.source
  target : ResolvesTo nodes none ((inner n).attribute? "target") e.target

/-- The diagram that has the root and one element for each cell, in order. -/
structure Drawn (nodes : List Xml.Node) (d : Diagram) : Prop where
  bound : d.bound = (cellNodes nodes).length + 1
  root : d.get? Diagram.root = some { id := Diagram.rootId, role := .root }
  cell : ∀ k n, (cellNodes nodes)[k]? = some n → ∃ e, d.get? (k + 1) = some e ∧ Draws nodes n e

/-! ## Placing cells -/

/-- The slots of some cells that are placed one after the other. -/
def numbered (first : Slot) (cells : List Cell) : List (Slot × Cell) :=
  (cells.zipIdx first).map Prod.swap

/-- A diagram with some cells in new slots. -/
structure Placed (cells : List Cell) (d d' : Diagram) : Prop where
  bound : d'.bound = d.bound + cells.length
  old : ∀ j < d.bound, d'.get? j = d.get? j
  new : ∀ k c, cells[k]? = some c → d'.get? (d.bound + k) =
    some { c.element with parent := some (c.element.parent.getD Diagram.root) }

/-- The first cell gets the next slot, and the others the slots after it. -/
theorem Placed.cons {d₁ : Diagram} {i : Slot}
    (hinsert : d.insert c.element = .ok (i, d₁)) (h : Placed cells d₁ d') :
    Placed (c :: cells) d d' := by
  obtain ⟨rfl, hbound⟩ := Diagram.slot_insert hinsert
  refine ⟨?_, fun j hj => ?_, fun k c' hc' => ?_⟩
  · rw [h.bound, hbound, List.length_cons]
    omega
  · rw [h.old j (by omega), Diagram.get?_insert hinsert, if_neg (Nat.ne_of_lt hj)]
  · cases k with
    | zero =>
      cases hc'
      rw [Nat.add_zero, h.old _ (by omega), Diagram.get?_insert hinsert]
      exact if_pos rfl
    | succ k =>
      have hslot : d.bound + (k + 1) = d₁.bound + k := by omega
      rw [hslot]
      exact h.new k c' hc'

/-- Placed cells have identities that were free and tell them apart. -/
theorem place_placed (h : place cells d = .ok (placed, d')) :
    (cells.map fun c => c.element.id).Nodup ∧ (∀ c ∈ cells, ¬ d.Taken c.element.id) ∧
      placed = numbered d.bound cells ∧ Placed cells d d' := by
  induction cells generalizing d placed with
  | nil =>
    cases h
    refine ⟨List.nodup_nil, fun _ hmem => absurd hmem List.not_mem_nil, rfl, rfl, fun _ _ => rfl, ?_⟩
    exact fun _ _ hmem => nomatch hmem
  | cons c cells ih =>
    rw [place] at h
    split at h
    · cases h
    rename_i i d₁ hinsert
    obtain ⟨⟨later, d₂⟩, hlater, h⟩ := bind_eq_ok.mp h
    cases h
    obtain ⟨rfl, hbound⟩ := Diagram.slot_insert hinsert
    have hfree := Diagram.find?_eq_none_iff.mp (Diagram.find?_of_insert hinsert)
    obtain ⟨hnodup, hothers, rfl, hplaced⟩ := ih hlater
    have hnot : ∀ c' ∈ cells, ¬ d.Taken c'.element.id ∧ c.element.id ≠ c'.element.id := by
      intro c' hc'
      have := hothers c' hc'
      rw [Diagram.taken_insert hinsert, not_or] at this
      exact this
    refine ⟨List.nodup_cons.mpr ⟨fun hmem => ?_, hnodup⟩,
      List.forall_mem_cons.mpr ⟨hfree, fun c' hc' => (hnot c' hc').1⟩, ?_, hplaced.cons hinsert⟩
    · obtain ⟨c', hc', hsame⟩ := List.mem_map.mp hmem
      exact (hnot c' hc').2 hsame.symm
    · rw [hbound]
      rfl

/-- Cells whose identities are free and tell them apart can be placed. -/
theorem exists_place (hnodup : (cells.map fun c => c.element.id).Nodup)
    (hfree : ∀ c ∈ cells, ¬ d.Taken c.element.id) : ∃ placed d', place cells d = .ok (placed, d') := by
  induction cells generalizing d with
  | nil => exact ⟨_, _, rfl⟩
  | cons c cells ih =>
    obtain ⟨hc, hcells⟩ := List.forall_mem_cons.mp hfree
    obtain ⟨hnot, hnodup⟩ := List.nodup_cons.mp hnodup
    obtain ⟨i, d₁, hinsert⟩ := Diagram.exists_insert (Diagram.find?_eq_none_iff.mpr hc)
    obtain ⟨placed, d', hplace⟩ := ih (d := d₁) hnodup fun c' hc' htaken => by
      rcases (Diagram.taken_insert hinsert).mp htaken with htaken | hsame
      · exact hcells c' hc' htaken
      · exact hnot (List.mem_map.mpr ⟨c', hc', hsame.symm⟩)
    refine ⟨(i, c) :: placed, d', ?_⟩
    rw [place, hinsert]
    dsimp only
    rw [hplace]
    rfl

/-! ## Resolving references -/

/-- The element of a cell with its references resolved in a diagram. -/
def resolve (d : Diagram) (c : Cell) (e : Element) : Element :=
  { e with
    parent := (c.parent.bind d.find?).or e.parent
    source := c.source.bind d.find?
    target := c.target.bind d.find? }

theorem reference_eq_ok {via : LinkAttribute} {name : Option String} {o : Option Slot} :
    reference d c via name = .ok o ↔
      (∀ text, name = some text → d.find? text ≠ none) ∧ o = name.bind d.find? := by
  cases name with
  | none => simp [reference, eq_comm]
  | some text =>
    unfold reference
    cases hfind : d.find? text <;> simp [hfind, eq_comm]

/-- **Cells can be linked if whatever they name is there.** -/
theorem link_eq_ok : link placed d = .ok d' ↔
    (∀ x ∈ placed, ∀ via text, x.2.reference? via = some text → d.find? text ≠ none) ∧
      d' = placed.foldl (fun d' x => d'.modify x.1 (resolve d x.2)) d := by
  -- Linking changes no identities, so references are resolved as they were at the start.
  have hfrom : ∀ d₁ : Diagram, (∀ text, d₁.find? text = d.find? text) →
      (link placed d₁ = .ok d' ↔
        (∀ x ∈ placed, ∀ via text, x.2.reference? via = some text → d.find? text ≠ none) ∧
          d' = placed.foldl (fun d' x => d'.modify x.1 (resolve d x.2)) d₁) := by
    induction placed with
    | nil =>
      intro d₁ _
      rw [link]
      exact ⟨fun h => ⟨fun _ hmem => absurd hmem List.not_mem_nil, (Except.ok.inj h).symm⟩,
        fun h => congrArg Except.ok h.2.symm⟩
    | cons x placed ih =>
      intro d₁ hsame
      obtain ⟨i, c⟩ := x
      have hfind : d₁.find? = d.find? := funext hsame
      have hnext : ∀ text, (d₁.modify i (resolve d c)).find? text = d.find? text := fun text => by
        have hids : ∀ e, (resolve d c e).id = e.id := fun _ => rfl
        rw [Diagram.find?_modify hids]
        exact hsame text
      rw [link]
      simp only [bind_eq_ok, reference_eq_ok, hfind]
      rw [List.forall_mem_cons, List.foldl_cons]
      constructor
      · rintro ⟨parent, ⟨hparent, rfl⟩, source, ⟨hsource, rfl⟩, target, ⟨htarget, rfl⟩, h⟩
        obtain ⟨hrest, hd'⟩ := (ih _ hnext).mp h
        refine ⟨⟨fun via text => ?_, hrest⟩, hd'⟩
        cases via with
        | parent => exact hparent text
        | source => exact hsource text
        | target => exact htarget text
      · rintro ⟨⟨hc, hrest⟩, hd'⟩
        exact ⟨_, ⟨hc .parent, rfl⟩, _, ⟨hc .source, rfl⟩, _, ⟨hc .target, rfl⟩,
          (ih _ hnext).mpr ⟨hrest, hd'⟩⟩
  exact hfrom d fun _ => rfl

/-! ## The cells of a document -/

theorem map_snd_numbered (first : Slot) (cells : List Cell) :
    (numbered first cells).map Prod.snd = cells := by
  rw [numbered, List.map_map]
  exact List.zipIdx_map_fst first cells

theorem map_fst_numbered (first : Slot) (cells : List Cell) :
    (numbered first cells).map Prod.fst = List.range' first cells.length := by
  rw [numbered, List.map_map]
  exact List.zipIdx_map_snd first cells

theorem nodup_numbered (first : Slot) (cells : List Cell) :
    ((numbered first cells).map Prod.fst).Nodup := by
  rw [map_fst_numbered]
  exact List.nodup_range'

theorem mem_numbered (hc : cells[k]? = some c) : (k + 1, c) ∈ numbered 1 cells := by
  refine List.mem_map.mpr ⟨(c, k + 1), ?_, rfl⟩
  rw [List.mk_mem_zipIdx_iff_le_and_getElem?_sub]
  exact ⟨Nat.le_add_left 1 k, hc⟩

theorem reference?_of_said (h : Says n c) (via : LinkAttribute) :
    c.reference? via = (inner n).attribute? via.name := by
  cases h
  cases via <;> rfl

theorem identity_of_said (h : Says n c) : n.attribute? "id" = some c.element.id := by
  cases h
  assumption

theorem map_id_of_said (h : List.Forall₂ Says (cellNodes nodes) cells) :
    cells.map (fun c => c.element.id) = identities nodes := by
  rw [identities, ← List.filterMap_eq_map]
  exact filterMap_congr_forall₂ h fun n c hsaid => (identity_of_said hsaid).symm

/-- The diagram of the cells before they are linked. -/
theorem idAt?_of_placed (hsaid : List.Forall₂ Says (cellNodes nodes) cells)
    (hplaced : Placed cells Diagram.empty d) {name : String} :
    d.idAt? i = some name ↔ LeadsTo nodes name i := by
  have hroot : d.get? Diagram.root = some { id := Diagram.rootId, role := .root } :=
    hplaced.old 0 Nat.one_pos
  have hcell : ∀ k c, cells[k]? = some c → d.idAt? (k + 1) = some c.element.id := by
    intro k c hc
    have hget := hplaced.new k c hc
    rw [show Diagram.empty.bound + k = k + 1 from Nat.add_comm 1 k] at hget
    rw [Diagram.idAt?_of_get? hget]
  constructor
  · intro hid
    cases i with
    | zero =>
      have hreserved := (Diagram.idAt?_of_get? hroot).symm.trans hid
      exact .root (Option.some.inj hreserved).symm
    | succ k =>
      obtain ⟨e, he, -⟩ := Diagram.idAt?_eq_some.mp hid
      have hlt : k < cells.length := by
        have hlt := Diagram.lt_bound_of_get? he
        rw [hplaced.bound, Nat.add_comm] at hlt
        exact Nat.lt_of_succ_lt_succ hlt
      have hc := List.getElem?_eq_getElem hlt
      obtain ⟨n, hn, hnc⟩ := forall₂_getElem? hsaid.flip hc
      rw [hcell k _ hc] at hid
      exact .cell k n hn ((identity_of_said hnc).trans hid)
  · rintro (hreserved | ⟨k, n, hn, hidentity⟩)
    · rw [hreserved]
      exact Diagram.idAt?_of_get? hroot
    · obtain ⟨c, hc, hnc⟩ := forall₂_getElem? hsaid hn
      rw [hcell k c hc, ← identity_of_said hnc]
      exact hidentity

/-- The identities that lead somewhere are those of the cells and the root. -/
theorem exists_leadsTo {name : String} :
    (∃ i, LeadsTo nodes name i) ↔ name = Diagram.rootId ∨ name ∈ identities nodes := by
  constructor
  · rintro ⟨i, hreserved | ⟨k, n, hn, hidentity⟩⟩
    · exact .inl hreserved
    · exact .inr (List.mem_filterMap.mpr ⟨n, List.mem_of_getElem? hn, hidentity⟩)
  · rintro (hreserved | hmem)
    · exact ⟨_, .root hreserved⟩
    · obtain ⟨n, hn, hidentity⟩ := List.mem_filterMap.mp hmem
      obtain ⟨k, hk⟩ := List.getElem?_of_mem hn
      exact ⟨_, .cell k n hk hidentity⟩

theorem find?_of_placed (hsaid : List.Forall₂ Says (cellNodes nodes) cells)
    (hplaced : Placed cells Diagram.empty d) (hdistinct : d.Distinct) {name : String} :
    d.find? name = some i ↔ LeadsTo nodes name i := by
  rw [hdistinct.find?_eq_some, idAt?_of_placed hsaid hplaced]

theorem find?_ne_none (hsaid : List.Forall₂ Says (cellNodes nodes) cells)
    (hplaced : Placed cells Diagram.empty d) (hdistinct : d.Distinct) {name : String} :
    d.find? name ≠ none ↔ name = Diagram.rootId ∨ name ∈ identities nodes := by
  rw [← exists_leadsTo, Option.ne_none_iff_exists']
  exact exists_congr fun i => find?_of_placed hsaid hplaced hdistinct

/-- Reading cells goes through three stages. -/
theorem ofCells_eq_ok : ofCells nodes = .ok d ↔ ∃ cells placed d₁,
    List.Forall₂ Says (cellNodes nodes) cells ∧ place cells Diagram.empty = .ok (placed, d₁) ∧
      link placed d₁ = .ok d := by
  unfold ofCells
  simp only [bind_eq_ok, Cell.readAll_eq_ok, Prod.exists]
  exact ⟨fun ⟨cells, hsaid, placed, d₁, hplace, hlink⟩ => ⟨cells, placed, d₁, hsaid, hplace, hlink⟩,
    fun ⟨cells, placed, d₁, hsaid, hplace, hlink⟩ => ⟨cells, hsaid, placed, d₁, hplace, hlink⟩⟩

theorem taken_empty {id : String} : Diagram.empty.Taken id ↔ id = Diagram.rootId := by
  constructor
  · rintro ⟨i, e, he, rfl⟩
    cases i with
    | zero =>
      cases he
      rfl
    | succ i => cases he
  · rintro rfl
    exact ⟨0, _, rfl, rfl⟩

/-- **Well-formed cells are read.** -/
theorem exists_ofCells (h : WellFormed nodes) : ∃ d, ofCells nodes = .ok d := by
  obtain ⟨cells, hsaid⟩ : ∃ cells, List.Forall₂ Says (cellNodes nodes) cells := by
    refine exists_forall₂ fun n hn => ?_
    obtain ⟨id, hid⟩ := Option.ne_none_iff_exists'.mp (h.identified n hn)
    obtain ⟨r, hr⟩ := h.known n hn
    exact ⟨_, .intro id r hid hr (h.ended n hn r hr)⟩
  have hids := map_id_of_said hsaid
  obtain ⟨placed, d₁, hplace⟩ := exists_place (d := Diagram.empty)
    (by rw [hids]; exact h.distinct) fun c hc htaken => by
      refine h.unreserved ?_
      rw [← taken_empty.mp htaken, ← hids]
      exact List.mem_map_of_mem hc
  obtain ⟨-, -, rfl, hplaced⟩ := place_placed hplace
  have hdistinct : d₁.Distinct := place_distinct (by decide) hplace
  refine ⟨_, ofCells_eq_ok.mpr ⟨cells, _, d₁, hsaid, hplace, link_eq_ok.mpr ⟨?_, rfl⟩⟩⟩
  intro x hx via text htext
  have hc : x.2 ∈ cells := by
    rw [← map_snd_numbered Diagram.empty.bound cells]
    exact List.mem_map_of_mem hx
  obtain ⟨n, hn, hnc⟩ := forall₂_mem_right hsaid hc
  rw [reference?_of_said hnc] at htext
  exact (find?_ne_none hsaid hplaced hdistinct).mpr (h.resolved n hn via text htext)

/-- **Cells that are read are well-formed.** -/
theorem wellFormed_of_ofCells (h : ofCells nodes = .ok d) : WellFormed nodes := by
  obtain ⟨cells, placed, d₁, hsaid, hplace, hlink⟩ := ofCells_eq_ok.mp h
  obtain ⟨hnodup, hfree, rfl, hplaced⟩ := place_placed hplace
  have hdistinct : d₁.Distinct := place_distinct (by decide) hplace
  have hids := map_id_of_said hsaid
  rw [hids] at hnodup
  refine ⟨fun n hn => ?_, hnodup, fun hmem => ?_, fun n hn => ?_, fun n hn r hr => ?_,
    fun n hn via name hname => ?_⟩
  · obtain ⟨c, -, hnc⟩ := forall₂_mem_left hsaid hn
    rw [identity_of_said hnc]
    exact fun hnone => nomatch hnone
  · rw [← hids] at hmem
    obtain ⟨c, hc, hid⟩ := List.mem_map.mp hmem
    exact hfree c hc (taken_empty.mpr hid)
  · obtain ⟨c, -, hnc⟩ := forall₂_mem_left hsaid hn
    obtain ⟨id, -, r, hr, -⟩ := Cell.says_iff.mp hnc
    exact ⟨r, hr⟩
  · obtain ⟨c, -, hnc⟩ := forall₂_mem_left hsaid hn
    obtain ⟨id, -, r', hr', hends, -⟩ := Cell.says_iff.mp hnc
    rw [hr.unique hr']
    exact hends
  · obtain ⟨c, hc, hnc⟩ := forall₂_mem_left hsaid hn
    rw [← find?_ne_none hsaid hplaced hdistinct]
    obtain ⟨k, hk⟩ := List.getElem?_of_mem hc
    rw [← reference?_of_said hnc] at hname
    exact (link_eq_ok.mp hlink).1 (k + 1, c) (mem_numbered hk) via name hname

/-- What a reference is resolved to, if it is found. -/
theorem resolvesTo_bind (hfind : ∀ name i, d.find? name = some i ↔ LeadsTo nodes name i)
    {o : Option String} (hfound : ∀ text, o = some text → d.find? text ≠ none)
    (default : Option Slot) : ResolvesTo nodes default o ((o.bind d.find?).or default) := by
  cases o with
  | none => exact Option.none_or
  | some text =>
    obtain ⟨i, hi⟩ := Option.ne_none_iff_exists'.mp (hfound text rfl)
    refine ⟨i, ?_, (hfind text i).mp hi⟩
    rw [Option.bind_some, hi, Option.some_or]

/-- **Cells are read as the diagram they draw.** -/
theorem drawn_of_ofCells (h : ofCells nodes = .ok d) : Drawn nodes d := by
  obtain ⟨cells, placed, d₁, hsaid, hplace, hlink⟩ := ofCells_eq_ok.mp h
  obtain ⟨-, -, rfl, hplaced⟩ := place_placed hplace
  have hdistinct : d₁.Distinct := place_distinct (by decide) hplace
  have hfind : ∀ name i, d₁.find? name = some i ↔ LeadsTo nodes name i :=
    fun _ _ => find?_of_placed hsaid hplaced hdistinct
  obtain ⟨hfound, rfl⟩ := link_eq_ok.mp hlink
  obtain ⟨hlinked, hrest⟩ :=
    Diagram.get?_foldl_modify (g := resolve d₁) (nodup_numbered Diagram.empty.bound cells) d₁
  refine ⟨?_, ?_, fun k n hn => ?_⟩
  · rw [Diagram.bound_foldl_modify, hplaced.bound, Nat.add_comm, ← hsaid.length_eq]
    rfl
  · have hnew : Diagram.root ∉ (numbered Diagram.empty.bound cells).map Prod.fst := by
      rw [map_fst_numbered, List.mem_range'_1]
      exact fun hmem => absurd hmem.1 (by decide)
    rw [hrest Diagram.root hnew]
    exact hplaced.old 0 Nat.one_pos
  · obtain ⟨c, hc, hnc⟩ := forall₂_getElem? hsaid hn
    have hget : d₁.get? (k + 1) =
        some { c.element with parent := some (c.element.parent.getD Diagram.root) } := by
      rw [← hplaced.new k c hc]
      exact congrArg d₁.get? (Nat.add_comm k 1)
    -- References are looked up when all cells are placed, so their order does not matter.
    have hresolved : ∀ via default, ResolvesTo nodes default ((inner n).attribute? via.name)
        (((c.reference? via).bind d₁.find?).or default) := by
      intro via default
      rw [← reference?_of_said hnc]
      exact resolvesTo_bind hfind (hfound _ (mem_numbered hc) via) default
    refine ⟨_, by rw [hlinked (k + 1) c (mem_numbered hc), hget]; rfl, ?_⟩
    obtain ⟨id, hid, r, hr, -, rfl⟩ := Cell.says_iff.mp hnc
    refine ⟨hid, hr, rfl, rfl, rfl, hresolved .parent _, ?_, ?_⟩
    · rw [← Option.or_none (o := (resolve d₁ _ _).source)]
      exact hresolved .source none
    · rw [← Option.or_none (o := (resolve d₁ _ _).target)]
      exact hresolved .target none

/-- Reading a text whose model root is found is reading the cells under it. -/
theorem read_eq_ofCells {source : String} {top root : Xml.Node} (hxml : Xml.read source = .ok top)
    (hroot : cellRoot top = .ok root) : read source = ofCells root.children := by
  rw [read, hxml]
  dsimp only
  rw [ofTree, hroot]
  rfl

/-- **The documents that are read are the well-formed ones, and they are read as drawn.** The
text has to be XML with a model root. It is read if and only if every cell under the root has
an identity of its own, a role that is known, an end if it is an edge, and names nothing but
cells and the root; what is read then has one element for each cell, in order, that stands for
what the cell says, and its references lead to what they name. -/
theorem read_iff {source : String} {top root : Xml.Node} (hxml : Xml.read source = .ok top)
    (hroot : cellRoot top = .ok root) :
    ((∃ d, read source = .ok d) ↔ WellFormed root.children) ∧
      ∀ d, read source = .ok d → Drawn root.children d := by
  rw [read_eq_ofCells hxml hroot]
  exact ⟨⟨fun ⟨_, h⟩ => wellFormed_of_ofCells h, exists_ofCells⟩, fun _ => drawn_of_ofCells⟩

/-- A cell inside another one, which comes after it and has an end at it. -/
def nestText : String :=
  "<mxGraphModel><root><mxCell id='a' parent='b'/><mxCell id='b' source='a'/></root></mxGraphModel>"

/-- The model root of the text. -/
def nestRoot : Xml.Node :=
  .element "root" [] [
    .element "mxCell" [⟨none, "id", "a"⟩, ⟨none, "parent", "b"⟩] [] (Span.of 20 47),
    .element "mxCell" [⟨none, "id", "b"⟩, ⟨none, "source", "a"⟩] [] (Span.of 47 74)] (Span.of 14 81)

theorem xml_nestText :
    Xml.read nestText = .ok (.element "mxGraphModel" [] [nestRoot] (Span.of 0 96)) := by
  -- a text is its characters, which need not be decoded from its bytes again
  have hchars : nestText.toList = _ := String.toList_ofList
  rw [Xml.read, hchars]
  cbv

/-- The text is read, though the inner cell comes before the outer one. -/
theorem read_iff_nest :
    Xml.read nestText = .ok (.element "mxGraphModel" [] [nestRoot] (Span.of 0 96)) ∧
      WellFormed nestRoot.children ∧ ∃ d, read nestText = .ok d ∧ Drawn nestRoot.children d := by
  have hroot : cellRoot (.element "mxGraphModel" [] [nestRoot] (Span.of 0 96)) = .ok nestRoot := rfl
  have hread := read_iff xml_nestText hroot
  have hsome : (ofCells nestRoot.children).toOption.isSome = true := by decide
  obtain ⟨d, hd⟩ := Option.isSome_iff_exists.mp hsome
  have hwell := wellFormed_of_ofCells (toOption_eq_some.mp hd)
  obtain ⟨d, hd⟩ := hread.1.mpr hwell
  exact ⟨xml_nestText, hwell, d, hd, hread.2 d hd⟩

end Document

end Netlist
