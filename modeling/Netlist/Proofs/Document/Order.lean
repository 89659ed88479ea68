import Mathlib.Data.Fintype.EquivFin
import Netlist.Proofs.Document.Reading

/-!
# The order of cells

Two documents with the same cells in another order are read alike: what a cell says does not
depend on where it is, and references are resolved when all cells are there.

- `Xml.Node.unspanned`: a node without its byte ranges, which change when cells are moved.
- `Reorders`: the cells of one document are those of another one, at other places.
- `Isomorphic`: two diagrams that are the same but for their slots and byte ranges.
- `read_reordered`: **of two such documents both are read or none is, and the permutation of
  the cells takes one diagram to the other.**
-/

namespace Netlist

/-! ## Nodes without byte ranges -/

namespace Xml.Node

open Netlist.Text (Span)

mutual

/-- The node with all byte ranges emptied. -/
def unspanned : Node → Node
  | .element name attributes children _ => .element name attributes (unspannedAll children) (Span.of 0 0)
  | .text value => .text value
  | .other => .other

/-- The nodes with all byte ranges emptied. -/
def unspannedAll : List Node → List Node
  | [] => []
  | n :: ns => n.unspanned :: unspannedAll ns

end

variable (n : Node) (name : String)

theorem unspannedAll_eq_map (ns : List Node) : unspannedAll ns = ns.map unspanned := by
  induction ns with
  | nil => rw [unspannedAll, List.map_nil]
  | cons n ns ih => rw [unspannedAll, ih, List.map_cons]

@[simp] theorem name?_unspanned : n.unspanned.name? = n.name? := by
  cases n <;> simp [unspanned, name?]

@[simp] theorem attributes_unspanned : n.unspanned.attributes = n.attributes := by
  cases n <;> simp [unspanned, attributes]

@[simp] theorem attribute?_unspanned : n.unspanned.attribute? name = n.attribute? name := by
  rw [attribute?, attributes_unspanned, attribute?]

theorem child?_unspanned : n.unspanned.child? name = (n.child? name).map unspanned := by
  have hchildren : n.unspanned.children = n.children.map unspanned := by
    cases n with
    | element =>
      rw [unspanned, ← unspannedAll_eq_map]
      rfl
    | text => rw [unspanned]; rfl
    | other => rw [unspanned]; rfl
  rw [child?, hchildren, List.find?_map, child?]
  congr 2
  funext c
  exact congrArg (· == some name) (name?_unspanned c)

end Xml.Node

namespace Cell

variable (n : Xml.Node) {m tag : Xml.Node} {fs : Fields} {r : Role}

@[simp] theorem isObject_unspanned : isObject n.unspanned = isObject n := by
  rw [isObject, Xml.Node.name?_unspanned, isObject]

theorem inner_unspanned : inner n.unspanned = (inner n).unspanned := by
  unfold inner
  rw [isObject_unspanned, Xml.Node.child?_unspanned]
  split
  · cases n.child? "mxCell" <;> rfl
  · rfl

theorem tag?_unspanned : tag? n.unspanned = (tag? n).map Xml.Node.unspanned := by
  unfold tag?
  rw [isObject_unspanned, Xml.Node.child?_unspanned]
  split <;> rfl

theorem labelText_unspanned : labelText n.unspanned = labelText n := by
  rw [labelText, isObject_unspanned, Xml.Node.attribute?_unspanned, labelText]

theorem dataFields_unspanned : dataFields n.unspanned = dataFields n := by
  rw [dataFields, isObject_unspanned, dataFields, fields, Xml.Node.attributes_unspanned, fields]

/-- A tag is read the same without its byte range. -/
theorem role_unspanned (id : String) (tag : Xml.Node) (fs : Fields) (span : Text.Span) :
    role id tag.unspanned fs span = role id tag fs span := by
  unfold role shape?
  simp only [Xml.Node.attribute?_unspanned]

theorem plays_unspanned : Plays n.unspanned r ↔ Plays n r := by
  unfold Plays
  rw [tag?_unspanned, dataFields_unspanned]
  cases tag? n with
  | none => rfl
  | some tag =>
    have hrole := role_unspanned "" tag (dataFields n) (Text.Span.of 0 0)
    show Denotes tag.unspanned (dataFields n) r ↔ Denotes tag (dataFields n) r
    exact role_eq_ok.symm.trans ((congrArg (· = .ok r) hrole).to_iff.trans role_eq_ok)

/-- Two nodes that say the same, byte ranges aside. -/
structure Alike (n m : Xml.Node) : Prop where
  identity : n.attribute? "id" = m.attribute? "id"
  plays : ∀ r, Plays n r ↔ Plays m r
  label : labelText n = labelText m
  fields : dataFields n = dataFields m
  inner : ∀ name, (inner n).attribute? name = (inner m).attribute? name

theorem alike_unspanned : Alike n.unspanned n where
  identity := n.attribute?_unspanned "id"
  plays := fun _ => plays_unspanned n
  label := labelText_unspanned n
  fields := dataFields_unspanned n
  inner := fun name => by rw [inner_unspanned, Xml.Node.attribute?_unspanned]

theorem Alike.symm {n : Xml.Node} (h : Alike n m) : Alike m n where
  identity := h.identity.symm
  plays := fun r => (h.plays r).symm
  label := h.label.symm
  fields := h.fields.symm
  inner := fun name => (h.inner name).symm

theorem Alike.trans {n k : Xml.Node} (h : Alike n m) (h' : Alike m k) : Alike n k where
  identity := h.identity.trans h'.identity
  plays := fun r => (h.plays r).trans (h'.plays r)
  label := h.label.trans h'.label
  fields := h.fields.trans h'.fields
  inner := fun name => (h.inner name).trans (h'.inner name)

/-- Nodes that differ only in byte ranges say the same. -/
theorem alike_of_unspanned {n : Xml.Node} (h : n.unspanned = m.unspanned) : Alike n m := by
  have hn := (alike_unspanned n).symm
  rw [h] at hn
  exact hn.trans (alike_unspanned m)

end Cell

namespace Document

open Netlist.Text (Span)
open Cell (inner Plays Alike)

variable {d d' : Diagram} {nodes nodes' : List Xml.Node} {n : Xml.Node} {i i' : Slot} {k : Nat}
  {name : String} {π : Fin (cellNodes nodes).length ≃ Fin (cellNodes nodes').length}

/-! ## Moving cells -/

/-- The cells under one model root are those under another one, each at the place that a
permutation says. -/
def Reorders (nodes nodes' : List Xml.Node)
    (π : Fin (cellNodes nodes).length ≃ Fin (cellNodes nodes').length) : Prop :=
  ∀ k, ((cellNodes nodes).get k).unspanned = ((cellNodes nodes').get (π k)).unspanned

/-- The slot that an element gets by a permutation of the cells; the root stays. -/
def move {a b : Nat} (π : Fin a ≃ Fin b) : Slot → Slot
  | 0 => 0
  | k + 1 => if h : k < a then (π ⟨k, h⟩).val + 1 else k + 1

/-- Two diagrams that are the same but for the slots of their elements and for byte ranges. -/
structure Isomorphic (σ : Slot → Slot) (d d' : Diagram) : Prop where
  bound : d'.bound = d.bound
  bijective : ∀ i' < d'.bound, ∃! i, i < d.bound ∧ σ i = i'
  element : ∀ i e, d.get? i = some e → ∃ e', d'.get? (σ i) = some e' ∧ e'.id = e.id ∧
    e'.role = e.role ∧ e'.label = e.label ∧ e'.fields = e.fields ∧ e'.parent = e.parent.map σ ∧
    e'.source = e.source.map σ ∧ e'.target = e.target.map σ

theorem Reorders.symm (h : Reorders nodes nodes' π) : Reorders nodes' nodes π.symm := by
  intro k
  have := h (π.symm k)
  rw [Equiv.apply_symm_apply] at this
  exact this.symm

/-- Where a cell goes, one is that says the same. -/
theorem Reorders.cell (h : Reorders nodes nodes' π) (hn : (cellNodes nodes)[k]? = some n) :
    ∃ l n', (cellNodes nodes')[l]? = some n' ∧ move π (k + 1) = l + 1 ∧ Alike n n' := by
  obtain ⟨hlt, rfl⟩ := List.getElem?_eq_some_iff.mp hn
  refine ⟨π ⟨k, hlt⟩, _, List.getElem?_eq_getElem (π ⟨k, hlt⟩).isLt, ?_,
    Cell.alike_of_unspanned (h ⟨k, hlt⟩)⟩
  exact dif_pos hlt

theorem Reorders.mem (h : Reorders nodes nodes' π) (hn : n ∈ cellNodes nodes) :
    ∃ n' ∈ cellNodes nodes', Alike n n' := by
  obtain ⟨k, hk⟩ := List.getElem?_of_mem hn
  obtain ⟨l, n', hl, -, halike⟩ := h.cell hk
  exact ⟨n', List.mem_of_getElem? hl, halike⟩

theorem Reorders.leadsTo (h : Reorders nodes nodes' π) (hlead : LeadsTo nodes name i) :
    LeadsTo nodes' name (move π i) := by
  cases hlead with
  | root reserved => exact .root reserved
  | cell k n here identity =>
    obtain ⟨l, n', hl, hmove, halike⟩ := h.cell here
    rw [hmove]
    exact .cell l n' hl (halike.identity.symm.trans identity)

/-- Identities tell cells apart. -/
theorem nodup_identities_iff : (identities nodes).Nodup ↔
    ∀ (k l : Nat) (n m : Xml.Node) (id : String), (cellNodes nodes)[k]? = some n →
      (cellNodes nodes)[l]? = some m → n.attribute? "id" = some id → m.attribute? "id" = some id →
      k = l := by
  unfold identities List.Nodup
  rw [List.pairwise_filterMap, List.pairwise_iff_getElem]
  constructor
  · intro h k l n m id hn hm hidn hidm
    obtain ⟨hk, rfl⟩ := List.getElem?_eq_some_iff.mp hn
    obtain ⟨hl, rfl⟩ := List.getElem?_eq_some_iff.mp hm
    rcases Nat.lt_trichotomy k l with hlt | heq | hgt
    · exact absurd rfl (h k l hk hl hlt id hidn id hidm)
    · exact heq
    · exact absurd rfl (h l k hl hk hgt id hidm id hidn)
  · intro h k l hk hl hlt id hidn id' hidm hsame
    subst hsame
    have := h k l _ _ id (List.getElem?_eq_getElem hk) (List.getElem?_eq_getElem hl) hidn hidm
    exact absurd this (Nat.ne_of_lt hlt)

theorem move_of_lt {a b k : Nat} (π : Fin a ≃ Fin b) (h : k < a) :
    move π (k + 1) = (π ⟨k, h⟩).val + 1 := dif_pos h

theorem move_of_le {a b k : Nat} (π : Fin a ≃ Fin b) (h : a ≤ k) : move π (k + 1) = k + 1 :=
  dif_neg (Nat.not_lt.mpr h)

theorem move_injective {a b : Nat} (π : Fin a ≃ Fin b) : Function.Injective (move π) := by
  have hab : a = b := Fin.equiv_iff_eq.mp ⟨π⟩
  have hsucc : ∀ k : Nat, ∃ l : Nat, move π (k + 1) = l + 1 ∧ (l < b ↔ k < a) := by
    intro k
    by_cases hk : k < a
    · exact ⟨_, move_of_lt π hk, iff_of_true (π ⟨k, hk⟩).isLt hk⟩
    · exact ⟨_, move_of_le π (Nat.not_lt.mp hk), by rw [hab]⟩
  intro i j hij
  cases i with
  | zero =>
    cases j with
    | zero => rfl
    | succ l =>
      obtain ⟨l', hl, -⟩ := hsucc l
      exact absurd (hij.trans hl) (Nat.succ_ne_zero l').symm
  | succ k =>
    obtain ⟨k', hk, hkiff⟩ := hsucc k
    cases j with
    | zero => exact absurd (hk.symm.trans hij) (Nat.succ_ne_zero k')
    | succ l =>
      obtain ⟨l', hl, hliff⟩ := hsucc l
      have hsame : k' = l' := Nat.succ.inj (hk.symm.trans (hij.trans hl))
      by_cases hlt : k < a
      · have hlt' : l < a := by rw [← hliff, ← hsame, hkiff]; exact hlt
        rw [move_of_lt π hlt, move_of_lt π hlt'] at hij
        rw [Fin.mk.inj (π.injective (Fin.val_injective (Nat.succ.inj hij)))]
      · have hle' : a ≤ l := Nat.not_lt.mp (by rw [← hliff, ← hsame, hkiff]; exact hlt)
        rw [move_of_le π (Nat.not_lt.mp hlt), move_of_le π hle'] at hij
        exact hij

/-- A permutation of cells takes the slots of the one diagram to those of the other. -/
theorem move_bijective {a b : Nat} (π : Fin a ≃ Fin b) {i' : Slot} (hi' : i' < b + 1) :
    ∃! i, i < a + 1 ∧ move π i = i' := by
  suffices hexists : ∃ i, i < a + 1 ∧ move π i = i' by
    obtain ⟨i, hi, hmove⟩ := hexists
    refine ⟨i, ⟨hi, hmove⟩, fun j hj => move_injective π ?_⟩
    rw [hj.2, hmove]
  cases i' with
  | zero => exact ⟨0, Nat.succ_pos a, rfl⟩
  | succ l =>
    have hl : l < b := Nat.lt_of_succ_lt_succ hi'
    refine ⟨(π.symm ⟨l, hl⟩).val + 1, Nat.succ_lt_succ (π.symm ⟨l, hl⟩).isLt, ?_⟩
    rw [move_of_lt π (π.symm ⟨l, hl⟩).isLt, Fin.eta, Equiv.apply_symm_apply]

theorem Reorders.identities (h : Reorders nodes nodes' π) (hmem : name ∈ Document.identities nodes) :
    name ∈ Document.identities nodes' := by
  obtain ⟨n, hn, hid⟩ := List.mem_filterMap.mp hmem
  obtain ⟨n', hn', halike⟩ := h.mem hn
  exact List.mem_filterMap.mpr ⟨n', hn', halike.identity.symm.trans hid⟩

/-- **Moving well-formed cells leaves them well-formed.** -/
theorem Reorders.wellFormed (h : Reorders nodes nodes' π) (hwell : WellFormed nodes) :
    WellFormed nodes' := by
  have hback : ∀ n' ∈ cellNodes nodes', ∃ n ∈ cellNodes nodes, Alike n' n := fun n' => h.symm.mem
  refine ⟨fun n' hn' => ?_, nodup_identities_iff.mpr ?_, fun hmem => ?_, fun n' hn' => ?_,
    fun n' hn' r hr hdrawn => ?_, fun n' hn' via name hname => ?_⟩
  · obtain ⟨n, hn, halike⟩ := hback n' hn'
    rw [halike.identity]
    exact hwell.identified n hn
  · intro k l n' m' id hn' hm' hidn hidm
    obtain ⟨k₀, n, hn, hk, hlike⟩ := h.symm.cell hn'
    obtain ⟨l₀, m, hm, hl, hlike'⟩ := h.symm.cell hm'
    have hsame := nodup_identities_iff.mp hwell.distinct k₀ l₀ n m id hn hm
      (hlike.identity.symm.trans hidn) (hlike'.identity.symm.trans hidm)
    rw [hsame, ← hl] at hk
    exact Nat.succ.inj (move_injective _ hk)
  · exact hwell.unreserved (h.symm.identities hmem)
  · obtain ⟨n, hn, halike⟩ := hback n' hn'
    exact (hwell.known n hn).imp fun r => (halike.plays r).mpr
  · obtain ⟨n, hn, halike⟩ := hback n' hn'
    have hends := hwell.ended n hn r ((halike.plays r).mp hr)
    unfold Cell.IsDrawnAsEdge Cell.HasEnd at *
    simp only [halike.inner] at hdrawn ⊢
    exact hends hdrawn
  · obtain ⟨n, hn, halike⟩ := hback n' hn'
    rw [halike.inner] at hname
    obtain ⟨i, hi⟩ := exists_leadsTo.mpr (hwell.resolved n hn via name hname)
    exact exists_leadsTo.mp ⟨_, h.leadsTo hi⟩

/-! ## Moving what is drawn -/

/-- In a well-formed document an identity leads to one slot. -/
theorem LeadsTo.unique {i j : Slot} (hwell : WellFormed nodes) (hi : LeadsTo nodes name i)
    (hj : LeadsTo nodes name j) : i = j := by
  have hreserved : ∀ {k : Nat} {n}, (cellNodes nodes)[k]? = some n →
      n.attribute? "id" = some Diagram.rootId → False := fun hk hid =>
    hwell.unreserved (List.mem_filterMap.mpr ⟨_, List.mem_of_getElem? hk, hid⟩)
  cases hi with
  | root hroot =>
    cases hj with
    | root => rfl
    | cell l m hm hidm => exact absurd (hroot ▸ hidm) (hreserved hm)
  | cell k n hn hidn =>
    cases hj with
    | root hroot => exact absurd (hroot ▸ hidn) (hreserved hn)
    | cell l m hm hidm =>
      rw [nodup_identities_iff.mp hwell.distinct k l n m name hn hm hidn hidm]

/-- References are resolved to the elements that moved. -/
theorem Reorders.resolvesTo (h : Reorders nodes nodes' π) (hwell : WellFormed nodes')
    {o : Option String} {default slot slot' : Option Slot} (hslot : ResolvesTo nodes default o slot)
    (hslot' : ResolvesTo nodes' (default.map (move π)) o slot') : slot' = slot.map (move π) := by
  cases o with
  | none => rw [show slot' = _ from hslot', show slot = default from hslot]
  | some name =>
    obtain ⟨i, rfl, hi⟩ := hslot
    obtain ⟨i', rfl, hi'⟩ := hslot'
    exact congrArg some (hi'.unique hwell (h.leadsTo hi))

/-- **Documents with the same cells in another order draw the same diagram.** -/
theorem Reorders.isomorphic (h : Reorders nodes nodes' π) (hwell : WellFormed nodes')
    (hd : Drawn nodes d) (hd' : Drawn nodes' d') : Isomorphic (move π) d d' := by
  have hlength : (cellNodes nodes).length = (cellNodes nodes').length := Fin.equiv_iff_eq.mp ⟨π⟩
  refine ⟨by rw [hd.bound, hd'.bound, hlength], fun i' hi' => ?_, fun i e he => ?_⟩
  · rw [hd'.bound] at hi'
    rw [hd.bound]
    exact move_bijective π hi'
  · cases i with
    | zero =>
      obtain rfl := Option.some.inj (hd.root.symm.trans he)
      exact ⟨_, hd'.root, rfl, rfl, rfl, rfl, rfl, rfl, rfl⟩
    | succ k =>
      have hk : k < (cellNodes nodes).length := by
        have := Diagram.lt_bound_of_get? he
        rw [hd.bound] at this
        exact Nat.lt_of_succ_lt_succ this
      have hn := List.getElem?_eq_getElem hk
      obtain ⟨x, hx, hdraws⟩ := hd.cell k _ hn
      obtain rfl := Option.some.inj (hx.symm.trans he)
      -- The cell that the element is drawn for is somewhere in the other document too.
      obtain ⟨l, n', hn', hmove, halike⟩ := h.cell hn
      obtain ⟨e', he', hdraws'⟩ := hd'.cell l n' hn'
      refine ⟨e', hmove ▸ he', ?_, ?_, ?_, ?_, ?_, ?_, ?_⟩
      · have hid := hdraws'.id
        rw [← halike.identity, hdraws.id] at hid
        exact (Option.some.inj hid).symm
      · exact ((halike.plays e'.role).mpr hdraws'.role).unique hdraws.role
      · rw [hdraws'.label, hdraws.label, halike.label]
      · rw [hdraws'.fields, hdraws.fields, halike.fields]
      · have hparent := hdraws'.parent
        rw [← halike.inner] at hparent
        exact h.resolvesTo hwell hdraws.parent hparent
      · have hsource := hdraws'.source
        rw [← halike.inner] at hsource
        exact h.resolvesTo hwell hdraws.source hsource
      · have htarget := hdraws'.target
        rw [← halike.inner] at htarget
        exact h.resolvesTo hwell hdraws.target htarget

/-- **The order of cells does not matter.** If the cells under the model root of one document
are those of another one, permuted, one document is read if and only if the other one is; and
the permutation takes every element to one with the same identity, label, role and fields,
whose parent and ends are where the permutation takes them. -/
theorem read_reordered {source source' : String} {top root top' root' : Xml.Node}
    (hxml : Xml.read source = .ok top) (hroot : cellRoot top = .ok root)
    (hxml' : Xml.read source' = .ok top') (hroot' : cellRoot top' = .ok root')
    (π : Fin (cellNodes root.children).length ≃ Fin (cellNodes root'.children).length)
    (h : Reorders root.children root'.children π) :
    ((∃ d, read source = .ok d) ↔ ∃ d', read source' = .ok d') ∧
      ∀ d d', read source = .ok d → read source' = .ok d' → Isomorphic (move π) d d' := by
  rw [read_eq_ofCells hxml hroot, read_eq_ofCells hxml' hroot']
  refine ⟨⟨fun ⟨d, hd⟩ => ?_, fun ⟨d', hd'⟩ => ?_⟩, fun d d' hd hd' => ?_⟩
  · exact exists_ofCells (h.wellFormed (wellFormed_of_ofCells hd))
  · exact exists_ofCells (h.symm.wellFormed (wellFormed_of_ofCells hd'))
  · exact h.isomorphic (wellFormed_of_ofCells hd') (drawn_of_ofCells hd) (drawn_of_ofCells hd')

/-- The cells of `nestText`, the outer one first. -/
def unnestText : String :=
  "<mxGraphModel><root><mxCell id='b' source='a'/><mxCell id='a' parent='b'/></root></mxGraphModel>"

/-- The model root of the text. -/
def unnestRoot : Xml.Node :=
  .element "root" [] [
    .element "mxCell" [⟨none, "id", "b"⟩, ⟨none, "source", "a"⟩] [] (Span.of 20 47),
    .element "mxCell" [⟨none, "id", "a"⟩, ⟨none, "parent", "b"⟩] [] (Span.of 47 74)] (Span.of 14 81)

/-- The two cells change places. -/
def unnesting : Fin (cellNodes nestRoot.children).length ≃ Fin (cellNodes unnestRoot.children).length :=
  (Fin.revPerm : Equiv.Perm (Fin 2))

/-- Both texts are read, and draw the same but for the two slots. -/
theorem read_reordered_nest :
    Reorders nestRoot.children unnestRoot.children unnesting ∧
      ∃ d d', read nestText = .ok d ∧ read unnestText = .ok d' ∧ Isomorphic (move unnesting) d d' := by
  have hxml' : Xml.read unnestText = .ok (.element "mxGraphModel" [] [unnestRoot] (Span.of 0 96)) := by
    cbv
  have hsame : Reorders nestRoot.children unnestRoot.children unnesting :=
    Fin.forall_fin_two.mpr ⟨rfl, rfl⟩
  have hroot : cellRoot (.element "mxGraphModel" [] [nestRoot] (Span.of 0 96)) = .ok nestRoot := rfl
  have hroot' : cellRoot (.element "mxGraphModel" [] [unnestRoot] (Span.of 0 96)) = .ok unnestRoot :=
    rfl
  obtain ⟨hiff, hiso⟩ := read_reordered xml_nestText hroot hxml' hroot' unnesting hsame
  have hsome : (ofCells nestRoot.children).toOption.isSome = true := by decide
  obtain ⟨d, hd⟩ := Option.isSome_iff_exists.mp hsome
  have hd : read nestText = .ok d :=
    (read_eq_ofCells xml_nestText rfl).trans (toOption_eq_some.mp hd)
  obtain ⟨d', hd'⟩ := hiff.mp ⟨d, hd⟩
  exact ⟨hsame, d, d', hd, hd', hiso d d' hd hd'⟩

end Document

end Netlist
