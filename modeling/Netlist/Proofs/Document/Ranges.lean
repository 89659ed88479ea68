import Netlist.Document
import Netlist.Proofs.Document.Reading

/-!
# Ranges of nodes

Every element of an XML tree that was read takes a range of bytes of the text. Places are
told by what is left of the text, so that no place lies beyond its end.

- `Xml.Node.Within`: the ranges of a node and of everything in it end within a text.
- `Xml.within_read`: **what is read from a text has its ranges in it.**
- `Document.IsCellRange`: the bytes of the cell with an identity.
- `Document.isCellRange_of_read`: **an element of a document that was read has the range of
  the cell with its identity**, and that lies within the text.
-/

namespace Netlist.Xml

open Netlist.Text (Span byteLength)

variable {total fuel : Nat} {α β : Type} {rest rest' : List Char}

/-- The ranges of a node and of everything in it end before a byte. -/
inductive Node.Within (total : Nat) : Node → Prop
  | element {name : String} {attributes : List Attribute} {children : List Node} {span : Span}
    (stop : span.stop ≤ total) (inside : ∀ n ∈ children, Within total n) :
    Within total (.element name attributes children span)
  | text {value : String} : Within total (.text value)
  | other : Within total .other

theorem Node.Within.stop_le {n : Node} (h : n.Within total) : n.span.stop ≤ total := by
  cases h with
  | element stop _ => exact stop
  | text => exact Nat.zero_le total
  | other => exact Nat.zero_le total

theorem Node.Within.children {n : Node} (h : n.Within total) : ∀ m ∈ n.children, m.Within total := by
  cases h with
  | element _ inside => exact inside
  | text => exact fun _ hm => absurd hm List.not_mem_nil
  | other => exact fun _ hm => absurd hm List.not_mem_nil

theorem Node.Within.child? {n m : Node} {name : String} (h : n.Within total)
    (hm : n.child? name = some m) : m.Within total :=
  h.children m (List.mem_of_find?_eq_some hm)

namespace Reader

theorem bind_eq_ok {m : Reader α} {next : α → Reader β} {b : β} :
    (m >>= next) rest = .ok (b, rest') ↔ ∃ a after, m rest = .ok (a, after) ∧
      next a after = .ok (b, rest') := by
  show (m rest >>= fun p => next p.1 p.2) = .ok (b, rest') ↔ _
  rw [Netlist.bind_eq_ok, Prod.exists]

theorem pure_eq_ok {a b : α} : (pure a : Reader α) rest = .ok (b, rest') ↔ a = b ∧ rest = rest' := by
  show Except.ok (a, rest) = Except.ok (b, rest') ↔ _
  rw [Except.ok.injEq, Prod.mk.injEq]

/-- What comes after something that is done or not. -/
theorem exists_of_ite {c : Prop} [Decidable c] {m : Reader Unit} {next : Unit → Reader α} {a : α}
    (h : (if c then m >>= next else next ()) rest = .ok (a, rest')) :
    ∃ after, next () after = .ok (a, rest') := by
  split at h
  · obtain ⟨_, after, -, h⟩ := bind_eq_ok.mp h
    exact ⟨after, h⟩
  · exact ⟨rest, h⟩

theorem offset_eq_ok {start : Nat} (h : offset total rest = .ok (start, rest')) : start ≤ total := by
  rw [offset, bind_eq_ok] at h
  obtain ⟨left, after, -, h⟩ := h
  obtain ⟨rfl, -⟩ := pure_eq_ok.mp h
  exact Nat.sub_le total _

/-- An open element with ranges within a text. -/
structure Opened (total : Nat) (o : OpenElement) : Prop where
  start : o.start ≤ total
  inside : ∀ n ∈ o.children, n.Within total

theorem opened_nil {tag : Tag} {start : Nat} (h : start ≤ total) : Opened total ⟨tag, start, []⟩ :=
  ⟨h, fun _ hm => absurd hm List.not_mem_nil⟩

theorem Opened.push {o : OpenElement} {n : Node} (h : Opened total o) (hn : n.Within total) :
    Opened total (o.push n) := by
  refine ⟨?_, fun m hm => ?_⟩
  · cases n with
    | text t =>
      rw [OpenElement.push]
      split <;> exact h.start
    | element => exact h.start
    | other => exact h.start
  · have hkeep : ∀ m ∈ o.children, m.Within total := h.inside
    cases n with
    | text t =>
      rw [OpenElement.push] at hm
      split at hm
      · rename_i s more hchildren
        rcases List.mem_cons.mp hm with rfl | hm
        · exact .text
        · exact hkeep m (hchildren ▸ List.mem_cons_of_mem _ hm)
      · rcases List.mem_cons.mp hm with rfl | hm
        · exact .text
        · exact hkeep m hm
    | element =>
      rcases List.mem_cons.mp hm with rfl | hm
      · exact hn
      · exact hkeep m hm
    | other =>
      rcases List.mem_cons.mp hm with rfl | hm
      · exact hn
      · exact hkeep m hm

theorem Opened.finish {o : OpenElement} {n : Node} (h : Opened total o)
    (hn : OpenElement.finish total o rest = .ok (n, rest')) : n.Within total := by
  rw [OpenElement.finish, bind_eq_ok] at hn
  obtain ⟨stop, after, hstop, hn⟩ := hn
  obtain ⟨rfl, -⟩ := pure_eq_ok.mp hn
  refine .element (Nat.max_le.mpr ⟨h.start, offset_eq_ok hstop⟩) fun m hm => ?_
  exact h.inside m (List.mem_reverse.mp hm)

theorem within_content {o : OpenElement} {outer : List OpenElement} {n : Node}
    (ho : Opened total o) (houter : ∀ p ∈ outer, Opened total p)
    (h : content total fuel o outer rest = .ok (some n, rest')) : n.Within total := by
  induction fuel generalizing o outer rest with
  | zero =>
    cases h
  | succ fuel ih =>
    rw [content, bind_eq_ok] at h
    obtain ⟨left, after, hget, h⟩ := h
    split at h
    · cases h
    · obtain ⟨isComment, after, -, h⟩ := bind_eq_ok.mp h
      split at h
      · obtain ⟨_, after, -, h⟩ := bind_eq_ok.mp h
        exact ih (ho.push .other) houter h
      · obtain ⟨isData, after, -, h⟩ := bind_eq_ok.mp h
        split at h
        · obtain ⟨t, after, -, h⟩ := bind_eq_ok.mp h
          exact ih (ho.push .text) houter h
        · cases h
    · obtain ⟨_, after, -, h⟩ := bind_eq_ok.mp h
      exact ih (ho.push .other) houter h
    · -- An end tag finishes the open element, which goes into the one around it.
      obtain ⟨_, after, -, h⟩ := bind_eq_ok.mp h
      obtain ⟨m, after, hfinish, h⟩ := bind_eq_ok.mp h
      have hm := ho.finish hfinish
      split at h
      · obtain ⟨hsame, -⟩ := pure_eq_ok.mp h
        exact Option.some.inj hsame ▸ hm
      · rename_i p outer
        obtain ⟨hp, houter⟩ := List.forall_mem_cons.mp houter
        exact ih (hp.push hm) houter h
    · cases h
    · -- A start tag opens an element, which is finished at once or becomes the innermost one.
      obtain ⟨start, after, hstart, h⟩ := bind_eq_ok.mp h
      have hopen : ∀ tag, Opened total ⟨tag, start, []⟩ := fun tag => opened_nil (offset_eq_ok hstart)
      obtain ⟨_, after, -, h⟩ := bind_eq_ok.mp h
      obtain ⟨found, after, -, h⟩ := bind_eq_ok.mp h
      split at h
      · obtain ⟨hnone, -⟩ := pure_eq_ok.mp h
        cases hnone
      · rename_i tag
        split at h
        · obtain ⟨m, after, hfinish, h⟩ := bind_eq_ok.mp h
          exact ih (ho.push ((hopen tag).finish hfinish)) houter h
        · exact ih (hopen tag) (List.forall_mem_cons.mpr ⟨ho, houter⟩) h
    · obtain ⟨t, after, -, h⟩ := bind_eq_ok.mp h
      exact ih (ho.push .text) houter h

theorem within_rootElement {n : Node} (h : rootElement total rest = .ok (.complete n, rest')) :
    n.Within total := by
  rw [rootElement, bind_eq_ok] at h
  obtain ⟨isTag, after, -, h⟩ := h
  split at h
  · obtain ⟨hmissing, -⟩ := pure_eq_ok.mp h
    cases hmissing
  obtain ⟨start, after, hstart, h⟩ := bind_eq_ok.mp h
  have hopen : ∀ tag, Opened total ⟨tag, start, []⟩ := fun tag => opened_nil (offset_eq_ok hstart)
  obtain ⟨_, after, -, h⟩ := bind_eq_ok.mp h
  obtain ⟨found, after, -, h⟩ := bind_eq_ok.mp h
  split at h
  · obtain ⟨hmissing, -⟩ := pure_eq_ok.mp h
    cases hmissing
  · rename_i tag
    split at h
    · obtain ⟨m, after, hfinish, h⟩ := bind_eq_ok.mp h
      obtain ⟨hsame, -⟩ := pure_eq_ok.mp h
      cases hsame
      exact (hopen tag).finish hfinish
    · obtain ⟨left, after, -, h⟩ := bind_eq_ok.mp h
      obtain ⟨o, after, hcontent, h⟩ := bind_eq_ok.mp h
      split at h
      · obtain ⟨hunclosed, -⟩ := pure_eq_ok.mp h
        cases hunclosed
      · obtain ⟨hsame, -⟩ := pure_eq_ok.mp h
        cases hsame
        exact within_content (hopen tag) (fun _ hp => absurd hp List.not_mem_nil) hcontent

theorem within_document {n : Node} (h : document total rest = .ok (n, rest')) : n.Within total := by
  rw [document] at h
  obtain ⟨left, after, -, h⟩ := bind_eq_ok.mp h
  obtain ⟨_, after, -, h⟩ := bind_eq_ok.mp h
  dsimp only at h
  obtain ⟨after, h⟩ := exists_of_ite h
  obtain ⟨isDeclared, after, -, h⟩ := bind_eq_ok.mp h
  obtain ⟨after, h⟩ := exists_of_ite h
  obtain ⟨_, after, -, h⟩ := bind_eq_ok.mp h
  obtain ⟨isType, after, -, h⟩ := bind_eq_ok.mp h
  obtain ⟨after, h⟩ := exists_of_ite h
  obtain ⟨root, after, hroot, h⟩ := bind_eq_ok.mp h
  obtain ⟨_, after, -, h⟩ := bind_eq_ok.mp h
  obtain ⟨isOver, after, -, h⟩ := bind_eq_ok.mp h
  obtain ⟨after, h⟩ := exists_of_ite h
  split at h
  · cases h
  · cases h
  · obtain ⟨rfl, -⟩ := pure_eq_ok.mp h
    exact within_rootElement hroot

end Reader

/-- **What is read from a text has its ranges in it.** -/
theorem within_read {source : String} {n : Node} (h : read source = .ok n) :
    n.Within (byteLength source.toList) := by
  rw [read] at h
  split at h
  · rename_i m rest hdocument
    cases h
    exact Reader.within_document hdocument
  · cases h

end Netlist.Xml

namespace Netlist.Document

open Netlist.Text (Span byteLength)

variable {source : String} {top root : Xml.Node} {d : Diagram} {total : Nat}

/-- In a document that is read, the bytes from the `<` to the last `>` of the cell with an
identity. -/
structure IsCellRange (source : String) (id : String) (s : Span) : Prop where
  within : s.stop ≤ byteLength source.toList
  cell : ∃ top root n, Xml.read source = .ok top ∧ cellRoot top = .ok root ∧
    WellFormed root.children ∧ n ∈ cellNodes root.children ∧ n.attribute? "id" = some id ∧ n.span = s

theorem within_cellRoot (h : cellRoot top = .ok root) (htop : top.Within total) :
    root.Within total := by
  rw [cellRoot] at h
  dsimp only at h
  split at h
  · split at h
    · rename_i found hfound
      cases h
      exact htop.child? hfound
    · cases h
  · split at h
    · cases h
    · rename_i page hpage
      split at h
      · rename_i model hmodel
        split at h
        · rename_i found hfound
          cases h
          exact ((htop.child? hpage).child? hmodel).child? hfound
        · cases h
      · split at h <;> cases h
  · cases h

/-- A document that is read is an XML text with a model root. -/
theorem exists_root_of_read (h : read source = .ok d) :
    ∃ top root, Xml.read source = .ok top ∧ cellRoot top = .ok root := by
  rw [read] at h
  split at h
  · rename_i top hxml
    rw [ofTree, bind_eq_ok] at h
    obtain ⟨root, hroot, -⟩ := h
    exact ⟨top, root, hxml, hroot⟩
  · cases h

/-- **An element of a document that was read has the range of the cell with its identity.** -/
theorem isCellRange_of_read (h : read source = .ok d) {i : Slot} {e : Element} {s : Span}
    (he : d.get? i = some e) (hs : e.span = some s) : IsCellRange source e.id s := by
  obtain ⟨top, root, hxml, hroot⟩ := exists_root_of_read h
  have hcells : ofCells root.children = .ok d := read_eq_ofCells hxml hroot ▸ h
  have hdrawn := drawn_of_ofCells hcells
  have hwithin := within_cellRoot hroot (Xml.within_read hxml)
  cases i with
  | zero =>
    cases hdrawn.root.symm.trans he
    cases hs
  | succ k =>
    have hk : k < (cellNodes root.children).length := by
      have hlt := Diagram.lt_bound_of_get? he
      rw [hdrawn.bound] at hlt
      exact Nat.lt_of_succ_lt_succ hlt
    have hn := List.getElem?_eq_getElem hk
    obtain ⟨e', he', hdraws⟩ := hdrawn.cell k _ hn
    obtain rfl : e = e' := Option.some.inj (he.symm.trans he')
    have hmem := List.mem_of_getElem? hn
    have hspan := Option.some.inj (hdraws.span.symm.trans hs)
    refine ⟨?_, top, root, _, hxml, hroot, wellFormed_of_ofCells hcells, hmem, hdraws.id, hspan⟩
    rw [← hspan]
    exact (hwithin.children _ (List.mem_of_mem_filter hmem)).stop_le

end Netlist.Document
