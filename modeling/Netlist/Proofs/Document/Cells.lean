import Mathlib.Data.List.Forall2
import Netlist.Document.Cell
import Netlist.Proofs.Edit.Runs

/-!
# What a cell says

A cell is written on one XML node or on two: an object carries identity, label and fields
itself, and what places it in the drawing is on its inner cell, if it has one. Here is what
the nodes say, and that this is what is read.

- `Denotes`: the role that a tag names.
- `Says`: the cell that a node describes.
- `role_eq_ok`, `ofParts_eq_ok`: one tag and one cell are read as they are written.
- `readAll_eq_ok`: **all cells are read, if each of them says something.**
-/

namespace Netlist.Cell

open Netlist.Text (Span)

variable {n m : Xml.Node} {nodes : List Xml.Node} {fs : Fields} {r r' : Role} {c : Cell}
  {cells : List Cell}

/-! ## What is written -/

/-- Whether a node is an object. -/
def isObject (n : Xml.Node) : Bool := n.name? == some "object" || n.name? == some "UserObject"

/-- Whether a child of the model root is a cell. -/
def isCell (n : Xml.Node) : Bool := n.name? == some "mxCell" || isObject n

/-- The node that places a cell in the drawing: the inner cell of an object that has one. -/
def inner (n : Xml.Node) : Xml.Node := if isObject n then (n.child? "mxCell").getD n else n

/-- The label of a cell. -/
def labelText (n : Xml.Node) : String :=
  (n.attribute? (if isObject n then "label" else "value")).getD ""

/-- The data fields of a cell; only objects have some. -/
def dataFields (n : Xml.Node) : Fields := if isObject n then fields n else Fields.empty

/-- The tag of a cell; only objects have one. -/
def tag? (n : Xml.Node) : Option Xml.Node := if isObject n then n.child? "tag" else none

/-- The shape that a tag names; it has a subtype. -/
structure NamesShape (tag : Xml.Node) (s : Shape) : Prop where
  subtype : tag.attribute? "subtype" = some s.subtype
  nonempty : s.subtype ≠ ""
  shapeClass : s.shapeClass = (tag.attribute? "class").map fun name => ⟨name, tag.attribute? "variant"⟩

/-- The fields of a super-port: all four are there, the last two with numbers. -/
structure NamesSuperPort (fs : Fields) (b : SuperPort) : Prop where
  subnet : fs.get? SuperPort.subnetField = some b.subnet
  link : fs.get? SuperPort.linkField = some b.link
  port : ∃ text, fs.get? SuperPort.portField = some text ∧
    Text.readNatural Text.countLimit (Text.trim text) = .ok b.port
  node : ∃ text, fs.get? SuperPort.nodeField = some text ∧
    Text.readNatural Text.nodeLimit (Text.trim text) = .ok b.node

/-- The role that a tag names: its type is known, and so is its subtype, if it has to be. -/
inductive Denotes (tag : Xml.Node) (fs : Fields) : Role → Prop
  | node (kind : NodeKind) (type : tag.attribute? "type" = some "Node")
      (subtype : tag.attribute? "subtype" = some kind.name) : Denotes tag fs (.node kind)
  | link (shape : Shape) (type : tag.attribute? "type" = some "Link")
      (named : NamesShape tag shape) : Denotes tag fs (.link shape)
  | spotter (shape : Shape) (type : tag.attribute? "type" = some "Spotter")
      (named : NamesShape tag shape) : Denotes tag fs (.spotter shape)
  | port (type : tag.attribute? "type" = some "Port") : Denotes tag fs .port
  | sub (type : tag.attribute? "type" = some "Network")
      (subtype : tag.attribute? "subtype" = some "Sub") : Denotes tag fs (.network .sub)
  | super (type : tag.attribute? "type" = some "Network")
      (subtype : tag.attribute? "subtype" = some "Super") : Denotes tag fs (.network .super)
  | connector (type : tag.attribute? "type" = some "Network")
      (subtype : tag.attribute? "subtype" = some "Connector") : Denotes tag fs .connector
  | interface (record : Option InterfaceRecord) (type : tag.attribute? "type" = some "Network")
      (subtype : tag.attribute? "subtype" = some "Subnet-Interface")
      (readable : Connections.readRecord (fs.get? Connections.nodeCountField)
        (fs.get? Connections.connectionsField) = .ok record) :
      Denotes tag fs (.interface ⟨record, none⟩)
  | superPort (binding : SuperPort) (type : tag.attribute? "type" = some "Network")
      (subtype : tag.attribute? "subtype" = some "Super-Port")
      (readable : NamesSuperPort fs binding) : Denotes tag fs (.superPort binding)

/-- The role of a cell: what its tag names, or none. -/
def Plays (n : Xml.Node) (r : Role) : Prop :=
  match tag? n with
  | some tag => Denotes tag (dataFields n) r
  | none => r = .plain

/-- Whether a cell in a role is drawn as an edge. -/
def IsDrawnAsEdge (n : Xml.Node) (r : Role) : Prop :=
  (inner n).attribute? "edge" = some "1" ∨ r = .port ∨ r = .connector

/-- Whether a cell has a source or a target. -/
def HasEnd (n : Xml.Node) : Prop :=
  (inner n).attribute? "source" ≠ none ∨ (inner n).attribute? "target" ≠ none

/-- The cell on a node, given its identity and its role. -/
def written (n : Xml.Node) (id : String) (r : Role) : Cell where
  element :=
    { id, role := r, label := labelText n, fields := dataFields n, span := some n.span }
  span := n.span
  parent := (inner n).attribute? "parent"
  source := (inner n).attribute? "source"
  target := (inner n).attribute? "target"

/-- A node describes a cell: it has an identity and a role, and an end if it is an edge. -/
inductive Says (n : Xml.Node) : Cell → Prop
  | intro (id : String) (r : Role) (identity : n.attribute? "id" = some id) (role : Plays n r)
      (ends : IsDrawnAsEdge n r → HasEnd n) : Says n (written n id r)

/-! ## What is read -/

theorem parts?_of_isCell (h : isCell n = true) :
    parts? n = some ⟨inner n, labelText n, dataFields n, tag? n⟩ := by
  unfold isCell isObject at h
  simp only [Bool.or_eq_true, beq_iff_eq] at h
  unfold parts? inner labelText dataFields tag? isObject
  rcases h with h | h | h <;> rw [h] <;> rfl

theorem parts?_of_not_isCell (h : isCell n = false) : parts? n = none := by
  unfold isCell isObject at h
  simp only [Bool.or_eq_false_iff, beq_eq_false_iff_ne] at h
  unfold parts?
  split
  · exact absurd ‹_› h.1
  · exact absurd ‹_› h.2.1
  · exact absurd ‹_› h.2.2
  · rfl

theorem attribute?_of_getD {name text : String} (h : (n.attribute? name).getD "" = text)
    (hne : text ≠ "") : n.attribute? name = some text := by
  cases hget : n.attribute? name with
  | none =>
    rw [hget] at h
    exact absurd h.symm hne
  | some value =>
    rw [hget] at h
    rw [show value = text from h]

theorem shape?_eq_some {tag : Xml.Node} {s : Shape} : shape? tag = some s ↔ NamesShape tag s := by
  unfold shape?
  constructor
  · intro h
    dsimp only at h
    split at h
    · cases h
    · rename_i hne
      cases h
      have hne : (tag.attribute? "subtype").getD "" ≠ "" := by simpa using hne
      exact ⟨attribute?_of_getD rfl hne, hne, rfl⟩
  · rintro ⟨hsubtype, hne, hclass⟩
    obtain ⟨subtype, shapeClass⟩ := s
    rw [hsubtype, Option.getD_some, if_neg (by simpa using hne), ← hclass]

theorem superPort_eq_ok {b : SuperPort} : superPort fs = .ok b ↔ NamesSuperPort fs b := by
  have hrequired : ∀ {field value}, required fs field = .ok value ↔ fs.get? field = some value := by
    intro field value
    unfold required
    cases fs.get? field <;> simp
  have hnumber : ∀ {field limit k}, number fs field limit = .ok k ↔
      ∃ text, fs.get? field = some text ∧ Text.readNatural limit (Text.trim text) = .ok k := by
    intro field limit k
    unfold number
    rw [bind_eq_ok]
    refine exists_congr fun text => and_congr hrequired ?_
    cases Text.readNatural limit (Text.trim text) <;> simp
  unfold superPort
  simp only [bind_eq_ok, hrequired, hnumber]
  constructor
  · rintro ⟨subnet, hsubnet, link, hlink, port, hport, node, hnode, h⟩
    cases h
    exact ⟨hsubnet, hlink, hport, hnode⟩
  · rintro ⟨hsubnet, hlink, hport, hnode⟩
    exact ⟨b.subnet, hsubnet, b.link, hlink, b.port, hport, b.node, hnode, rfl⟩

theorem ofName?_eq_some {name : String} {kind : NodeKind} :
    NodeKind.ofName? name = some kind ↔ name = kind.name := by
  constructor
  · intro h
    unfold NodeKind.ofName? at h
    split at h <;> cases h <;> rfl
  · rintro rfl
    exact NodeKind.ofName?_name kind

theorem interface_eq_ok {payload : Interface} : Cell.interface fs = .ok payload ↔
    ∃ record, Connections.readRecord (fs.get? Connections.nodeCountField)
      (fs.get? Connections.connectionsField) = .ok record ∧ payload = ⟨record, none⟩ := by
  unfold Cell.interface
  cases Connections.readRecord (fs.get? Connections.nodeCountField)
    (fs.get? Connections.connectionsField) <;> simp [eq_comm]

/-- What is read off a tag is what it names. -/
theorem denotes_of_role {id : String} {tag : Xml.Node} {span : Span}
    (h : role id tag fs span = .ok r) : Denotes tag fs r := by
  unfold role at h
  dsimp only at h
  split at h
  · rename_i htype
    split at h <;> cases h
    rename_i kind hkind
    have hname := ofName?_eq_some.mp hkind
    exact .node kind (attribute?_of_getD htype (by decide))
      (attribute?_of_getD hname (by cases kind <;> decide))
  · rename_i htype
    split at h <;> cases h
    exact .link _ (attribute?_of_getD htype (by decide)) (shape?_eq_some.mp ‹_›)
  · rename_i htype
    split at h <;> cases h
    exact .spotter _ (attribute?_of_getD htype (by decide)) (shape?_eq_some.mp ‹_›)
  · rename_i htype
    cases h
    exact .port (attribute?_of_getD htype (by decide))
  · rename_i htype
    have htype := attribute?_of_getD htype (by decide)
    split at h
    · rename_i hsubtype
      cases h
      exact .sub htype (attribute?_of_getD hsubtype (by decide))
    · rename_i hsubtype
      cases h
      exact .super htype (attribute?_of_getD hsubtype (by decide))
    · rename_i hsubtype
      split at h <;> cases h
      obtain ⟨record, hrecord, rfl⟩ := interface_eq_ok.mp ‹_›
      exact .interface record htype (attribute?_of_getD hsubtype (by decide)) hrecord
    · rename_i hsubtype
      cases h
      exact .connector htype (attribute?_of_getD hsubtype (by decide))
    · rename_i hsubtype
      split at h <;> cases h
      exact .superPort _ htype (attribute?_of_getD hsubtype (by decide)) (superPort_eq_ok.mp ‹_›)
    · cases h
  · cases h

/-- What a tag names is read off it. -/
theorem role_of_denotes {id : String} {tag : Xml.Node} {span : Span} (h : Denotes tag fs r) :
    role id tag fs span = .ok r := by
  unfold role
  cases h with
  | node kind htype hsubtype =>
    rw [htype, hsubtype]
    simp [NodeKind.ofName?_name]
  | link shape htype hnamed =>
    rw [htype, shape?_eq_some.mpr hnamed]
    rfl
  | spotter shape htype hnamed =>
    rw [htype, shape?_eq_some.mpr hnamed]
    rfl
  | port htype =>
    rw [htype]
    rfl
  | sub htype hsubtype =>
    rw [htype, hsubtype]
    rfl
  | super htype hsubtype =>
    rw [htype, hsubtype]
    rfl
  | connector htype hsubtype =>
    rw [htype, hsubtype]
    rfl
  | interface record htype hsubtype hreadable =>
    rw [htype, hsubtype]
    simp [interface_eq_ok.mpr ⟨record, hreadable, rfl⟩]
  | superPort binding htype hsubtype hreadable =>
    rw [htype, hsubtype]
    simp [superPort_eq_ok.mpr hreadable]

/-- **A tag is read as the role that it names.** -/
theorem role_eq_ok {id : String} {tag : Xml.Node} {span : Span} :
    role id tag fs span = .ok r ↔ Denotes tag fs r := ⟨denotes_of_role, role_of_denotes⟩

/-- A tag names one role. -/
theorem Denotes.unique {tag : Xml.Node} (h : Denotes tag fs r) (h' : Denotes tag fs r') : r = r' := by
  have hr : role "" tag fs (Span.of 0 0) = .ok r := role_of_denotes h
  rw [role_of_denotes h'] at hr
  exact (Except.ok.inj hr).symm

/-- A cell plays one role. -/
theorem Plays.unique (h : Plays n r) (h' : Plays n r') : r = r' := by
  unfold Plays at h h'
  cases htag : tag? n with
  | none =>
    rw [htag] at h h'
    rw [h, h']
  | some tag =>
    rw [htag] at h h'
    exact h.unique h'

theorem isDrawnAsEdge_iff :
    ((inner n).attribute? "edge" == some "1" || r.isEdge) = true ↔ IsDrawnAsEdge n r := by
  unfold IsDrawnAsEdge
  rw [Bool.or_eq_true, beq_iff_eq]
  refine or_congr_right ?_
  cases r <;> simp [Role.isEdge]

/-- An edge is refused if it has neither a source nor a target. -/
theorem isMissingEnds_iff :
    (((inner n).attribute? "edge" == some "1" || r.isEdge) &&
      ((inner n).attribute? "source").isNone && ((inner n).attribute? "target").isNone) = true ↔
    ¬ (IsDrawnAsEdge n r → HasEnd n) := by
  rw [Bool.and_eq_true, Bool.and_eq_true, isDrawnAsEdge_iff, Option.isNone_iff_eq_none,
    Option.isNone_iff_eq_none, Classical.not_imp, HasEnd, not_or, not_not, not_not, and_assoc]

theorem says_iff : Says n c ↔ ∃ id, n.attribute? "id" = some id ∧ ∃ r, Plays n r ∧
    (IsDrawnAsEdge n r → HasEnd n) ∧ c = written n id r := by
  constructor
  · rintro ⟨id, r, hidentity, hplays, hends⟩
    exact ⟨id, hidentity, r, hplays, hends, rfl⟩
  · rintro ⟨id, hidentity, r, hplays, hends, rfl⟩
    exact .intro id r hidentity hplays hends

/-- **A cell is read as it is written.** -/
theorem ofParts_eq_ok :
    ofParts n ⟨inner n, labelText n, dataFields n, tag? n⟩ = .ok c ↔ Says n c := by
  unfold ofParts
  rw [says_iff]
  cases hid : n.attribute? "id" with
  | none => exact iff_of_false (fun h => nomatch h) fun ⟨id, h, _⟩ => nomatch h
  | some id =>
    have hends : ∀ r : Role, (if ((inner n).attribute? "edge" == some "1" || r.isEdge) &&
          ((inner n).attribute? "source").isNone && ((inner n).attribute? "target").isNone then
          .error (.edgeWithoutEndpoints id n.span)
        else .ok (written n id r)) = (Except.ok c : Except Defect Cell) ↔
        (IsDrawnAsEdge n r → HasEnd n) ∧ c = written n id r := by
      intro r
      split
      · rename_i hmissing
        exact iff_of_false (fun h => nomatch h) fun ⟨hends, _⟩ =>
          isMissingEnds_iff.mp hmissing hends
      · rename_i hthere
        exact ⟨fun h => ⟨not_not.mp (mt isMissingEnds_iff.mpr hthere), (Except.ok.inj h).symm⟩,
          fun h => congrArg Except.ok h.2.symm⟩
    simp only [Option.some.injEq, exists_eq_left']
    unfold Plays
    cases tag? n with
    | none =>
      refine (hends .plain).trans ⟨fun h => ⟨_, rfl, h⟩, ?_⟩
      rintro ⟨r, rfl, h⟩
      exact h
    | some tag =>
      refine bind_eq_ok.trans (exists_congr fun r => ?_)
      exact and_congr role_eq_ok (hends r)

/-- **All cells are read, in order, if each of them says something.** -/
theorem readAll_eq_ok : readAll nodes = .ok cells ↔ List.Forall₂ Says (nodes.filter isCell) cells := by
  induction nodes generalizing cells with
  | nil =>
    rw [readAll, List.filter_nil, List.forall₂_nil_left_iff]
    exact ⟨fun h => (Except.ok.inj h).symm, fun h => congrArg Except.ok h.symm⟩
  | cons n nodes ih =>
    rw [readAll]
    cases hcell : isCell n with
    | false =>
      rw [parts?_of_not_isCell hcell, List.filter_cons_of_neg (by simpa using hcell)]
      exact ih
    | true =>
      rw [parts?_of_isCell hcell, List.filter_cons_of_pos hcell, List.forall₂_cons_left_iff]
      simp only [bind_eq_ok, ofParts_eq_ok, ih]
      constructor
      · rintro ⟨c, hc, rest, hrest, h⟩
        cases h
        exact ⟨c, rest, hc, hrest, rfl⟩
      · rintro ⟨c, rest, hc, hrest, rfl⟩
        exact ⟨c, hc, rest, hrest, rfl⟩

end Netlist.Cell
