import Netlist.Proofs.Compilation.Stages
import Netlist.Proofs.Diagram.Enclosure
import Netlist.Proofs.Edit.Fails
import Netlist.Proofs.Reconciliation.Outside
import Netlist.Proofs.Topology.Ranking

/-!
# What compiling leaves alone

A compilation can fail at any of its stages, and then it leaves the diagram as far as the
work had come. However far that is, it has only touched what belongs to the network:
labels of its nodes, loose grounds and the ends at them, fields of its links and spotters,
and records of its interfaces.

- `owns`: the field keys of an element that a compilation may write.
- `Rewritten`, `Rewrites`: elements and diagrams before and after reconciling and recording.
- `Leftover`, `Kept`, `Confined`: what may be removed from a diagram by a compilation, what
  may become of the other elements, and both for all slots.
- `compile_confined`: **a compilation is confined to its network**, whichever way it comes
  out, and changes nothing if no network can be extracted.
-/

namespace Netlist

/-- The element without its role and fields. -/
def Element.shell (e : Element) : Element := { e with role := .plain, fields := Fields.empty }

theorem Element.endAt_of_shell {e e' : Element} (h : e'.shell = e.shell) (isSource : Bool) :
    e'.endAt isSource = e.endAt isSource := by
  show e'.shell.endAt isSource = e.shell.endAt isSource
  rw [h]

/-- The last record counts. -/
theorem Role.setRecord_setRecord (a b : InterfaceRecord) (role : Role) :
    (role.setRecord a).setRecord b = role.setRecord b := by
  cases role <;> rfl

/-- A record does not touch the mark. -/
theorem Role.mark?_setRecord (record : InterfaceRecord) (role : Role) :
    (role.setRecord record).mark? = role.mark? := by
  cases role <;> rfl

namespace Compilation

variable {c : Catalog} {switches : Switches} {scope : Slot} {t : Topology} {maps : PortMaps}
  {d d₁ d' : Diagram} {slots : List Slot} {gone : List Slot} {i : Slot}

/-! ## Reconciled and recorded elements -/

/-- The keys that a compilation may write in the fields of an element: of a link or spotter
with a master the positional ones and those of the master, and of an interface the two keys
of its record. -/
def owns (c : Catalog) (role : Role) (key : String) : Bool :=
  (c.masterOf? role).any (fun m => FieldKey.isPositional key || m.fields.contains key) ||
    role.isInterface && (key == Connections.nodeCountField || key == Connections.connectionsField)

theorem owns_setRecord (c : Catalog) (record : InterfaceRecord) (role : Role) :
    owns c (role.setRecord record) = owns c role := by
  cases role <;> rfl

/-- An element before and after reconciling and recording. -/
structure Rewritten (c : Catalog) (e e' : Element) : Prop where
  shell : e'.shell = e.shell
  role : e'.role = e.role ∨ e.role.isInterface = true ∧ ∃ record, e'.role = e.role.setRecord record
  fields : e'.fields.outside (owns c e.role) = e.fields.outside (owns c e.role)

theorem Rewritten.refl (c : Catalog) (e : Element) : Rewritten c e e := ⟨rfl, .inl rfl, rfl⟩

theorem Rewritten.isInterface {e e' : Element} (h : Rewritten c e e') :
    e'.role.isInterface = e.role.isInterface := by
  obtain hrole | ⟨-, record, hrole⟩ := h.role
  · rw [hrole]
  · rw [hrole, Role.isInterface_setRecord]

theorem Rewritten.owns {e e' : Element} (h : Rewritten c e e') :
    owns c e'.role = owns c e.role := by
  obtain hrole | ⟨-, record, hrole⟩ := h.role
  · rw [hrole]
  · rw [hrole, owns_setRecord]

theorem Rewritten.trans {e e₁ e' : Element} (h : Rewritten c e e₁) (h' : Rewritten c e₁ e') :
    Rewritten c e e' where
  shell := h'.shell.trans h.shell
  role := by
    obtain hrole' | ⟨hinterface, record', hrole'⟩ := h'.role
    · rw [hrole']
      exact h.role
    · rw [h.isInterface] at hinterface
      obtain hrole | ⟨-, record, hrole⟩ := h.role
      · exact .inr ⟨hinterface, record', hrole ▸ hrole'⟩
      · refine .inr ⟨hinterface, record', ?_⟩
        rw [hrole', hrole, Role.setRecord_setRecord]
  fields := by rw [← h.owns, h'.fields, h.owns, h.fields]

/-- **Reconciling an element with its master** writes no other keys than its own. -/
theorem rewritten_reconcile {master : Master} {e : Element} (h : c.masterOf? e.role = some master) :
    Rewritten c e { e with fields := (e.fields.reconcile master.fields).2 } := by
  refine ⟨rfl, .inl rfl, Fields.outside_reconcile (fun k hk => ?_) fun k hk => ?_⟩
  · rw [Compilation.owns, h, Option.any_some, hk, Bool.true_or, Bool.true_or]
  · rw [Compilation.owns, h, Option.any_some, hk, Bool.or_true, Bool.true_or]

/-- **Recording an interface** writes no other keys than its own. -/
theorem rewritten_store (record : InterfaceRecord) {e : Element} (h : e.role.isInterface = true) :
    Rewritten c e (Recording.store record e) := by
  have hcount : Compilation.owns c e.role Connections.nodeCountField = true := by
    rw [Compilation.owns, h, beq_self_eq_true, Bool.true_or, Bool.true_and, Bool.or_true]
  have hconnections : Compilation.owns c e.role Connections.connectionsField = true := by
    rw [Compilation.owns, h, beq_self_eq_true, Bool.or_true, Bool.true_and, Bool.or_true]
  exact ⟨rfl, .inr ⟨h, record, rfl⟩,
    (Fields.outside_insert hconnections _).trans (Fields.outside_insert hcount _)⟩

/-! ## Reconciled and recorded diagrams -/

/-- A diagram before and after elements in some slots were reconciled and recorded. -/
structure Rewrites (c : Catalog) (slots : List Slot) (d d' : Diagram) : Prop where
  bound : d'.bound = d.bound
  free : ∀ i, d.get? i = none → d'.get? i = none
  live : ∀ i e, d.get? i = some e → ∃ e', d'.get? i = some e' ∧ Rewritten c e e'
  others : ∀ i ∉ slots, d'.get? i = d.get? i

theorem Rewrites.refl (c : Catalog) (slots : List Slot) (d : Diagram) : Rewrites c slots d d :=
  ⟨rfl, fun _ => id, fun _ e he => ⟨e, he, .refl c e⟩, fun _ _ => rfl⟩

theorem Rewrites.trans (h : Rewrites c slots d d₁) (h' : Rewrites c slots d₁ d') :
    Rewrites c slots d d' where
  bound := h'.bound.trans h.bound
  free i hi := h'.free i (h.free i hi)
  live i e he := by
    obtain ⟨e₁, he₁, hrewritten⟩ := h.live i e he
    obtain ⟨e', he', hrewritten'⟩ := h'.live i e₁ he₁
    exact ⟨e', he', hrewritten.trans hrewritten'⟩
  others i hi := (h'.others i hi).trans (h.others i hi)

theorem rewrites_modify {f : Element → Element} (hi : i ∈ slots)
    (h : ∀ e, d.get? i = some e → Rewritten c e (f e)) : Rewrites c slots d (d.modify i f) where
  bound := Diagram.bound_modify d i f
  free j hj := by
    rw [Diagram.get?_modify, hj]
    split <;> rfl
  live j e he := by
    rw [Diagram.get?_modify, he]
    split
    · rename_i hij
      subst hij
      exact ⟨f e, rfl, h e he⟩
    · exact ⟨e, rfl, .refl c e⟩
  others j hj := by rw [Diagram.get?_modify, if_neg (ne_of_mem_of_not_mem hi hj)]

/-- The slots of a network that are reconciled or recorded. -/
def written (t : Topology) : List Slot := (t.links ++ t.spotters) ++ t.interfaces

/-- The interfaces of a topology are interfaces of a diagram. -/
def Recordable (t : Topology) (d : Diagram) : Prop :=
  ∀ i ∈ t.interfaces, ∀ e, d.get? i = some e → e.role.isInterface = true

/-- What the stages after extraction do to a diagram with the interfaces of the topology. -/
def Revises (c : Catalog) (t : Topology) (d d' : Diagram) : Prop :=
  Recordable t d → Rewrites c (written t) d d'

theorem Revises.refl (d : Diagram) : Revises c t d d := fun _ => .refl c _ d

theorem Rewrites.recordable (h : Rewrites c slots d d') (hd : Recordable t d) : Recordable t d' := by
  intro i hi e' he'
  cases he : d.get? i with
  | none =>
    rw [h.free i he] at he'
    cases he'
  | some e =>
    obtain ⟨e'', he'', hrewritten⟩ := h.live i e he
    obtain rfl : e'' = e' := Option.some.inj (he''.symm.trans he')
    rw [hrewritten.isInterface]
    exact hd i hi e he

theorem Revises.trans (d d₁ d' : Diagram) (h : Revises c t d d₁) (h' : Revises c t d₁ d') :
    Revises c t d d' := fun hd => (h hd).trans (h' ((h hd).recordable hd))

/-! ## The stages after extraction -/

theorem rewritten_inLine (c : Catalog) (e : Element) : Rewritten c e (inLine c e) := by
  rw [inLine]
  split
  · exact .refl c e
  · rename_i master hmaster
    exact rewritten_reconcile hmaster

theorem revises_reconcileOne (hi : i ∈ t.links ++ t.spotters) :
    Edit.Leaves (Revises c t) (reconcileOne c i) := by
  intro d _
  rw [(runs_reconcileOne c i d).2]
  exact rewrites_modify (List.mem_append_left _ hi) fun e _ => rewritten_inLine c e

theorem revises_recordOne (hi : i ∈ t.interfaces) :
    Edit.Leaves (Revises c t) (Recording.recordOne t maps i) := by
  intro d hd
  refine Edit.diagram_bind (.refl c _ d) fun connections d₁ hcheck => ?_
  obtain ⟨-, rfl⟩ := Edit.runs_check.mp hcheck
  refine Edit.diagram_bind (.refl c _ d) fun found d₁ hread => ?_
  obtain ⟨-, rfl⟩ := Edit.runs_read.mp hread
  split
  · exact .refl c _ d
  · exact rewrites_modify (List.mem_append_right _ hi) fun e he => rewritten_store _ (hd i hi e he)

theorem revises_reconcileIf (c : Catalog) (switches : Switches) (t : Topology) :
    Edit.Leaves (Revises c t) (reconcileIf c switches t) := by
  rw [reconcileIf]
  split
  · exact .bind (Edit.leaves_forEach .refl Revises.trans fun _ hi => revises_reconcileOne hi)
      Revises.trans fun _ => Revises.refl
  · exact Revises.refl

theorem revises_record (c : Catalog) (t : Topology) (maps : PortMaps) :
    Edit.Leaves (Revises c t) (Recording.record t maps) :=
  .bind (Edit.leaves_forEach .refl Revises.trans fun _ hi => revises_recordOne hi)
    Revises.trans fun _ => Revises.refl

/-- **A compilation that extracts nothing changes nothing.** -/
theorem diagram_of_extract_error {f : Fault}
    (h : Topology.extract c switches.pruneGrounds scope d = .error f) :
    ((compile c switches scope).run d).diagram = d := by
  rw [compile_eq]
  refine Edit.diagram_bind (P := (· = d)) rfl fun _ d₁ hvalid => ?_
  obtain ⟨-, rfl⟩ := Edit.runs_check.mp hvalid
  refine Edit.diagram_bind (P := (· = d)) (Edit.fails_change.mpr ⟨h, rfl⟩).2 fun t d₁ hextract => ?_
  rw [Edit.runs_change, h] at hextract
  cases hextract

/-- **After extraction a compilation only reconciles and records**, unless the diagram had
a loop. -/
theorem diagram_of_extract_ok
    (h : Topology.extract c switches.pruneGrounds scope d = .ok (t, d₁)) (ht : Recordable t d₁) :
    ((compile c switches scope).run d).diagram = d ∨
      Rewrites c (written t) d₁ ((compile c switches scope).run d).diagram := by
  rw [compile_eq]
  refine Edit.diagram_bind (P := fun d' => d' = d ∨ Rewrites c (written t) d₁ d') (.inl rfl)
    fun _ d₂ hvalid => .inr ?_
  obtain ⟨-, rfl⟩ := Edit.runs_check.mp hvalid
  refine Edit.diagram_bind ?_ fun t' d₂ hextract => ?_
  · rw [(Edit.runs_change.mpr h).2]
    exact .refl c _ d₁
  rw [Edit.runs_change, h, Except.ok.injEq, Prod.mk.injEq] at hextract
  obtain ⟨rfl, rfl⟩ := hextract
  refine (?_ : Edit.Leaves (Revises c t) _) d₁ ht
  refine .bind Revises.refl Revises.trans fun maps => ?_
  refine .bind (revises_reconcileIf c switches t) Revises.trans fun _ => ?_
  refine .bind (revises_record c t maps) Revises.trans fun _ => ?_
  exact .bind Revises.refl Revises.trans fun _ => Revises.refl

/-! ## What a compilation may do -/

/-- A ground of a network that nothing needs: it is outside all interfaces, and no port of
the network ends at it. -/
structure Leftover (d : Diagram) (t : Topology) (i : Slot) : Prop where
  inside : i ∈ d.descendants t.network
  ground : (d.get? i).any Element.isGround = true
  outside : ∀ interface e, d.Encloses interface i → d.get? interface = some e →
    e.role.isInterface = false
  loose : ∀ p ∈ t.ports, ∀ e, d.get? p = some e → e.touches i = false

/-- What may become of an element that is still there after a compilation. Its ends are
cleared where their slots were emptied, and an interface of the network is given a record. -/
structure Kept (c : Catalog) (d : Diagram) (t : Topology) (d' : Diagram) (i : Slot)
    (e e' : Element) : Prop where
  id : e'.id = e.id
  parent : e'.parent = e.parent
  span : e'.span = e.span
  ends : ∀ isSource a, e'.endAt isSource = some a ↔
    e.endAt isSource = some a ∧ (d.isLive a = true → d'.isLive a = true)
  label : e'.label = e.label ∨
    i ∈ d.descendants t.network ∧ ∃ kind, e.role = .node kind ∧ kind ≠ .ground
  role : e'.role = e.role ∨
    i ∈ d.descendants t.network ∧ e.role.isInterface = true ∧
      ∃ record, e'.role = e.role.setRecord record
  mark : e'.role.mark? = e.role.mark?
  fields : e'.fields = e.fields ∨
    i ∈ d.descendants t.network ∧
      (e.role.isLink = true ∨ e.role.isSpotter = true ∨ e.role.isInterface = true) ∧
      e'.fields.outside (owns c e.role) = e.fields.outside (owns c e.role)

/-- A diagram before and after a compilation with a topology. -/
structure Confined (c : Catalog) (d : Diagram) (t : Topology) (d' : Diagram) : Prop where
  bound : d'.bound = d.bound
  free : ∀ i, d.get? i = none → d'.get? i = none
  removed : ∀ i e, d.get? i = some e → d'.get? i = none → Leftover d t i
  kept : ∀ i e e', d.get? i = some e → d'.get? i = some e' → Kept c d t d' i e e'

theorem Confined.refl (c : Catalog) (d : Diagram) (t : Topology) : Confined c d t d where
  bound := rfl
  free _ := id
  removed i e he hi := by
    rw [hi] at he
    cases he
  kept i e e' he he' := by
    obtain rfl : e' = e := Option.some.inj (he'.symm.trans he)
    exact ⟨rfl, rfl, rfl, fun _ _ => (and_iff_left id).symm, .inl rfl, .inl rfl, rfl, .inl rfl⟩

/-- Extraction creates no slots. -/
theorem bound_extract {prune : Bool} (h : Topology.extract c prune scope d = .ok (t, d₁)) :
    d₁.bound = d.bound := by
  obtain ⟨t₀, domain, t₁, d₂, -, -, -, hrenumber, h⟩ := Topology.extract_steps.mp h
  have hlabels : d₂.bound = d.bound := by
    rw [Topology.renumber, bind_eq_ok] at hrenumber
    obtain ⟨labelled, -, hrenumber⟩ := hrenumber
    rw [bind_eq_ok] at hrenumber
    obtain ⟨moved, -, hrenumber⟩ := hrenumber
    cases hrenumber
    exact Topology.bound_relabel _ d
  cases prune with
  | false =>
    cases h
    exact hlabels
  | true =>
    rw [if_pos rfl, Topology.pruneGrounds] at h
    cases h
    exact (Diagram.bound_foldl_remove d₂ _).trans hlabels

/-- What extraction removes is a leftover. -/
theorem leftover_of_gone (h : Topology.Extracts d t d₁ gone) (hi : i ∈ gone) : Leftover d t i := by
  obtain ⟨hground, -⟩ := h.gone_ground i hi
  refine ⟨hground.inside, ?_, fun interface e haround he => ?_, h.gone_free i hi⟩
  · obtain ⟨e, kind, he, hrole, hkind⟩ := hground.exists_kind
    rw [beq_iff_eq] at hkind
    rw [he, Option.any_some, Element.isGround, hrole, hkind, beq_self_eq_true]
  · exact (Diagram.nearestAncestor_eq_none_iff.mp hground.home).2 interface e haround he

/-- What is written belongs to the network. -/
theorem role_of_written (h : Topology.Extracts d t d₁ gone) (hi : i ∈ written t) {e : Element}
    (he : d.get? i = some e) : i ∈ d.descendants t.network ∧
      (e.role.isLink = true ∨ e.role.isSpotter = true ∨ e.role.isInterface = true) := by
  have hrole : ∀ {p : Role → Bool}, i ∈ Topology.withRole d (d.descendants t.network) p →
      i ∈ d.descendants t.network ∧ p e.role = true := by
    intro p hmem
    obtain ⟨hin, e', he', hp⟩ := Topology.mem_withRole.mp hmem
    obtain rfl : e' = e := Option.some.inj (he'.symm.trans he)
    exact ⟨hin, hp⟩
  rw [written, List.mem_append, List.mem_append] at hi
  rcases hi with (hi | hi) | hi
  · exact (hrole (h.links ▸ hi)).imp id .inl
  · exact (hrole (h.spotters ▸ hi)).imp id fun hp => .inr (.inl hp)
  · exact (hrole (h.interfaces ▸ hi)).imp id fun hp => .inr (.inr hp)

/-- Extraction keeps all of an element but its label and its ends at what is removed. -/
theorem exists_of_extracts (h : Topology.Extracts d t d₁ gone) {e : Element}
    (he : d.get? i = some e) (hi : i ∉ gone) : ∃ label,
      d₁.get? i = some ({ e with label := label }.detachAll gone) ∧
        (label = e.label ∨ i ∈ d.descendants t.network ∧ ∃ kind, e.role = .node kind ∧ kind ≠ .ground) := by
  by_cases hmoves : Topology.Moves d t i
  · obtain ⟨e', x, he', -, -, -, hget⟩ := h.moved i hmoves
    obtain rfl : e' = e := Option.some.inj (he'.symm.trans he)
    refine ⟨_, hget, .inr ?_⟩
    obtain ⟨home, p, ⟨hin, hp⟩ | ⟨hin, hground⟩⟩ := h.nodeKind_of_moves hmoves
    · obtain ⟨e'', kind, he'', hrole, hkind⟩ := hin.exists_kind
      obtain rfl : e'' = e' := Option.some.inj (he''.symm.trans he)
      refine ⟨hin.inside, kind, hrole, ?_⟩
      rintro rfl
      rw [hp] at hkind
      cases hkind
    · obtain ⟨e'', kind, he'', hrole, hkind⟩ := hin.exists_kind
      obtain rfl : e'' = e' := Option.some.inj (he''.symm.trans he)
      refine ⟨hin.inside, kind, hrole, ?_⟩
      rintro rfl
      rw [he, Option.any_some, Element.isGround, hrole, beq_self_eq_true] at hground
      cases hground
  · exact ⟨e.label, by rw [h.kept i hi hmoves, he]; rfl, .inl rfl⟩

/-- The interfaces of a topology are still interfaces after extraction. -/
theorem recordable_of_extracts (h : Topology.Extracts d t d₁ gone) : Recordable t d₁ := by
  intro i hi e₁ he₁
  obtain ⟨-, e, he, hinterface⟩ := Topology.mem_withRole.mp (h.interfaces ▸ hi)
  have hnode := Role.nodeKind?_of_isInterface hinterface
  rw [h.get?_of_not_node he hnode, Option.some.injEq] at he₁
  rw [← he₁, Element.role_detachAll]
  exact hinterface

/-- An element of the network that was relabelled, detached and rewritten. -/
theorem kept_of_rewritten (h : Topology.Extracts d t d₁ gone) {e e' : Element} {label : String}
    (he : d.get? i = some e)
    (hlabel : label = e.label ∨
      i ∈ d.descendants t.network ∧ ∃ kind, e.role = .node kind ∧ kind ≠ .ground)
    (hrewritten : Rewritten c ({ e with label := label }.detachAll gone) e')
    (hothers : i ∉ written t → e' = { e with label := label }.detachAll gone)
    (hgone : ∀ a, a ∉ gone ↔ (d.isLive a = true → d'.isLive a = true)) :
    Kept c d t d' i e e' := by
  have hrole := hrewritten.role
  have hfields := hrewritten.fields
  rw [Element.role_detachAll] at hrole hfields
  rw [Element.fields_detachAll] at hfields
  -- Outside of what is written only the ends at removed grounds are lost.
  exact {
    id := (congrArg Element.id hrewritten.shell).trans (Element.id_detachAll gone _)
    parent := (congrArg Element.parent hrewritten.shell).trans (Element.parent_detachAll gone _)
    span := (congrArg Element.span hrewritten.shell).trans (Element.span_detachAll gone _)
    ends := fun isSource a => by
      rw [Element.endAt_of_shell hrewritten.shell, Element.endAt_detachAll, hgone]
      rfl
    label := by
      have hsame : e'.label = label :=
        (congrArg Element.label hrewritten.shell).trans (Element.label_detachAll gone _)
      rw [hsame]
      exact hlabel
    role := by
      obtain hsame | ⟨hinterface, hrecord⟩ := hrole
      · exact .inl hsame
      · by_cases hi : i ∈ written t
        · exact .inr ⟨(role_of_written h hi he).1, hinterface, hrecord⟩
        · rw [hothers hi, Element.role_detachAll]
          exact .inl rfl
    mark := by
      obtain hsame | ⟨-, record, hsame⟩ := hrole
      · rw [hsame]
      · rw [hsame, Role.mark?_setRecord]
    fields := by
      by_cases hi : i ∈ written t
      · obtain ⟨hin, hkind⟩ := role_of_written h hi he
        exact .inr ⟨hin, hkind, hfields⟩
      · rw [hothers hi, Element.fields_detachAll]
        exact .inl rfl }

/-- **Extraction, reconciling and recording stay within the network.** -/
theorem confined_of_rewrites (h : Topology.Extracts d t d₁ gone) (hbound : d₁.bound = d.bound)
    (hrewrites : Rewrites c (written t) d₁ d') : Confined c d t d' := by
  have hfree : ∀ i, d.get? i = none → d₁.get? i = none := by
    intro i hi
    by_cases hmoves : Topology.Moves d t i
    · obtain ⟨e, -, he, -⟩ := h.moved i hmoves
      rw [hi] at he
      cases he
    · by_cases hgone : i ∈ gone
      · exact h.removed i hgone
      · rw [h.kept i hgone hmoves, hi, Option.map_none]
  -- Only the grounds that extraction removes are gone in the end.
  have hgone : ∀ i, i ∈ gone ↔ d.isLive i = true ∧ d'.get? i = none := by
    intro i
    constructor
    · intro hi
      obtain ⟨e, kind, he, -⟩ := (h.gone_ground i hi).1.exists_kind
      exact ⟨by rw [Diagram.isLive, he]; rfl, hrewrites.free i (h.removed i hi)⟩
    · rintro ⟨hlive, hnone⟩
      by_contra hi
      obtain ⟨e, he⟩ := Option.isSome_iff_exists.mp hlive
      obtain ⟨label, he₁, -⟩ := exists_of_extracts h he hi
      obtain ⟨e', he', -⟩ := hrewrites.live i _ he₁
      rw [hnone] at he'
      cases he'
  refine ⟨hrewrites.bound.trans hbound, fun i hi => hrewrites.free i (hfree i hi),
    fun i e he hi => ?_, fun i e e' he he' => ?_⟩
  · exact leftover_of_gone h ((hgone i).mpr ⟨by rw [Diagram.isLive, he]; rfl, hi⟩)
  have hi : i ∉ gone := fun hmem => by
    rw [((hgone i).mp hmem).2] at he'
    cases he'
  obtain ⟨label, he₁, hlabel⟩ := exists_of_extracts h he hi
  obtain ⟨e'', he'', hrewritten⟩ := hrewrites.live i _ he₁
  obtain rfl : e'' = e' := Option.some.inj (he''.symm.trans he')
  refine kept_of_rewritten h he hlabel hrewritten (fun hnot => ?_) fun a => ?_
  · rw [hrewrites.others i hnot, he₁, Option.some.injEq] at he'
    exact he'.symm
  · rw [hgone, not_and]
    exact imp_congr_right fun _ => Option.isSome_iff_ne_none.symm

/-- **A compilation is confined to its network**, whether it succeeds or fails. If no network
can be extracted from the scope, it changes nothing at all. -/
theorem compile_confined (c : Catalog) (switches : Switches) (scope : Slot) (d : Diagram) :
    match Topology.extract c switches.pruneGrounds scope d with
    | .error _ => ((compile c switches scope).run d).diagram = d
    | .ok (t, _) => Confined c d t ((compile c switches scope).run d).diagram := by
  split
  · rename_i f hextract
    exact diagram_of_extract_error hextract
  · rename_i t d₁ hextract
    obtain ⟨-, gone, hextracts⟩ := Topology.extract_eq_ok hextract
    obtain hsame | hrewrites := diagram_of_extract_ok hextract (recordable_of_extracts hextracts)
    · rw [hsame]
      exact .refl c d t
    · exact confined_of_rewrites hextracts (bound_extract hextract) hrewrites

end Compilation

end Netlist
