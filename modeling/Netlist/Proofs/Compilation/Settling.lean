import Netlist.Proofs.Compilation.Interfaces
import Netlist.Proofs.PortMap.Congruence
import Netlist.Proofs.Reconciliation.Again

/-!
# What a compilation settles

A compilation writes fields into the masters' instances, and records into the interfaces.
Written once, they are as they should be: reconciling and recording again change nothing.
What port maps are built from is not written at all.

- `Settled`, `reconcile_settles`, `reconcile_of_settled`: reconciling once settles the fields.
- `record_again`: recording again gives the same entries.
- `Stages.sameView`: **port maps are built from the same before and after.**
-/

namespace Netlist.Compilation

open Diagram (root)
open Netlist.Topology (withRole)

variable {c : Catalog} {prune : Bool} {scope : Slot} {d d₁ d₂ d' : Diagram} {r : Compilation}
  {maps : PortMaps} {gone : List Slot} {i : Slot} {t : Topology}

/-! ## Reconciling again -/

/-- The fields of an element fit its master, if it has one. -/
def Settled (c : Catalog) (d : Diagram) (i : Slot) : Prop :=
  ∀ e master, d.get? i = some e → c.masterOf? e.role = some master → e.fields.Fits master.fields

/-- An element in line fits its master. -/
theorem fits_inLine {e : Element} {master : Master} (h : c.masterOf? (inLine c e).role = some master) :
    (inLine c e).fields.Fits master.fields := by
  rw [role_inLine] at h
  rw [inLine_of_master h]
  exact Fields.fits_reconcile e.fields master.fields

/-- An element that fits its master is in line. -/
theorem inLine_of_fits {e : Element}
    (h : ∀ master, c.masterOf? e.role = some master → e.fields.Fits master.fields) :
    inLine c e = e := by
  cases hmaster : c.masterOf? e.role with
  | none => exact inLine_of_none hmaster
  | some master => rw [inLine_of_master hmaster, Fields.reconcile_of_fits (h master hmaster)]

/-- **After reconciling the fields of the listed elements are settled.** -/
theorem reconcile_settles {slots : List Slot} {r : Reconciliation}
    (h : Edit.Runs (reconcile c slots) d r d') : ∀ i ∈ slots, Settled c d' i := by
  intro i hi e' master he' hmaster
  rw [(logs_of_runs h).listed i hi, Option.map_eq_some_iff] at he'
  obtain ⟨e, -, rfl⟩ := he'
  exact fits_inLine hmaster

/-- **Reconciling settled fields changes nothing.** -/
theorem reconcile_of_settled {slots : List Slot} (h : ∀ i ∈ slots, Settled c d i) :
    ∃ r, Edit.Runs (reconcile c slots) d r d ∧ r.reports = [] := by
  have hline : ∀ i ∈ slots, ∀ e, d.get? i = some e → inLine c e = e :=
    fun i hi e he => inLine_of_fits fun master hmaster => h i hi e master he hmaster
  obtain ⟨r, d', hruns, hlogs⟩ := reconcile_runs c slots d
  have hsame : d' = d := by
    refine Diagram.ext_get? hlogs.bound fun i => ?_
    by_cases hi : i ∈ slots
    · rw [hlogs.listed i hi]
      exact (Option.map_congr (hline i hi)).trans Option.map_id'
    · exact hlogs.others i hi
  refine ⟨r, hsame ▸ hruns, ?_⟩
  rw [hlogs.reports, List.filterMap_eq_nil_iff]
  intro e hmem
  obtain ⟨i, hi, he⟩ := List.mem_filterMap.mp hmem
  rw [← hline i (List.mem_eraseDups.mp hi) e he, reportOn?_inLine]

/-! ## Recording again -/

theorem store_store (record : InterfaceRecord) (e : Element) :
    Recording.store record (Recording.store record e) = Recording.store record e := by
  have hcount : (Recording.store record e).fields.get? Connections.nodeCountField =
      some (toString record.nodeCount) := by
    show ((e.fields.insert _ _).insert _ _).get? _ = _
    rw [Fields.get?_insert_of_ne (by decide), Fields.get?_insert_self]
  have hconnections : (Recording.store record e).fields.get? Connections.connectionsField =
      some (Connections.render record.connections) := Fields.get?_insert_self _ _ _
  have hrole : (Recording.store record e).role.setRecord record = (Recording.store record e).role := by
    show (e.role.setRecord record).setRecord record = e.role.setRecord record
    cases e.role <;> rfl
  generalize Recording.store record e = stored at hcount hconnections hrole
  rw [Recording.store, Fields.insert_of_get? hcount, Fields.insert_of_get? hconnections, hrole]

/-- **Recording again gives the same entries and changes nothing.** -/
theorem record_again {entries : List InterfaceEntry}
    (hrecorded : List.Forall₂ (Recording.Recorded t maps d d') t.interfaces entries)
    (hsame : ∀ i, Recording.connections maps d' (Recording.bindingsOf maps i) =
      Recording.connections maps d (Recording.bindingsOf maps i)) :
    Edit.Runs (Recording.record t maps) d' entries d' := by
  have hloop : Edit.Runs (Edit.forEach (Recording.recordOne t maps) t.interfaces) d'
      (entries.map some) d' := by
    generalize t.interfaces = interfaces at hrecorded
    induction hrecorded with
    | nil => exact Edit.runs_forEach_nil.mpr ⟨rfl, rfl⟩
    | @cons i entry interfaces entries hone _ ih =>
      obtain ⟨e, found, he, hfound, rfl, hget⟩ := hone
      refine Edit.runs_forEach_cons.mpr ⟨_, d', _, ?_, ih, rfl⟩
      have hruns := Recording.recordOne_runs (t := t) ((hsame i).trans hfound) hget
      rw [Diagram.modify_of_eq fun e' he' => ?_] at hruns
      · exact hruns
      · rw [hget] at he'
        cases he'
        exact store_store _ e
  rw [Recording.record]
  refine Edit.runs_bind.mpr ⟨entries.map some, d', hloop, Edit.runs_pure.mpr ⟨?_, rfl⟩⟩
  simp [List.filterMap_map]

/-! ## What port maps see -/

theorem sameDrawn_of_bare {e e' : Element} (h : e'.bare = e.bare) : PortMap.SameDrawn e e' where
  locator := by
    show e'.bare.locator = e.bare.locator
    rw [h]
  source := by
    show e'.bare.source = e.bare.source
    rw [h]
  target := by
    show e'.bare.target = e.bare.target
    rw [h]
  ground := by rw [Element.isGround, Element.isGround, Element.role_of_bare h]
  master := fun c => by rw [Element.role_of_bare h]

theorem sameDrawn_store (record : InterfaceRecord) (e : Element) :
    PortMap.SameDrawn e (Recording.store record e) where
  locator := rfl
  source := rfl
  target := rfl
  ground := by
    show ((e.role.setRecord record) == .node .ground) = (e.role == .node .ground)
    cases e.role <;> rfl
  master := by
    intro c
    show c.masterOf? (e.role.setRecord record) = c.masterOf? e.role
    cases e.role <;> rfl

theorem sameDrawn_trans {e e₁ e₂ : Element} (h : PortMap.SameDrawn e e₁)
    (h' : PortMap.SameDrawn e₁ e₂) : PortMap.SameDrawn e e₂ :=
  ⟨h'.locator.trans h.locator, h'.source.trans h.source, h'.target.trans h.target,
    h'.ground.trans h.ground, fun c => (h'.master c).trans (h.master c)⟩

/-- What is no part with fields is the same after extraction and in the end. -/
theorem Stages.get?_of_node (h : Stages c prune scope d d₁ d₂ d' r maps gone) {e : Element}
    (he : d₁.get? i = some e) (hnode : e.role.nodeKind?.isSome = true) : d'.get? i = some e := by
  have hnot : ∀ {f : Role → Bool}, (∀ role, f role = true → role.nodeKind? = none) →
      i ∉ withRole d (d.descendants r.topology.network) f := by
    intro f hf hmem
    obtain ⟨-, e₀, he₀, hrole⟩ := Topology.mem_withRole.mp hmem
    have hget := h.extracts.get?_of_not_node he₀ (hf _ hrole)
    rw [he] at hget
    cases hget
    rw [Element.role_detachAll, hf _ hrole] at hnode
    cases hnode
  rw [h.others, h.reconciled.2, he]
  · rw [List.mem_append, not_or, h.extracts.links, h.extracts.spotters]
    refine ⟨hnot fun role hrole => ?_, hnot fun role hrole => ?_⟩
    · cases role <;> first | rfl | cases hrole
    · cases role <;> first | rfl | cases hrole
  · rw [h.extracts.interfaces]
    exact hnot fun role hrole => Role.nodeKind?_of_isInterface hrole

/-- **Port maps see the same after extraction and in the end.** -/
theorem Stages.sameView (h : Stages c prune scope d d₁ d₂ d' r maps gone) :
    PortMap.SameView r.topology d₁ d' where
  elements := by
    intro i
    have hbare := h.reconciled.1 i
    cases he : d₁.get? i with
    | none =>
      rw [he, Option.map_none, Option.map_eq_none_iff] at hbare
      have hnot : i ∉ r.topology.interfaces := by
        intro hmem
        obtain ⟨e, he', -⟩ := (Recording.interfaces_of_extracts h.extracts).2 i hmem
        rw [he] at he'
        cases he'
      rw [h.others i hnot, hbare]
      exact .none
    | some e =>
      obtain ⟨e₂, he₂, hbare⟩ := h.reconciled.role he
      -- Interfaces get records and other elements fields, and port maps look at neither.
      by_cases hi : i ∈ r.topology.interfaces
      · obtain ⟨entry, -, e₂', found, he₂', -, -, hget⟩ := forall₂_mem_left h.recorded hi
        rw [he₂] at he₂'
        cases he₂'
        rw [hget]
        exact .some (sameDrawn_trans (sameDrawn_of_bare hbare) (sameDrawn_store _ _))
      · rw [h.others i hi, he₂]
        exact .some (sameDrawn_of_bare hbare)
  keys := by
    intro i hi
    obtain ⟨interface, hscope⟩ := Option.isSome_iff_exists.mp hi
    have hcopy := (Topology.interfaceOf?_eq_some h.extracts.nodup_copies).mp hscope
    have hnode : r.topology.isNode i = true :=
      (Topology.isNode_iff h.extracts.nodup_copies).mpr (.inr (.inr (.inr ⟨_, hcopy⟩)))
    obtain ⟨e, kind, he, hrole, -⟩ := ((h.extracts.copies _ _).mp hcopy).exists_kind
    obtain ⟨e', he', halike⟩ := h.extracts.get?_of_not_gone he (h.extracts.not_gone hnode)
    rw [h.get?_of_node he' (by rw [halike.role, hrole]; rfl), he']

end Netlist.Compilation
