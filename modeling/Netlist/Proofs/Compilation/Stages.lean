import Netlist.Proofs.Compilation.Reconciling
import Netlist.Proofs.Recording.Survival

/-!
# The stages of a compilation

A compilation that succeeds is a chain of stages, each on the diagram the one
before left. The stages after extraction leave almost everything alone:
reconciling changes fields of links and spotters, recording changes interfaces.

- `reconcile_frame`: what reconciling does to each slot.
- `Stages`: the intermediate results of a compilation, and what happens to each
  slot after extraction.
- `compile_runs_iff`: the stages in a row; `compile_runs`: every compilation that
  succeeds went through them.
-/

namespace Netlist

/-- The element without its fields. -/
def Element.bare (e : Element) : Element := { e with fields := Fields.empty }

theorem Element.role_of_bare {e e' : Element} (h : e'.bare = e.bare) : e'.role = e.role := by
  show e'.bare.role = e.bare.role
  rw [h]

theorem Element.label_of_bare {e e' : Element} (h : e'.bare = e.bare) : e'.label = e.label := by
  show e'.bare.label = e.bare.label
  rw [h]

theorem Element.parent_of_bare {e e' : Element} (h : e'.bare = e.bare) : e'.parent = e.parent := by
  show e'.bare.parent = e.bare.parent
  rw [h]

namespace Compilation

variable {c : Catalog} {d d' : Diagram}

/-! ## Reconciling -/

/-- Diagrams that differ only in the fields of some slots. -/
def SameButFields (slots : List Slot) (d d' : Diagram) : Prop :=
  (∀ j, (d'.get? j).map Element.bare = (d.get? j).map Element.bare) ∧
    ∀ j ∉ slots, d'.get? j = d.get? j

@[simp] theorem bare_inLine (c : Catalog) (e : Element) : (inLine c e).bare = e.bare := by
  rw [inLine]
  split <;> rfl

/-- **Reconciling changes nothing but fields**, and those only of the listed slots. -/
theorem reconcile_frame {slots : List Slot} {r : Reconciliation}
    (h : Edit.Runs (reconcile c slots) d r d') : SameButFields slots d d' := by
  have hlogs := logs_of_runs h
  refine ⟨fun j => ?_, hlogs.others⟩
  by_cases hj : j ∈ slots
  · rw [hlogs.listed j hj, Option.map_map]
    exact Option.map_congr fun e _ => bare_inLine c e
  · rw [hlogs.others j hj]

/-! ## All stages -/

/-- The intermediate results of a compilation: `d₁` is the diagram after
extraction, `d₂` the one after reconciling. -/
structure Stages (c : Catalog) (prune : Bool) (scope : Slot) (d d₁ d₂ d' : Diagram)
    (r : Compilation) (maps : PortMaps) (gone : List Slot) : Prop where
  container : Topology.container d scope = .ok r.topology.network
  extracts : Topology.Extracts d r.topology d₁ gone
  extract : Topology.extract c prune scope d = .ok (r.topology, d₁)
  build : PortMaps.build c r.topology d₁ = .ok maps
  reconciled : SameButFields (r.topology.links ++ r.topology.spotters) d₁ d₂
  recorded : List.Forall₂ (Recording.Recorded r.topology maps d₂ d') r.topology.interfaces
    r.network.interfaces
  others : ∀ j ∉ r.topology.interfaces, d'.get? j = d₂.get? j
  network : readNetwork r.topology maps r.network.interfaces d' = .ok r.network

/-- Roles survive reconciling. -/
theorem SameButFields.role {slots : List Slot} (h : SameButFields slots d d') {i : Slot}
    {e : Element} (he : d.get? i = some e) : ∃ e', d'.get? i = some e' ∧ e'.bare = e.bare := by
  have := h.1 i
  rw [he, Option.map_some, Option.map_eq_some_iff] at this
  exact this

theorem interfaces_readNetwork {t : Topology} {maps : PortMaps} {entries : List InterfaceEntry}
    {network : Network} (h : readNetwork t maps entries d = .ok network) :
    network.interfaces = entries := by
  rw [readNetwork, bind_eq_ok] at h
  obtain ⟨container, -, h⟩ := h
  rw [bind_eq_ok] at h
  obtain ⟨nodes, -, h⟩ := h
  rw [bind_eq_ok] at h
  obtain ⟨links, -, h⟩ := h
  rw [bind_eq_ok] at h
  obtain ⟨spotters, -, h⟩ := h
  cases h
  rfl

/-- Reconciling the links and spotters of a network, if the user wants it. -/
def reconcileIf (c : Catalog) (switches : Switches) (t : Topology) : Edit Fault Reconciliation :=
  if switches.reconcile then reconcile c (t.links ++ t.spotters) else pure .empty

theorem compile_eq (c : Catalog) (switches : Switches) (scope : Slot) :
    compile c switches scope = (do
      Edit.check Diagram.validate
      let t ← Edit.change (Topology.extract c switches.pruneGrounds scope)
      let maps ← Edit.check (PortMaps.build c t)
      let reconciliation ← reconcileIf c switches t
      let interfaces ← Recording.record t maps
      let network ← Edit.check (readNetwork t maps interfaces)
      return ⟨network, t, reconciliation⟩) := by
  obtain ⟨prune, reconcile⟩ := switches
  cases reconcile <;> rfl

/-- **Compiling** checks for loops, extracts, builds port maps, reconciles, records, and
reads off the network. -/
theorem compile_runs_iff {switches : Switches} {scope : Slot} {r : Compilation} :
    Edit.Runs (compile c switches scope) d r d' ↔ d.validate = .ok () ∧
      ∃ t d₁ maps reconciliation d₂ entries network,
        Topology.extract c switches.pruneGrounds scope d = .ok (t, d₁) ∧
        PortMaps.build c t d₁ = .ok maps ∧
        Edit.Runs (reconcileIf c switches t) d₁ reconciliation d₂ ∧
        Edit.Runs (Recording.record t maps) d₂ entries d' ∧
        readNetwork t maps entries d' = .ok network ∧ r = ⟨network, t, reconciliation⟩ := by
  rw [compile_eq]
  constructor
  · intro h
    obtain ⟨_, hvalid, h⟩ := Edit.runs_check_bind.mp h
    obtain ⟨t, d₁, hextract, h⟩ := Edit.runs_bind.mp h
    rw [Edit.runs_change] at hextract
    obtain ⟨maps, hbuild, h⟩ := Edit.runs_check_bind.mp h
    obtain ⟨reconciliation, d₂, hreconcile, h⟩ := Edit.runs_bind.mp h
    obtain ⟨entries, d₃, hrecord, h⟩ := Edit.runs_bind.mp h
    obtain ⟨network, hnetwork, h⟩ := Edit.runs_check_bind.mp h
    obtain ⟨rfl, rfl⟩ := Edit.runs_pure.mp h
    exact ⟨hvalid, t, d₁, maps, reconciliation, d₂, entries, network, hextract, hbuild, hreconcile,
      hrecord, hnetwork, rfl⟩
  · rintro ⟨hvalid, t, d₁, maps, reconciliation, d₂, entries, network, hextract, hbuild, hreconcile,
      hrecord, hnetwork, rfl⟩
    refine Edit.runs_check_bind.mpr ⟨(), hvalid, Edit.runs_bind.mpr ⟨t, d₁, ?_, ?_⟩⟩
    · exact Edit.runs_change.mpr hextract
    · refine Edit.runs_check_bind.mpr ⟨maps, hbuild, Edit.runs_bind.mpr ?_⟩
      refine ⟨reconciliation, d₂, hreconcile, Edit.runs_bind.mpr ⟨entries, d', hrecord, ?_⟩⟩
      exact Edit.runs_check_bind.mpr ⟨network, hnetwork, Edit.runs_pure.mpr ⟨rfl, rfl⟩⟩

theorem reconcileIf_frame {switches : Switches} {t : Topology} {r : Reconciliation}
    (h : Edit.Runs (reconcileIf c switches t) d r d') :
    SameButFields (t.links ++ t.spotters) d d' := by
  rw [reconcileIf] at h
  split at h
  · exact reconcile_frame h
  · obtain ⟨-, rfl⟩ := Edit.runs_pure.mp h
    exact ⟨fun _ => rfl, fun _ _ => rfl⟩

/-- The bindings of a network still lie between nodes and links after reconciling. -/
theorem sound_of_reconciled {t : Topology} {d₁ d₂ : Diagram} {maps : PortMaps}
    {gone slots : List Slot} (hextracts : Topology.Extracts d t d₁ gone)
    (hbuild : PortMaps.build c t d₁ = .ok maps) (hframe : SameButFields slots d₁ d₂) :
    Recording.Sound d₂ maps.bindings := by
  have hother : ∀ i, Recording.IsOther d₁ i → Recording.IsOther d₂ i := by
    rintro i ⟨e, he, hr⟩
    obtain ⟨e', he', hbare⟩ := hframe.role he
    exact ⟨e', he', by rw [Element.role_of_bare hbare, hr]⟩
  intro b hb
  obtain ⟨hnode, hlink⟩ := Recording.sound_of_extracts hextracts hbuild b hb
  exact ⟨hother _ hnode, hother _ hlink⟩

/-- Recording succeeds after reconciling. -/
theorem record_runs_of_reconciled {t : Topology} {d₁ d₂ : Diagram} {maps : PortMaps}
    {gone slots : List Slot} (hextracts : Topology.Extracts d t d₁ gone)
    (hbuild : PortMaps.build c t d₁ = .ok maps) (hframe : SameButFields slots d₁ d₂) :
    ∃ entries d₃, Edit.Runs (Recording.record t maps) d₂ entries d₃ ∧
      List.Forall₂ (Recording.Recorded t maps d₂ d₃) t.interfaces entries ∧
      ∀ j ∉ t.interfaces, d₃.get? j = d₂.get? j := by
  obtain ⟨hnodup, hinterfaces⟩ := Recording.interfaces_of_extracts hextracts
  refine Recording.record_runs hnodup (fun i hi => ?_) (sound_of_reconciled hextracts hbuild hframe)
  obtain ⟨e, he, hrole⟩ := hinterfaces i hi
  obtain ⟨e', he', hbare⟩ := hframe.role he
  exact ⟨e', he', by rw [Element.role_of_bare hbare, hrole]⟩

/-- The stages of a compilation, from its runs. -/
theorem stages_of_runs {switches : Switches} {scope : Slot} {t : Topology} {d₁ d₂ : Diagram}
    {maps : PortMaps} {reconciliation : Reconciliation} {entries : List InterfaceEntry}
    {network : Network} (hextract : Topology.extract c switches.pruneGrounds scope d = .ok (t, d₁))
    (hbuild : PortMaps.build c t d₁ = .ok maps)
    (hreconcile : Edit.Runs (reconcileIf c switches t) d₁ reconciliation d₂)
    (hrecord : Edit.Runs (Recording.record t maps) d₂ entries d')
    (hnetwork : readNetwork t maps entries d' = .ok network) :
    ∃ gone, Stages c switches.pruneGrounds scope d d₁ d₂ d' ⟨network, t, reconciliation⟩ maps gone := by
  have hframe := reconcileIf_frame hreconcile
  obtain ⟨hcontainer, gone, hextracts⟩ := Topology.extract_eq_ok hextract
  obtain ⟨entries', d₃', hruns, hrecorded, hothers⟩ :=
    record_runs_of_reconciled hextracts hbuild hframe
  obtain ⟨rfl, rfl⟩ := hruns.unique hrecord
  have hentries := interfaces_readNetwork hnetwork
  exact ⟨gone, hcontainer, hextracts, hextract, hbuild, hframe,
    by rw [hentries]; exact hrecorded, hothers, by rw [hentries]; exact hnetwork⟩

/-- **Every compilation that succeeds went through the stages.** -/
theorem compile_runs {switches : Switches} {scope : Slot} {r : Compilation}
    (h : Edit.Runs (compile c switches scope) d r d') :
    ∃ d₁ d₂ maps gone, Stages c switches.pruneGrounds scope d d₁ d₂ d' r maps gone := by
  obtain ⟨-, t, d₁, maps, reconciliation, d₂, entries, network, hextract, hbuild, hreconcile, hrecord,
    hnetwork, rfl⟩ := compile_runs_iff.mp h
  obtain ⟨gone, hstages⟩ := stages_of_runs hextract hbuild hreconcile hrecord hnetwork
  exact ⟨d₁, d₂, maps, gone, hstages⟩

end Compilation

end Netlist
