import Netlist.Assembly.Import
import Netlist.Proofs.Compilation.Stages
import Netlist.Proofs.Diagram.Enclosure
import Netlist.Proofs.Diagram.Loops
import Netlist.Proofs.Document.Pristine

/-!
# The interfaces of a compiled drawing

What an import relies on when it copies a compiled drawing: what the records of
its interfaces hold, and which numbers the nodes in them have.

- `Stages.frame`: compiling keeps identities, roles and parents, records aside.
- `Stages.record`: every interface of the network records its node count.
- `Stages.label`: **a node of the network has a number of the network for its label**,
  unless it is a ground.
- `Stages.of_member`, `Stages.exists_of_member`: what is copied is there and has no
  network container in it, and all interfaces among it were recorded.
-/

namespace Netlist.Compilation

open Diagram (root)
open Netlist.Topology (NodeIn Moves container_eq_ok exists_of_container mem_containers
  mem_containers_of_container)

variable {c : Catalog} {prune : Bool} {scope : Slot} {d d₁ d₂ d' : Diagram} {r : Compilation}
  {maps : PortMaps} {gone : List Slot} {i o p : Slot}

/-! ## What compiling keeps -/

/-- A drawing is checked for loops before it is compiled. -/
theorem compile_validates {switches : Switches} (h : Edit.Runs (compile c switches scope) d r d') :
    d.validate = .ok () := by
  rw [compile, Edit.runs_bind] at h
  obtain ⟨_, _, hvalidate, -⟩ := h
  exact (Edit.runs_check.mp hvalidate).1

/-- After extraction identities, labels, roles and parents are kept, but for records. -/
theorem Stages.extracted (h : Stages c prune scope d d₁ d₂ d' r maps gone) {e' : Element}
    (he' : d'.get? i = some e') : ∃ e, d₁.get? i = some e ∧ e'.id = e.id ∧ e'.label = e.label ∧
      e'.parent = e.parent ∧ (e'.role = e.role ∨ ∃ record, e'.role = e.role.setRecord record) := by
  obtain ⟨e₂, he₂, hid, hlabel, hparent, hrole⟩ : ∃ e₂, d₂.get? i = some e₂ ∧ e'.id = e₂.id ∧
      e'.label = e₂.label ∧ e'.parent = e₂.parent ∧
      (e'.role = e₂.role ∨ ∃ record, e'.role = e₂.role.setRecord record) := by
    by_cases hi : i ∈ r.topology.interfaces
    · obtain ⟨entry, -, e₂, found, he₂, -, -, hget⟩ := forall₂_mem_left h.recorded hi
      rw [hget] at he'
      cases he'
      exact ⟨e₂, he₂, rfl, rfl, rfl, .inr ⟨_, rfl⟩⟩
    · rw [h.others i hi] at he'
      exact ⟨e', he', rfl, rfl, rfl, .inl rfl⟩
  have hsame := h.reconciled.1 i
  rw [he₂, Option.map_some, eq_comm, Option.map_eq_some_iff] at hsame
  obtain ⟨e, he, hbare⟩ := hsame
  have hid' : e₂.bare.id = e.bare.id := by rw [hbare]
  have hparent' : e₂.bare.parent = e.bare.parent := by rw [hbare]
  rw [Element.role_of_bare hbare.symm] at hrole
  exact ⟨e, he, hid.trans hid', hlabel.trans (Element.label_of_bare hbare.symm),
    hparent.trans hparent', hrole⟩

/-- **Compiling keeps identities, roles and parents**, but for records. -/
theorem Stages.frame (h : Stages c prune scope d d₁ d₂ d' r maps gone) {e' : Element}
    (he' : d'.get? i = some e') : ∃ e, d.get? i = some e ∧ e'.id = e.id ∧ e'.parent = e.parent ∧
      (e'.role = e.role ∨ ∃ record, e'.role = e.role.setRecord record) := by
  obtain ⟨e₁, he₁, hid, -, hparent, hrole⟩ := h.extracted he'
  have hgone : i ∉ gone := by
    intro hmem
    rw [h.extracts.removed i hmem] at he₁
    cases he₁
  have hget : ∃ e, d.get? i = some e := by
    by_cases hmoves : Moves d r.topology i
    · obtain ⟨e, x, he, -⟩ := h.extracts.moved i hmoves
      exact ⟨e, he⟩
    · rw [h.extracts.kept i hgone hmoves, Option.map_eq_some_iff] at he₁
      obtain ⟨e, he, -⟩ := he₁
      exact ⟨e, he⟩
  obtain ⟨e, he⟩ := hget
  obtain ⟨e₁', he₁', halike⟩ := h.extracts.get?_of_not_gone he hgone
  rw [he₁] at he₁'
  cases he₁'
  rw [halike.role] at hrole
  exact ⟨e, he, hid.trans halike.id, hparent.trans halike.parent, hrole⟩

theorem Stages.hasParent (h : Stages c prune scope d d₁ d₂ d' r maps gone)
    (hp : d'.HasParent i p) : d.HasParent i p := by
  obtain ⟨e', he', hp⟩ := hp
  obtain ⟨e, he, -, hparent, -⟩ := h.frame he'
  exact ⟨e, he, hparent ▸ hp⟩

theorem Stages.inside (h : Stages c prune scope d d₁ d₂ d' r maps gone)
    (hin : d'.Inside i p) : d.Inside i p :=
  Relation.TransGen.mono (fun _ _ hp => h.hasParent hp) _ _ hin

/-- A test of roles that does not look at records is the same after compiling. -/
theorem Stages.role (h : Stages c prune scope d d₁ d₂ d' r maps gone) {β : Type} {f : Role → β}
    (hf : ∀ record role, f (role.setRecord record) = f role) {e' : Element}
    (he' : d'.get? i = some e') : ∃ e, d.get? i = some e ∧ f e'.role = f e.role := by
  obtain ⟨e, he, -, -, hrole | ⟨record, hrole⟩⟩ := h.frame he'
  · exact ⟨e, he, by rw [hrole]⟩
  · exact ⟨e, he, by rw [hrole, hf]⟩

theorem Stages.isUnmarked (h : Stages c prune scope d d₁ d₂ d' r maps gone) (hd : d.Pristine)
    {e' : Element} (he' : d'.get? i = some e') : e'.role.IsUnmarked := by
  obtain ⟨e, he, -, -, hrole⟩ := h.frame he'
  have hunmarked := hd.unmarked i e he
  rcases hrole with hrole | ⟨record, hrole⟩
  · rw [hrole]
    exact hunmarked
  · rw [hrole]
    intro payload hpayload
    cases hr : e.role <;> rw [hr] at hpayload <;> cases hpayload
    have hnone := hunmarked _ hr
    exact hnone

/-! ## Records and numbers -/

/-- **Every interface of the network records its node count.** -/
theorem Stages.record (h : Stages c prune scope d d₁ d₂ d' r maps gone)
    (hi : i ∈ r.topology.interfaces) : ∃ e record, d'.get? i = some e ∧
      e.role.record? = some record ∧ record.nodeCount = r.topology.nodeCount := by
  obtain ⟨entry, -, e, found, he, -, -, hget⟩ := forall₂_mem_left h.recorded hi
  refine ⟨_, ⟨r.topology.nodeCount, found⟩, hget, ?_, rfl⟩
  obtain ⟨-, hinterface⟩ := Recording.interfaces_of_extracts h.extracts
  obtain ⟨e₁, he₁, hrole⟩ := hinterface i hi
  obtain ⟨e₂, he₂, hbare⟩ := h.reconciled.role he₁
  rw [he] at he₂
  cases he₂
  rw [← Element.role_of_bare hbare] at hrole
  exact Role.record?_setRecord _ hrole

/-- What is inside the network is one of its descendants. -/
theorem Stages.mem_network (h : Stages c prune scope d d₁ d₂ d' r maps gone)
    (hvalid : d.validate = .ok ()) (hin : d.Inside o r.topology.network) :
    o ∈ d.descendants r.topology.network := by
  obtain ⟨e, he, -⟩ := exists_of_container h.container
  refine Diagram.mem_descendants.mpr ⟨⟨e, he⟩, ?_, hin⟩
  rintro rfl
  exact Diagram.not_inside_self hvalid hin

/-- The root is not inside a network that is found from the root. -/
theorem Stages.root_outside (h : Stages c prune scope d d₁ d₂ d' r maps gone)
    (hvalid : d.validate = .ok ()) (hscope : scope = root ∨ d.Rooted) :
    ¬ d.Inside root r.topology.network := by
  intro hin
  rcases hscope with rfl | hrooted
  · obtain ⟨heq | hmem, -⟩ := mem_containers.mp (mem_containers_of_container h.container)
    · exact Diagram.not_inside_self hvalid (heq ▸ hin)
    · exact Diagram.not_inside_self hvalid (hin.trans (Diagram.mem_descendants.mp hmem).2.2)
  · exact hrooted.not_inside hin

/-- Within the one network container of a scope there is no other. -/
theorem Stages.not_isSubNetwork (h : Stages c prune scope d d₁ d₂ d' r maps gone)
    (hvalid : d.validate = .ok ()) (hin : d.Inside o r.topology.network) {e : Element}
    (he : d.get? o = some e) : e.role.isSubNetwork = false := by
  by_contra hsub
  rw [Bool.not_eq_false] at hsub
  have hone := container_eq_ok h.container
  have hmem := mem_containers_of_container h.container
  have hscope : o ∈ d.descendants scope := by
    obtain ⟨heq | hnetwork, e', he', -⟩ := mem_containers.mp hmem
    · rw [← heq]
      exact h.mem_network hvalid hin
    · obtain ⟨hlive, -, hup⟩ := Diagram.mem_descendants.mp hnetwork
      refine Diagram.mem_descendants.mpr ⟨hlive, ?_, hin.trans hup⟩
      rintro rfl
      exact Diagram.not_inside_self hvalid (hin.trans hup)
  have hother := mem_containers.mpr ⟨.inr hscope, e, he, hsub⟩
  rw [hone, List.mem_singleton] at hother
  subst hother
  exact Diagram.not_inside_self hvalid hin

/-- **A node of the network is numbered anew**, unless it is a ground. -/
theorem Stages.moves (h : Stages c prune scope d d₁ d₂ d' r maps gone)
    (hvalid : d.validate = .ok ()) (hin : d.Inside o r.topology.network) {e : Element}
    (he : d.get? o = some e) {kind : NodeKind} (hnode : e.role = .node kind)
    (hground : kind ≠ .ground) : Moves d r.topology o := by
  have hkind : e.nodeKind? = some kind := Topology.nodeKind?_eq_some.mpr hnode
  obtain ⟨home, hhome⟩ : ∃ home, Topology.interfaceAround d o = .ok home :=
    Diagram.exists_nearestAncestor (fun _ => Diagram.not_inside_self hvalid) o _
  have hpart : ∀ p : NodeKind → Bool, p kind = true → NodeIn d r.topology.network home p o := by
    intro p hp
    refine ⟨h.mem_network hvalid hin, ?_, hhome⟩
    rw [he, Option.any_some, hkind, Option.any_some, hp]
  cases home with
  | some interface =>
    have hcopy := (h.extracts.copies o interface).mpr (hpart _ rfl)
    refine .inr (Topology.mem_aliases.mpr (.inr ⟨interface, hcopy, ?_⟩))
    rw [he, Option.any_some, Element.isGround, hnode, beq_eq_false_iff_ne]
    rintro heq
    cases heq
    exact hground rfl
  | none =>
    cases kind with
    | basic => exact .inl ((h.extracts.nodes o).mpr (hpart _ rfl))
    | fluid => exact .inl ((h.extracts.nodes o).mpr (hpart _ rfl))
    | reference =>
      exact .inr (Topology.mem_aliases.mpr (.inl ((h.extracts.references o).mpr (hpart _ rfl))))
    | ground => exact absurd rfl hground

/-- **A node of the network has a number of the network for its label**, unless it is a
ground. -/
theorem Stages.label (h : Stages c prune scope d d₁ d₂ d' r maps gone)
    (hvalid : d.validate = .ok ()) (hin : d.Inside o r.topology.network) {e' : Element}
    (he' : d'.get? o = some e') {kind : NodeKind} (hkind : e'.role = .node kind)
    (hground : kind ≠ .ground) : ∃ n, e'.label = toString n ∧ n < r.topology.nodeCount := by
  obtain ⟨e, he, -, -, hrole'⟩ := h.frame he'
  have hnode : e.role = .node kind := by
    rcases hrole' with hsame | ⟨record, hsame⟩
    · rw [← hsame, hkind]
    · rw [hkind] at hsame
      cases hr : e.role <;> rw [hr] at hsame <;> cases hsame
      rfl
  obtain ⟨e₀, x, -, -, -, hlt, hget⟩ :=
    h.extracts.moved o (h.moves hvalid hin he hnode hground)
  obtain ⟨e₁, he₁, -, hlabel, -⟩ := h.extracted he'
  rw [hget, Option.some.injEq] at he₁
  subst he₁
  exact ⟨_, hlabel.trans (Element.label_detachAll _ _), hlt⟩

/-! ## Members -/

open Assembly (members distinct) in
/-- Whatever is copied from a compiled drawing lies in its network or is a port. -/
theorem Stages.inside_or_port (h : Stages c prune scope d d₁ d₂ d' r maps gone)
    (ho : o ∈ members d' r.topology (distinct d' r.topology.interfaces)) :
    d.Inside o r.topology.network ∨ o ∈ r.topology.ports := by
  rw [members, List.mem_filter, List.contains_iff_mem] at ho
  obtain ⟨-, ho⟩ := ho
  split at ho
  · rcases List.mem_append.mp ho with ho | ho
    · exact .inl (h.inside (Diagram.mem_descendants.mp ho).2.2)
    · exact .inr ho
  · obtain ⟨i, hi, ho⟩ := List.mem_flatMap.mp ho
    have hmem := List.mem_of_mem_filter hi
    rw [h.extracts.interfaces, Topology.mem_withRole] at hmem
    have hin := (Diagram.mem_descendants.mp hmem.1).2.2
    rcases List.mem_cons.mp ho with rfl | ho
    · exact .inl hin
    · exact .inl ((h.inside (Diagram.mem_descendants.mp ho).2.2).trans hin)

open Assembly (members distinct) in
/-- **What is copied has no network container in it**, all interfaces among it were
recorded, and its nodes lie in the network. -/
theorem Stages.of_member (h : Stages c prune scope d d₁ d₂ d' r maps gone)
    (hvalid : d.validate = .ok ())
    (ho : o ∈ members d' r.topology (distinct d' r.topology.interfaces)) {e' : Element}
    (he' : d'.get? o = some e') :
    e'.role.isSubNetwork = false ∧ (e'.role.isInterface = true → o ∈ r.topology.interfaces) ∧
      (e'.role.nodeKind?.isSome = true → d.Inside o r.topology.network) := by
  rcases h.inside_or_port ho with hin | hport
  · obtain ⟨e, he, hsub⟩ := h.role Role.isSubNetwork_setRecord he'
    refine ⟨hsub.trans (h.not_isSubNetwork hvalid hin he), fun hinterface => ?_, fun _ => hin⟩
    obtain ⟨e₀, he₀, hsame⟩ := h.role Role.isInterface_setRecord he'
    rw [h.extracts.interfaces, Topology.mem_withRole]
    exact ⟨h.mem_network hvalid hin, e₀, he₀, hsame ▸ hinterface⟩
  · obtain ⟨e₀, he₀, hrole⟩ := Topology.mem_portsOf (h.extracts.ports ▸ hport)
    obtain ⟨e, he, -, -, hsame⟩ := h.frame he'
    rw [he₀] at he
    cases he
    have hrole' : e'.role = .port := by
      rcases hsame with hsame | ⟨record, hsame⟩ <;> rw [hsame, hrole]
      rfl
    rw [hrole']
    refine ⟨rfl, fun h => ?_, fun h => ?_⟩ <;> cases h

/-- Nothing is removed after extraction. -/
theorem Stages.exists_of_extracted (h : Stages c prune scope d d₁ d₂ d' r maps gone) {e : Element}
    (he : d₁.get? i = some e) : ∃ e', d'.get? i = some e' := by
  obtain ⟨e₂, he₂, -⟩ := h.reconciled.role he
  by_cases hi : i ∈ r.topology.interfaces
  · obtain ⟨entry, -, e₃, found, -, -, -, hget⟩ := forall₂_mem_left h.recorded hi
    exact ⟨_, hget⟩
  · exact ⟨e₂, (h.others i hi).trans he₂⟩

open Assembly (members distinct) in
/-- **What is copied is there.** -/
theorem Stages.exists_of_member (h : Stages c prune scope d d₁ d₂ d' r maps gone)
    (ho : o ∈ members d' r.topology (distinct d' r.topology.interfaces)) :
    ∃ e', d'.get? o = some e' := by
  rw [members, List.mem_filter, List.contains_iff_mem] at ho
  obtain ⟨-, ho⟩ := ho
  split at ho
  · rcases List.mem_append.mp ho with ho | ho
    · exact (Diagram.mem_descendants.mp ho).2.2.live
    · obtain ⟨e, he, -⟩ := Topology.mem_portsOf (h.extracts.ports ▸ ho)
      exact h.exists_of_extracted ((h.extracts.get?_port ho).trans he)
  · obtain ⟨i, hi, ho⟩ := List.mem_flatMap.mp ho
    rcases List.mem_cons.mp ho with rfl | ho
    · obtain ⟨e, -, he, -⟩ := h.record (List.mem_of_mem_filter hi)
      exact ⟨e, he⟩
    · exact (Diagram.mem_descendants.mp ho).2.2.live

end Netlist.Compilation
