import Netlist.Proofs.Compilation.Settling
import Netlist.Proofs.Topology.Again

/-!
# Compiling again

A compilation writes numbers, fields and records into the diagram. When the diagram is
compiled again all of them are as they should be, so every stage finds what it found
before and has nothing left to change. There is one exception: a ground that no port
reaches is removed without what is in it, and what was in it is in nothing afterwards. It
is not met again.

- `IsPart`, `Stays`: what belongs to a network, and what stays in it.
- `Stages.extract_again`: the same topology is read again.
- `compile_again`: **compiling again gives the same network and changes nothing iff all
  parts of the network stay in it.**
-/

namespace Netlist.Compilation

open Diagram (root)
open Netlist.Topology (NodeIn Moves withRole portsOf Labelled container_eq_ok exists_of_container
  mem_containers mem_containers_of_container mem_portsOf_iff sorted_portsOf)

variable {c : Catalog} {prune : Bool} {scope : Slot} {d d₁ d₂ d' : Diagram} {r : Compilation}
  {maps : PortMaps} {gone : List Slot} {i o p : Slot} {t : Topology}

/-! ## What stays in the network -/

/-- The parts of a network: its nodes, links, spotters and interfaces, and the ports in it
that belong to no link. -/
def IsPart (d : Diagram) (t : Topology) (i : Slot) : Prop :=
  t.isNode i = true ∨ i ∈ t.links ∨ i ∈ t.spotters ∨ i ∈ t.interfaces ∨
    i ∈ t.ports ∧ d.Inside i t.network ∧
      ∀ link ∈ t.links, (d.get? i).any (fun e => e.touches link) = false

/-- Every part of a network is still in it. -/
def Stays (d d' : Diagram) (t : Topology) : Prop := ∀ i, IsPart d t i → d'.Inside i t.network

/-- **What is not removed keeps its role and its parent**, but for records. -/
theorem Stages.forth (h : Stages c prune scope d d₁ d₂ d' r maps gone) {e : Element}
    (he : d.get? i = some e) (hi : i ∉ gone) : ∃ e', d'.get? i = some e' ∧ e'.parent = e.parent ∧
      (e'.role = e.role ∨ ∃ record, e'.role = e.role.setRecord record) := by
  obtain ⟨e₁, he₁, halike⟩ := h.extracts.get?_of_not_gone he hi
  obtain ⟨e₂, he₂, hbare⟩ := h.reconciled.role he₁
  have hrole : e₂.role = e.role := (Element.role_of_bare hbare).trans halike.role
  have hparent : e₂.parent = e.parent := by
    show e₂.bare.parent = e.parent
    rw [hbare]
    exact halike.parent
  by_cases hmem : i ∈ r.topology.interfaces
  · obtain ⟨entry, -, e₂', found, he₂', -, -, hget⟩ := forall₂_mem_left h.recorded hmem
    rw [he₂] at he₂'
    cases he₂'
    exact ⟨_, hget, hparent, .inr ⟨_, congrArg (Role.setRecord _) hrole⟩⟩
  · exact ⟨e₂, (h.others i hmem).trans he₂, hparent, .inl hrole⟩

theorem Stages.get?_gone (h : Stages c prune scope d d₁ d₂ d' r maps gone) (hi : i ∈ gone) :
    d'.get? i = none := by
  cases he' : d'.get? i with
  | none => rfl
  | some e' =>
    have hsame := h.sameView.elements i
    rw [he', h.extracts.removed i hi] at hsame
    cases hsame

/-- Whatever is above something in the network is still there. -/
theorem Stages.not_gone_above (h : Stages c prune scope d d₁ d₂ d' r maps gone)
    (hvalid : d.validate = .ok ()) (hin : d'.Inside i r.topology.network) {j : Slot}
    (hj : j = i ∨ d.Inside i j) : j ∉ gone := by
  intro hmem
  have hnetwork := (Diagram.mem_descendants.mp (h.extracts.gone_ground j hmem).1.inside).2.2
  have hdead : ∀ {k : Slot}, d'.Inside k r.topology.network → k ≠ j := by
    rintro k hk rfl
    obtain ⟨e, he⟩ := hk.live
    rw [h.get?_gone hmem] at he
    cases he
  induction hin using Relation.TransGen.head_induction_on with
  | single hp =>
    rcases hj with rfl | hj
    · exact hdead (.single hp) rfl
    · rcases hj.step (h.hasParent hp) with rfl | hj
      · exact Diagram.not_inside_self hvalid hnetwork
      · exact Diagram.not_inside_self hvalid (hnetwork.trans hj)
  | head hp hin ih =>
    rcases hj with rfl | hj
    · exact hdead (hin.head hp) rfl
    · rcases hj.step (h.hasParent hp) with rfl | hj
      · exact hdead hin rfl
      · exact ih (.inr hj)

theorem Stages.rooted (h : Stages c prune scope d d₁ d₂ d' r maps gone) (hrooted : d.Rooted) :
    d'.Rooted := fun p hp => hrooted p (h.hasParent hp)

/-- **The nearest interface around something in the network is the same as before.** -/
theorem Stages.interfaceAround (h : Stages c prune scope d d₁ d₂ d' r maps gone)
    (hvalid : d.validate = .ok ()) (hrooted : d.Rooted) (hin : d'.Inside i r.topology.network) :
    Topology.interfaceAround d' i = Topology.interfaceAround d i := by
  refine Diagram.nearestAncestor_congr hrooted (h.rooted hrooted)
    (fun _ => Diagram.not_inside_self hvalid)
    (fun _ hloop => Diagram.not_inside_self hvalid (h.inside hloop)) fun home => ?_
  have hsame : ∀ {e e' : Element}, (e'.role = e.role ∨ ∃ record, e'.role = e.role.setRecord record) →
      e'.role.isInterface = e.role.isInterface := by
    rintro e e' (hrole | ⟨record, hrole⟩)
    · rw [hrole]
    · rw [hrole, Role.isInterface_setRecord]
  constructor
  · intro hnear
    refine hnear.congr fun j e' hj he' => ?_
    obtain ⟨e, he, -, hparent, hrole⟩ := h.frame he'
    exact ⟨e, he, hparent.symm, (hsame hrole).symm⟩
  · intro hnear
    refine hnear.congr fun j e hj he => ?_
    obtain ⟨e', he', hparent, hrole⟩ := h.forth he (h.not_gone_above hvalid hin hj)
    exact ⟨e', he', hparent, hsame hrole⟩

/-- The network itself is not removed. -/
theorem Stages.get?_network (h : Stages c prune scope d d₁ d₂ d' r maps gone)
    (hvalid : d.validate = .ok ()) : ∃ e e', d.get? r.topology.network = some e ∧
      d'.get? r.topology.network = some e' := by
  obtain ⟨e, he, -⟩ := exists_of_container h.container
  obtain ⟨e', he', -⟩ := h.forth he fun hgone =>
    Diagram.not_inside_self hvalid (Diagram.mem_descendants.mp (h.extracts.gone_ground _ hgone).1.inside).2.2
  exact ⟨e, e', he, he'⟩

theorem Stages.mem_descendants (h : Stages c prune scope d d₁ d₂ d' r maps gone)
    (hvalid : d.validate = .ok ()) :
    i ∈ d'.descendants r.topology.network ↔ d'.Inside i r.topology.network := by
  obtain ⟨-, e', -, he'⟩ := h.get?_network hvalid
  rw [Diagram.mem_descendants]
  refine ⟨fun hmem => hmem.2.2, fun hin => ⟨⟨e', he'⟩, ?_, hin⟩⟩
  rintro rfl
  exact Diagram.not_inside_self hvalid (h.inside hin)

/-- **The nodes of the network are those of before that are still in it.** -/
theorem Stages.nodeIn_iff (h : Stages c prune scope d d₁ d₂ d' r maps gone)
    (hvalid : d.validate = .ok ()) (hrooted : d.Rooted) {home : Option Slot} {q : NodeKind → Bool} :
    NodeIn d' r.topology.network home q i ↔
      NodeIn d r.topology.network home q i ∧ d'.Inside i r.topology.network := by
  have hkind : ∀ {e e' : Element}, (e'.role = e.role ∨ ∃ record, e'.role = e.role.setRecord record) →
      e'.nodeKind? = e.nodeKind? := by
    rintro e e' (hrole | ⟨record, hrole⟩)
    · rw [Element.nodeKind?, hrole, Element.nodeKind?]
    · rw [Element.nodeKind?, hrole, Element.nodeKind?]
      cases e.role <;> rfl
  constructor
  · intro hnode
    have hin := (h.mem_descendants hvalid).mp hnode.inside
    refine ⟨⟨h.mem_network hvalid (h.inside hin), ?_, ?_⟩, hin⟩
    · obtain ⟨e', he', hq⟩ := Option.any_eq_true _ _ |>.mp hnode.kind
      obtain ⟨e, he, -, -, hrole⟩ := h.frame he'
      rw [he, Option.any_some, ← hkind hrole]
      exact hq
    · rw [← h.interfaceAround hvalid hrooted hin]
      exact hnode.home
  · rintro ⟨hnode, hin⟩
    refine ⟨(h.mem_descendants hvalid).mpr hin, ?_, ?_⟩
    · obtain ⟨e, he, hq⟩ := Option.any_eq_true _ _ |>.mp hnode.kind
      obtain ⟨e', he', -, hrole⟩ := h.forth he (h.not_gone_above hvalid hin (.inl rfl))
      rw [he', Option.any_some, hkind hrole]
      exact hq
    · rw [h.interfaceAround hvalid hrooted hin]
      exact hnode.home

/-- The elements with a role that are in the network are the same as before, if they all
stay in it. -/
theorem Stages.withRole_again (h : Stages c prune scope d d₁ d₂ d' r maps gone)
    (hvalid : d.validate = .ok ()) {f : Role → Bool}
    (hf : ∀ record role, f (role.setRecord record) = f role)
    (hstay : ∀ i ∈ withRole d (d.descendants r.topology.network) f, d'.Inside i r.topology.network) :
    withRole d' (d'.descendants r.topology.network) f =
      withRole d (d.descendants r.topology.network) f := by
  refine List.Pairwise.eq_of_mem_iff (Topology.sorted_withRole d' _ f)
    (Topology.sorted_withRole d _ f) fun i => ⟨fun hi => ?_, fun hi => ?_⟩
  · obtain ⟨hmem, e', he', hrole⟩ := Topology.mem_withRole.mp hi
    obtain ⟨e, he, hsame⟩ := h.role hf he'
    exact Topology.mem_withRole.mpr ⟨h.mem_network hvalid (h.inside ((h.mem_descendants hvalid).mp hmem)),
      e, he, hsame ▸ hrole⟩
  · have hin := hstay i hi
    obtain ⟨-, e, he, hrole⟩ := Topology.mem_withRole.mp hi
    obtain ⟨e', he', -, hsame⟩ := h.forth he (h.not_gone_above hvalid hin (.inl rfl))
    refine Topology.mem_withRole.mpr ⟨(h.mem_descendants hvalid).mpr hin, e', he', ?_⟩
    rcases hsame with hsame | ⟨record, hsame⟩
    · rw [hsame, hrole]
    · rw [hsame, hf, hrole]

/-! ## Ports and their links -/

/-- A port keeps its ends, but for those at removed grounds. -/
theorem Stages.touches_port (h : Stages c prune scope d d₁ d₂ d' r maps gone) {e' : Element}
    (he' : d'.get? p = some e') : ∃ e, d.get? p = some e ∧
      ∀ i, e'.touches i = true ↔ e.touches i = true ∧ i ∉ gone := by
  obtain ⟨e, he, -⟩ := h.frame he'
  have hp : p ∉ gone := by
    intro hmem
    rw [h.get?_gone hmem] at he'
    cases he'
  have hends : ∀ e : Element, ∀ i, (e.detachAll gone).touches i = true ↔
      e.touches i = true ∧ i ∉ gone := by
    intro e i
    have hend : ∀ (e : Element), e.touches i = true ↔
        e.endAt true = some i ∨ e.endAt false = some i := by
      intro e
      rw [Element.touches, Bool.or_eq_true, beq_iff_eq, beq_iff_eq]
      exact Iff.rfl
    rw [hend, hend, Element.endAt_detachAll, Element.endAt_detachAll, ← or_and_right]
  refine ⟨e, he, fun i => ?_⟩
  obtain ⟨e₁, he₁, hsame⟩ : ∃ e₁, d₁.get? p = some e₁ ∧ PortMap.SameDrawn e₁ e' := by
    have hrel := h.sameView.elements p
    rw [he'] at hrel
    generalize d₁.get? p = o at hrel
    cases hrel with
    | some hsame => exact ⟨_, rfl, hsame⟩
  rw [hsame.touches, ← hends]
  by_cases hmoves : Moves d r.topology p
  · obtain ⟨e₀, x, he₀, -, -, -, hget⟩ := h.extracts.moved p hmoves
    rw [he₁] at hget
    cases hget
    rw [he] at he₀
    cases he₀
    rw [hends, hends]
    rfl
  · rw [h.extracts.kept p hp hmoves, he] at he₁
    cases he₁
    rfl

theorem Stages.not_gone_link (h : Stages c prune scope d d₁ d₂ d' r maps gone) {link : Slot}
    (hlink : link ∈ r.topology.links) : link ∉ gone := by
  intro hmem
  rw [h.extracts.links, Topology.mem_withRole] at hlink
  obtain ⟨-, e, he, hrole⟩ := hlink
  obtain ⟨e', kind, he', hkind, -⟩ := (h.extracts.gone_ground link hmem).1.exists_kind
  rw [he] at he'
  cases he'
  rw [hkind] at hrole
  cases hrole

/-- **The ports of the network are the same as before**, if those in it that belong to no
link stay in it. -/
theorem Stages.ports_again (h : Stages c prune scope d d₁ d₂ d' r maps gone)
    (hvalid : d.validate = .ok ()) (hstay : Stays d d' r.topology) :
    portsOf d' (d'.descendants r.topology.network) r.topology.links = r.topology.ports := by
  refine (List.Pairwise.eq_of_mem_iff (sorted_portsOf d' _ _) (sorted_portsOf d _ _)
    fun p => ?_).trans h.extracts.ports.symm
  rw [mem_portsOf_iff, mem_portsOf_iff]
  constructor
  · rintro ⟨⟨e', he', hrole⟩, hp⟩
    obtain ⟨e, he, hsame⟩ := h.touches_port he'
    obtain ⟨e₀, he₀, hport⟩ := h.role (f := fun role => role == .port)
      (fun record role => by cases role <;> rfl) he'
    rw [he] at he₀
    cases he₀
    rw [hrole, beq_self_eq_true, eq_comm, beq_iff_eq] at hport
    refine ⟨⟨e, he, hport⟩, hp.imp (fun hmem => ?_) fun ⟨link, hlink, htouch⟩ => ⟨link, hlink, ?_⟩⟩
    · exact h.mem_network hvalid (h.inside ((h.mem_descendants hvalid).mp hmem))
    · rw [he', Option.any_some] at htouch
      rw [he, Option.any_some]
      exact ((hsame link).mp htouch).1
  · rintro ⟨⟨e, he, hrole⟩, hp⟩
    -- Only grounds are removed, and a port is none.
    have hgone : p ∉ gone := by
      intro hmem
      obtain ⟨e₀, kind, he₀, hkind, -⟩ := (h.extracts.gone_ground p hmem).1.exists_kind
      rw [he] at he₀
      cases he₀
      rw [hrole] at hkind
      cases hkind
    obtain ⟨e', he', -, hsame⟩ := h.forth he hgone
    obtain ⟨e₀, he₀, htouches⟩ := h.touches_port he'
    rw [he] at he₀
    cases he₀
    have hport : e'.role = .port := by
      rcases hsame with hsame | ⟨record, hsame⟩ <;> rw [hsame, hrole]
      rfl
    refine ⟨⟨e', he', hport⟩, ?_⟩
    -- A port at a link is found by the link. Any other one is found in the network, where it stays
    -- by assumption.
    by_cases htouch : ∃ link ∈ r.topology.links, e.touches link = true
    · obtain ⟨link, hlink, htouch⟩ := htouch
      refine .inr ⟨link, hlink, ?_⟩
      rw [he', Option.any_some]
      exact (htouches link).mpr ⟨htouch, h.not_gone_link hlink⟩
    · have hnone : ∀ link ∈ r.topology.links, (d.get? p).any (fun e => e.touches link) = false := by
        intro link hlink
        rw [he, Option.any_some, ← Bool.not_eq_true]
        exact fun htrue => htouch ⟨link, hlink, htrue⟩
      have hmem : p ∈ d.descendants r.topology.network := by
        refine hp.resolve_right fun ⟨link, hlink, htrue⟩ => ?_
        rw [hnone link hlink] at htrue
        cases htrue
      refine .inl ((h.mem_descendants hvalid).mpr (hstay p (.inr (.inr (.inr (.inr ⟨?_, ?_, hnone⟩))))))
      · rw [h.extracts.ports, mem_portsOf_iff]
        exact ⟨⟨e, he, hrole⟩, hp⟩
      · exact (Diagram.mem_descendants.mp hmem).2.2

/-! ## The topology again -/

/-- What is around the network is not removed. -/
theorem Stages.inside_above (h : Stages c prune scope d d₁ d₂ d' r maps gone)
    (hvalid : d.validate = .ok ()) {a b : Slot} (ha : a = r.topology.network ∨ d.Inside r.topology.network a)
    (hin : d.Inside a b) : d'.Inside a b := by
  have hkept : ∀ {k}, (k = r.topology.network ∨ d.Inside r.topology.network k) → k ∉ gone := by
    intro k hk hgone
    have hnetwork := (Diagram.mem_descendants.mp (h.extracts.gone_ground k hgone).1.inside).2.2
    rcases hk with rfl | hk
    · exact Diagram.not_inside_self hvalid hnetwork
    · exact Diagram.not_inside_self hvalid (hnetwork.trans hk)
  have hstep : ∀ {k q}, (k = r.topology.network ∨ d.Inside r.topology.network k) →
      d.HasParent k q → d'.HasParent k q ∧ d.Inside r.topology.network q := by
    rintro k q hk ⟨e, he, hp⟩
    obtain ⟨e', he', hparent, -⟩ := h.forth he (hkept hk)
    refine ⟨⟨e', he', hparent.trans hp⟩, ?_⟩
    rcases hk with rfl | hk
    · exact .single ⟨e, he, hp⟩
    · exact hk.tail ⟨e, he, hp⟩
  induction hin using Relation.TransGen.head_induction_on with
  | single hp => exact .single (hstep ha hp).1
  | head hp _ ih =>
    obtain ⟨hp', hup⟩ := hstep ha hp
    exact (ih (.inr hup)).head hp'

/-- **The network is the one container again.** -/
theorem Stages.container_again (h : Stages c prune scope d d₁ d₂ d' r maps gone)
    (hvalid : d.validate = .ok ()) : Topology.container d' scope = .ok r.topology.network := by
  have hone := container_eq_ok h.container
  have hmem := mem_containers_of_container h.container
  -- No container was added and none was removed, so there is the one from before.
  have hagain : Topology.containers d' scope = [r.topology.network] := by
    rw [← List.perm_singleton, List.perm_ext_iff_of_nodup]
    · intro i
      rw [List.mem_singleton]
      constructor
      · intro hi
        obtain ⟨hwhere, e', he', hrole⟩ := mem_containers.mp hi
        obtain ⟨e, he, hsame⟩ := h.role Role.isSubNetwork_setRecord he'
        have hi₀ : i ∈ Topology.containers d scope := by
          refine mem_containers.mpr ⟨hwhere.imp id fun hdesc => ?_, e, he, hsame ▸ hrole⟩
          obtain ⟨⟨e₀', he₀'⟩, hne, hin⟩ := Diagram.mem_descendants.mp hdesc
          obtain ⟨e₀, he₀, -⟩ := h.frame he₀'
          exact Diagram.mem_descendants.mpr ⟨⟨e₀, he₀⟩, hne, h.inside hin⟩
        rw [hone, List.mem_singleton] at hi₀
        exact hi₀
      · rintro rfl
        obtain ⟨hwhere, e, he, hrole⟩ := mem_containers.mp hmem
        obtain ⟨e₀, e', he₀, he'⟩ := h.get?_network hvalid
        obtain ⟨e₁, he₁, hsame⟩ := h.role Role.isSubNetwork_setRecord he'
        rw [he] at he₁
        cases he₁
        refine mem_containers.mpr ⟨hwhere.imp id fun hdesc => ?_, e', he', hsame.trans hrole⟩
        obtain ⟨⟨es, hes⟩, hne, hin⟩ := Diagram.mem_descendants.mp hdesc
        obtain ⟨es', hes', -⟩ := h.forth hes fun hgone => by
          have hnetwork := (Diagram.mem_descendants.mp (h.extracts.gone_ground scope hgone).1.inside).2.2
          exact Diagram.not_inside_self hvalid (hin.trans hnetwork)
        exact Diagram.mem_descendants.mpr ⟨⟨es', hes'⟩, hne, h.inside_above hvalid (.inl rfl) hin⟩
    · rw [Topology.containers, List.nodup_append]
      refine ⟨(List.nodup_singleton scope).filter _, (Topology.nodup_descendants d' scope).filter _, ?_⟩
      rintro i hi j hj rfl
      rw [List.mem_singleton.mp (List.mem_of_mem_filter hi)] at hj
      exact (Diagram.mem_descendants.mp (List.mem_of_mem_filter hj)).2.1 rfl
    · exact List.nodup_singleton _
  rw [Topology.container, hagain]

/-- **Collecting again gives the same parts**, in document order. -/
theorem Stages.collect_again (h : Stages c prune scope d d₁ d₂ d' r maps gone)
    (hvalid : d.validate = .ok ()) (hrooted : d.Rooted) (hstay : Stays d d' r.topology)
    {t₀ : Topology} (hcollect : Topology.collect d scope = .ok t₀)
    (hnarrowed : Topology.Narrows prune d t₀ r.topology d₁) : Topology.collect d' scope =
      .ok { r.topology with domain := .basic, nodes := t₀.nodes, prunedGrounds := 0 } := by
  obtain ⟨-, hcollected⟩ := Topology.collect_eq_ok hcollect
  have hsorted := Topology.collect_inOrder hcollect
  obtain ⟨t₁, hagain, hnetwork, hdomain, hcount⟩ := Topology.exists_collect
    (h.container_again hvalid) fun i => (Diagram.nearestAncestor_eq_ok (h.rooted hrooted)
      (fun _ hloop => Diagram.not_inside_self hvalid (h.inside hloop)) i).1
  obtain ⟨-, hcollected'⟩ := Topology.collect_eq_ok hagain
  have hsorted' := Topology.collect_inOrder hagain
  have hnode : ∀ {i}, r.topology.isNode i = true ↔ i ∈ r.topology.nodes ∨ i ∈ r.topology.references ∨
      i ∈ r.topology.grounds ∨ ∃ interface, (i, interface) ∈ r.topology.interfaceNodes :=
    Topology.isNode_iff h.extracts.nodup_copies
  -- Each list is sorted by slots, so it is enough that its members are the same.
  have hnodes : t₁.nodes = t₀.nodes := by
    refine List.Pairwise.eq_of_mem_iff hsorted'.nodes hsorted.nodes fun i => ?_
    rw [hcollected'.nodes, hnetwork, h.nodeIn_iff hvalid hrooted, ← h.extracts.nodes,
      hnarrowed.nodes.mem_iff]
    exact and_iff_left_of_imp fun hi =>
      hstay i (.inl (hnode.mpr (.inl (hnarrowed.nodes.mem_iff.mpr hi))))
  have hreferences : t₁.references = r.topology.references := by
    rw [hnarrowed.references]
    refine List.Pairwise.eq_of_mem_iff hsorted'.references hsorted.references fun i => ?_
    rw [hcollected'.references, hnetwork, h.nodeIn_iff hvalid hrooted, ← h.extracts.references,
      hnarrowed.references]
    exact and_iff_left_of_imp fun hi =>
      hstay i (.inl (hnode.mpr (.inr (.inl (hnarrowed.references ▸ hi)))))
  have hgrounds : t₁.grounds = r.topology.grounds := by
    refine List.Pairwise.eq_of_mem_iff hsorted'.grounds (hsorted.grounds.sublist hnarrowed.grounds)
      fun i => ?_
    rw [hcollected'.grounds, hnetwork, h.nodeIn_iff hvalid hrooted]
    constructor
    · rintro ⟨hi, hin⟩
      -- A ground that was pruned is gone and cannot be found again.
      by_contra hnot
      rw [hnarrowed.network, ← hcollected.grounds] at hi
      have hgone := hnarrowed.loose i hi hnot (by rintro rfl; exact (h.rooted hrooted).not_inside hin)
      obtain ⟨e', he'⟩ := hin.live
      have hsame := h.sameView.elements i
      rw [hgone, he'] at hsame
      cases hsame
    · intro hi
      exact ⟨h.extracts.grounds i hi, hstay i (.inl (hnode.mpr (.inr (.inr (.inl hi)))))⟩
  have hcopies : t₁.interfaceNodes = r.topology.interfaceNodes := by
    rw [hnarrowed.copies]
    have hirrefl : Std.Irrefl fun a b : Slot × Slot => a.1 < b.1 := ⟨fun a => Nat.lt_irrefl a.1⟩
    have hasymm : Std.Asymm fun a b : Slot × Slot => a.1 < b.1 := ⟨fun a b => Nat.lt_asymm⟩
    refine List.Pairwise.eq_of_mem_iff (List.pairwise_map.mp hsorted'.copies)
      (List.pairwise_map.mp hsorted.copies) fun ⟨i, interface⟩ => ?_
    rw [hcollected'.copies, hnetwork, h.nodeIn_iff hvalid hrooted, ← h.extracts.copies, hnarrowed.copies]
    exact and_iff_left_of_imp fun hi =>
      hstay i (.inl (hnode.mpr (.inr (.inr (.inr ⟨interface, hnarrowed.copies ▸ hi⟩)))))
  have hlinks : t₁.links = r.topology.links := by
    rw [hcollected'.links, hnetwork, h.extracts.links]
    refine h.withRole_again hvalid (fun record role => by cases role <;> rfl) fun i hi => ?_
    exact hstay i (.inr (.inl (h.extracts.links ▸ hi)))
  have hspotters : t₁.spotters = r.topology.spotters := by
    rw [hcollected'.spotters, hnetwork, h.extracts.spotters]
    refine h.withRole_again hvalid (fun record role => by cases role <;> rfl) fun i hi => ?_
    exact hstay i (.inr (.inr (.inl (h.extracts.spotters ▸ hi))))
  have hinterfaces : t₁.interfaces = r.topology.interfaces := by
    rw [hcollected'.interfaces, hnetwork, h.extracts.interfaces]
    refine h.withRole_again hvalid Role.isInterface_setRecord fun i hi => ?_
    exact hstay i (.inr (.inr (.inr (.inl (h.extracts.interfaces ▸ hi)))))
  have hports : t₁.ports = r.topology.ports := by
    rw [hcollected'.ports, hnetwork, hlinks]
    exact h.ports_again hvalid hstay
  rw [hagain]
  congr 1
  clear hagain hcollected' hsorted'
  cases t₁
  simp_all only

/-- What is not removed has the kind it had. -/
theorem Stages.nodeKind_again (h : Stages c prune scope d d₁ d₂ d' r maps gone) (hi : i ∉ gone) :
    (d'.get? i).bind Element.nodeKind? = (d.get? i).bind Element.nodeKind? := by
  cases he : d.get? i with
  | none =>
    cases he' : d'.get? i with
    | none => rfl
    | some e' =>
      obtain ⟨e, he₀, -⟩ := h.frame he'
      rw [he] at he₀
      cases he₀
  | some e =>
    obtain ⟨e', he', -, hrole⟩ := h.forth he hi
    rw [he', Option.bind_some, Option.bind_some, Element.nodeKind?, Element.nodeKind?]
    rcases hrole with hrole | ⟨record, hrole⟩ <;> rw [hrole]
    cases e.role <;> rfl

/-- A link has the locator and the role that it had. -/
theorem Stages.link_again (h : Stages c prune scope d d₁ d₂ d' r maps gone)
    (hi : i ∈ r.topology.links) : ∃ e e', d.get? i = some e ∧ d'.get? i = some e' ∧
      e'.locator = e.locator ∧ e'.role = e.role := by
  have hgone := h.not_gone_link hi
  rw [h.extracts.links, Topology.mem_withRole] at hi
  obtain ⟨-, e, he, hlink⟩ := hi
  obtain ⟨e', he', -, hrole⟩ := h.forth he hgone
  have hget := h.extracts.get?_of_not_node he (by cases hr : e.role <;> rw [hr] at hlink <;>
    first | rfl | cases hlink)
  have hsame := h.sameView.elements i
  rw [hget, he'] at hsame
  cases hsame with
  | some hsame =>
    refine ⟨e, e', he, he', ?_, ?_⟩
    · rw [hsame.locator, Element.locator, Element.locator, Element.id_detachAll, Element.label_detachAll]
      congr 1
      show (e.detachAll gone).core.span = e.core.span
      rw [Element.core_detachAll]
    · rcases hrole with hrole | ⟨record, hrole⟩ <;> rw [hrole]
      cases hr : e.role <;> rw [hr] at hlink <;> first | rfl | cases hlink

/-- Grounds are told by their kind. -/
theorem isGround_congr (h : (d'.get? i).bind Element.nodeKind? = (d.get? i).bind Element.nodeKind?) :
    (d'.get? i).any Element.isGround = (d.get? i).any Element.isGround := by
  have hground : ∀ d : Diagram, (d.get? i).any Element.isGround =
      ((d.get? i).bind Element.nodeKind? == some .ground) := by
    intro d
    cases d.get? i with
    | none => rfl
    | some e =>
      rw [Option.any_some, Option.bind_some, Element.isGround, Element.nodeKind?]
      cases e.role with
      | node kind => cases kind <;> rfl
      | _ => rfl
  rw [hground, hground, h]

/-- **Extracting again gives the same topology and changes nothing.** -/
theorem Stages.extract_again (h : Stages c prune scope d d₁ d₂ d' r maps gone)
    (hvalid : d.validate = .ok ()) (hrooted : d.Rooted)
    (hlimit : r.topology.nodeCount ≤ Text.integerLimit) (hstay : Stays d d' r.topology) :
    Topology.extract c prune scope d' = .ok ({ r.topology with prunedGrounds := 0 }, d') := by
  obtain ⟨t₀, hcollect, hfilled, hdomain, hnarrowed⟩ := Topology.extract_narrows h.extract
  have hagain := h.collect_again hvalid hrooted hstay hcollect hnarrowed
  obtain ⟨-, hnodes, hlinks, hports⟩ := Topology.checkFilled_eq_ok.mp hfilled
  obtain ⟨-, e', -, he'⟩ := h.get?_network hvalid
  have hnode : ∀ {i}, r.topology.isNode i = true → i ∉ gone := h.extracts.not_gone
  have hisNode : ∀ {i}, r.topology.isNode i = true ↔ i ∈ r.topology.nodes ∨ i ∈ r.topology.references ∨
      i ∈ r.topology.grounds ∨ ∃ interface, (i, interface) ∈ r.topology.interfaceNodes :=
    Topology.isNode_iff h.extracts.nodup_copies
  -- Labels that numbering gave are still there: whatever was renumbered is a node.
  have hlabel : ∀ {i k}, Moves d r.topology i → Labelled d₁ i k → Labelled d' i k := by
    rintro i k hmoves ⟨e, he, hlabel⟩
    refine ⟨e, h.get?_of_node he ?_, hlabel⟩
    obtain ⟨e₀, x, he₀, -, -, -, hget⟩ := h.extracts.moved i hmoves
    rw [he] at hget
    cases hget
    rw [Element.role_detachAll]
    obtain ⟨home, q, hin | hin⟩ := h.extracts.nodeKind_of_moves hmoves
    all_goals
      obtain ⟨e₁, kind, he₁, hrole, -⟩ := hin.1.exists_kind
      rw [he₀] at he₁
      cases he₁
      show e₀.role.nodeKind?.isSome = true
      rw [hrole]
      rfl
  refine Topology.extract_steps.mpr ⟨_, r.topology.domain, _, d', hagain, ?_, ?_,
    Topology.renumber_of_labelled hnarrowed.nodes hnarrowed.nodup hlimit
      (fun k i hk => ?_) fun i hi => ?_, ?_⟩
  · refine Topology.checkFilled_eq_ok.mpr ⟨⟨e', he'⟩, hnodes, ?_, ?_⟩
    · exact hnarrowed.links ▸ hlinks
    · exact hnarrowed.ports ▸ hports
  · refine Topology.agreedDomain_congr (t := t₀) rfl hnarrowed.copies hnarrowed.links ⟨e', he'⟩ (fun i hi => ?_)
      (fun i hi => ?_) hdomain
    · refine h.nodeKind_again (hnode (hisNode.mpr ?_))
      rcases List.mem_append.mp hi with hi | hi
      · exact .inl (hnarrowed.nodes.mem_iff.mpr hi)
      · obtain ⟨⟨i, interface⟩, hmem, rfl⟩ := List.mem_map.mp hi
        exact .inr (.inr (.inr ⟨interface, hnarrowed.copies ▸ hmem⟩))
    · exact h.link_again (hnarrowed.links ▸ hi)
  · exact hlabel (.inl (List.mem_of_getElem? hk)) (hnarrowed.places k i hk)
  · have hi₀ : i ∈ Topology.aliases d r.topology := by
      rw [Topology.mem_aliases] at hi ⊢
      refine hi.imp id fun ⟨interface, hmem, hground⟩ => ⟨interface, hmem, ?_⟩
      have hsame := h.nodeKind_again (hnode (hisNode.mpr (.inr (.inr (.inr ⟨interface, hmem⟩)))))
      rw [← hground]
      exact isGround_congr hsame.symm
    obtain ⟨k, hlt, hk⟩ := hnarrowed.aliases i hi₀
    exact ⟨k, hlt, hlabel (.inr hi₀) hk⟩
  · cases prune with
    | false => rfl
    | true =>
      -- The grounds that are left are reached, so none is pruned now.
      refine Topology.pruneGrounds_of_reached fun i hi => ?_
      rw [← hnarrowed.reached rfl i hi]
      refine Topology.reaches_congr rfl fun p hp => ?_
      rw [← h.extracts.get?_port hp]
      have hsame := h.sameView.elements p
      generalize d₁.get? p = o at hsame
      generalize d'.get? p = o' at hsame
      cases hsame with
      | none => rfl
      | some hsame => exact hsame.touches i

/-! ## The whole compilation again -/

/-- What stays in a network that was compiled twice is what both topologies have. -/
theorem Stages.stays_of_again {d₁' d₂' : Diagram} {again : Compilation} {maps' : PortMaps}
    {gone' : List Slot} (h : Stages c prune scope d d₁ d₂ d' r maps gone)
    (h' : Stages c prune scope d' d₁' d₂' d' again maps' gone')
    (hsame : again.topology = { r.topology with prunedGrounds := 0 }) : Stays d d' r.topology := by
  have hnetwork : again.topology.network = r.topology.network := by rw [hsame]
  have hinside : ∀ {i}, i ∈ d'.descendants again.topology.network → d'.Inside i r.topology.network :=
    fun hi => hnetwork ▸ (Diagram.mem_descendants.mp hi).2.2
  have hrole : ∀ {i f}, i ∈ withRole d' (d'.descendants again.topology.network) f →
      d'.Inside i r.topology.network := fun hi => hinside (Topology.mem_withRole.mp hi).1
  rintro i (hi | hi | hi | hi | ⟨hi, -, hfree⟩)
  · rcases (Topology.isNode_iff h.extracts.nodup_copies).mp hi with hi | hi | hi | ⟨interface, hi⟩
    · rw [show r.topology.nodes = again.topology.nodes by rw [hsame]] at hi
      exact hinside ((h'.extracts.nodes i).mp hi).inside
    · rw [show r.topology.references = again.topology.references by rw [hsame]] at hi
      exact hinside ((h'.extracts.references i).mp hi).inside
    · rw [show r.topology.grounds = again.topology.grounds by rw [hsame]] at hi
      exact hinside (h'.extracts.grounds i hi).inside
    · rw [show r.topology.interfaceNodes = again.topology.interfaceNodes by rw [hsame]] at hi
      exact hinside ((h'.extracts.copies i interface).mp hi).inside
  · rw [show r.topology.links = again.topology.links by rw [hsame], h'.extracts.links] at hi
    exact hrole hi
  · rw [show r.topology.spotters = again.topology.spotters by rw [hsame], h'.extracts.spotters] at hi
    exact hrole hi
  · rw [show r.topology.interfaces = again.topology.interfaces by rw [hsame],
      h'.extracts.interfaces] at hi
    exact hrole hi
  · rw [show r.topology.ports = again.topology.ports by rw [hsame], h'.extracts.ports,
      mem_portsOf_iff] at hi
    obtain ⟨⟨e', he', -⟩, hi⟩ := hi
    refine hinside (hi.resolve_right fun ⟨link, hlink, htouch⟩ => ?_)
    rw [show again.topology.links = r.topology.links by rw [hsame]] at hlink
    obtain ⟨e, he, htouches⟩ := h.touches_port he'
    rw [he', Option.any_some] at htouch
    have hnot := hfree link hlink
    rw [he, Option.any_some, ((htouches link).mp htouch).1] at hnot
    cases hnot

/-- **Compiling again gives the same network and changes nothing iff all parts of the
network stay in it.** -/
theorem compile_again {switches : Switches} (hrooted : d.Rooted)
    (hlimit : r.topology.nodeCount ≤ Text.integerLimit)
    (h : Edit.Runs (compile c switches scope) d r d') :
    (∃ again, Edit.Runs (compile c switches scope) d' again d' ∧ again.network = r.network ∧
      again.topology = { r.topology with prunedGrounds := 0 } ∧
      again.reconciliation.reports = []) ↔ Stays d d' r.topology := by
  obtain ⟨hvalid, t, d₁, maps, reconciliation, d₂, entries, network, hextract, hbuild, hreconcile,
    hrecord, hnetwork, rfl⟩ := compile_runs_iff.mp h
  obtain ⟨gone, hstages⟩ := stages_of_runs hextract hbuild hreconcile hrecord hnetwork
  constructor
  · rintro ⟨again, hagain, -, hsame, -⟩
    obtain ⟨d₁', d₂', maps', gone', hstages'⟩ := compile_runs hagain
    exact hstages.stays_of_again hstages' hsame
  · intro hstay
    have hother : ∀ i, Recording.IsOther d₂ i → d'.get? i = d₂.get? i := by
      rintro i ⟨e, he, hrole⟩
      refine hstages.others i fun hmem => ?_
      obtain ⟨e₁, he₁, hinterface⟩ := (Recording.interfaces_of_extracts hstages.extracts).2 i hmem
      obtain ⟨e₂, he₂, hbare⟩ := hstages.reconciled.role he₁
      rw [he] at he₂
      cases he₂
      rw [Element.role_of_bare hbare, hinterface] at hrole
      cases hrole
    have hparts : PortMap.SameParts t { t with prunedGrounds := 0 } :=
      ⟨rfl, rfl, fun _ => rfl, fun _ => rfl⟩
    have hbuild' := (PortMap.build_congr (c := c) hstages.sameView hparts).trans hbuild
    have hreconcile' : ∃ r, Edit.Runs (reconcileIf c switches { t with prunedGrounds := 0 }) d' r d' ∧
        r.reports = [] := by
      rw [reconcileIf] at hreconcile ⊢
      split at hreconcile
      · rename_i hyes
        rw [if_pos hyes]
        refine reconcile_of_settled fun i hi e master he hmaster => ?_
        refine reconcile_settles hreconcile i hi e master ?_ hmaster
        rw [← hstages.others i fun hmem => ?_, he]
        -- An interface has no master.
        obtain ⟨e', record, he', hrecord, -⟩ := hstages.record hmem
        rw [he] at he'
        cases he'
        cases hr : e.role <;> rw [hr] at hmaster hrecord <;> first | cases hmaster | cases hrecord
      · rename_i hno
        rw [if_neg hno]
        exact ⟨_, Edit.runs_pure.mpr ⟨rfl, rfl⟩, rfl⟩
    obtain ⟨r, hreconcile', hreports⟩ := hreconcile'
    have hrecorded : Edit.Runs (Recording.record { t with prunedGrounds := 0 } maps) d' entries d' := by
      refine record_again (d := d₂) ?_ fun i => ?_
      · have hentries := interfaces_readNetwork hnetwork
        rw [← hentries]
        exact hstages.recorded
      · refine Recording.connections_congr fun b hb => ?_
        obtain ⟨hnode, hlink⟩ := sound_of_reconciled hstages.extracts hbuild hstages.reconciled b
          (List.mem_of_mem_filter hb)
        exact ⟨hother b.node hnode, hother b.link hlink⟩
    refine ⟨⟨network, { t with prunedGrounds := 0 }, r⟩, compile_runs_iff.mpr ⟨?_, _, d', maps, r, d',
      entries, network, hstages.extract_again hvalid hrooted hlimit hstay, hbuild', hreconcile',
      hrecorded, hnetwork, rfl⟩, rfl, rfl, hreports⟩
    exact Diagram.validate_of_not_inside fun i hloop =>
      Diagram.not_inside_self hvalid (hstages.inside hloop)

/-! ## A gauge on a ground -/

/-- The masters of valves and of gauges. -/
def fittings : Catalog :=
  ⟨Recording.valves.masters ++ [{ kind := .spotter, subtype := "Gauge" }]⟩

/-- A valve between two nodes, a ground that no port reaches, and a gauge in `home`. -/
def gauged (home : Slot) : Diagram :=
  let elements : List Element :=
    [{ id := "root", role := .root },
      { id := "net", role := .network .sub, parent := some 0 },
      { id := "a", role := .node .basic, label := "0", parent := some 1 },
      { id := "b", role := .node .basic, label := "1", parent := some 1 },
      { id := "v", role := .link ⟨"Valve", none⟩, label := "V1", parent := some 1 },
      { id := "g", role := .node .ground, parent := some 1 },
      { id := "t", role := .spotter ⟨"Gauge", none⟩, label := "T1", parent := some home },
      { id := "p", role := .port, label := "0", parent := some 1, source := some 4, target := some 2 },
      { id := "q", role := .port, label := "1", parent := some 1, source := some 4, target := some 3 }]
  ⟨(elements.map some).toArray⟩

/-- The topology of such a network, when the ground is removed. -/
def gaugedTopology : Topology where
  network := 1
  domain := .basic
  nodes := [2, 3]
  references := []
  grounds := []
  links := [4]
  ports := [7, 8]
  spotters := [6]
  interfaces := []
  interfaceNodes := []
  prunedGrounds := 1

theorem mem_of_isPart_gauged (h : IsPart d gaugedTopology i) : i ∈ [2, 3, 4, 6, 7, 8] := by
  rcases h with h | h | h | h | ⟨h, -⟩
  · obtain h | h | h | ⟨interface, h⟩ := (Topology.isNode_iff (by decide)).mp h
    · exact (by decide : gaugedTopology.nodes ⊆ [2, 3, 4, 6, 7, 8]) h
    · cases h
    · cases h
    · cases h
  · exact (by decide : gaugedTopology.links ⊆ [2, 3, 4, 6, 7, 8]) h
  · exact (by decide : gaugedTopology.spotters ⊆ [2, 3, 4, 6, 7, 8]) h
  · cases h
  · exact (by decide : gaugedTopology.ports ⊆ [2, 3, 4, 6, 7, 8]) h

/-- A gauge beside the ground is there again when the ground is gone. -/
theorem compile_again_gauged :
    ∃ r d', Edit.Runs (compile fittings {} root) (gauged 1) r d' ∧ r.topology = gaugedTopology ∧
      ∃ again, Edit.Runs (compile fittings {} root) d' again d' ∧ again.network = r.network := by
  have hout : ((compile fittings {} root).run (gauged 1)).result.toOption.any
      (fun r => decide (r.topology = gaugedTopology)) = true := by cbv
  have hinside : [2, 3, 4, 6, 7, 8].all
      (((compile fittings {} root).run (gauged 1)).diagram.descendants 1).contains = true := by cbv
  simp only [Option.any_eq_true, toOption_eq_some, decide_eq_true_eq] at hout
  obtain ⟨r, hr, htopology⟩ := hout
  have hruns : Edit.Runs (compile fittings {} root) (gauged 1) r _ := ⟨hr, rfl⟩
  generalize ((compile fittings {} root).run (gauged 1)).diagram = d' at hinside hruns
  have hstays : Stays (gauged 1) d' r.topology := fun i hi => by
    have hmem := mem_of_isPart_gauged (htopology ▸ hi)
    rw [htopology]
    exact (Diagram.mem_descendants.mp
      (List.contains_iff_mem.mp (List.all_eq_true.mp hinside i hmem))).2.2
  have hrooted : (gauged 1).Rooted := by
    rintro p ⟨e, he, hparent⟩
    cases he
    cases hparent
  obtain ⟨again, hagain, hnetwork, -⟩ :=
    (compile_again hrooted (by rw [htopology]; decide) hruns).mpr hstays
  exact ⟨r, d', hruns, htopology, again, hagain, hnetwork⟩

/-- **A gauge on the ground is lost**: the first compilation lists it and removes the
ground, and the second one does not find it. -/
theorem compile_again_loses :
    ∃ r d' again d'', Edit.Runs (compile fittings {} root) (gauged 5) r d' ∧
      Edit.Runs (compile fittings {} root) d' again d'' ∧
      r.network.spotters.map SpotterRecord.name = ["T1"] ∧ again.network.spotters = [] := by
  have hfirst : ((compile fittings {} root).run (gauged 5)).result.toOption.any
      (fun r => decide (r.network.spotters.map SpotterRecord.name = ["T1"])) = true := by cbv
  have hsecond : ((compile fittings {} root).run
      ((compile fittings {} root).run (gauged 5)).diagram).result.toOption.any
      (fun r => decide (r.network.spotters = [])) = true := by cbv
  simp only [Option.any_eq_true, toOption_eq_some, decide_eq_true_eq] at hfirst hsecond
  obtain ⟨r, hr, hnames⟩ := hfirst
  obtain ⟨again, hagain, hnone⟩ := hsecond
  exact ⟨r, _, again, _, ⟨hr, rfl⟩, ⟨hagain, rfl⟩, hnames, hnone⟩

end Netlist.Compilation
