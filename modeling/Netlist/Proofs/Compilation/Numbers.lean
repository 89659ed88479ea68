import Netlist.Proofs.Compilation.Interfaces
import Netlist.Proofs.Topology.Partition
import Netlist.Proofs.Topology.Ranking

/-!
# Numbers in a network without interfaces

The copies of a node inside interfaces carry its number. Where there are no interfaces
there are no copies, and each node has a number of its own.

- `Stages.interfaceAround_eq_none`: no node is in an interface if none is in the network.
- `Stages.label_injective`: **the nodes of a network without interfaces have different
  numbers.**
-/

namespace Netlist.Compilation

open Diagram (root)

variable {c : Catalog} {prune : Bool} {d d₁ d₂ d' : Diagram} {r : Compilation} {maps : PortMaps}
  {gone : List Slot} {o o' : Slot} {e e' : Element} {kind kind' : NodeKind}

/-- **No node of a network is in an interface if no interface is in the network.** -/
theorem Stages.interfaceAround_eq_none (h : Stages c prune root d d₁ d₂ d' r maps gone)
    (hvalid : d.validate = .ok ()) (hnone : r.topology.interfaces = [])
    (hin : d.Inside o r.topology.network) : Topology.interfaceAround d o = .ok none := by
  obtain ⟨home, hhome⟩ : ∃ home, Topology.interfaceAround d o = .ok home :=
    Diagram.exists_nearestAncestor (fun _ => Diagram.not_inside_self hvalid) o _
  cases home with
  | none => exact hhome
  | some i =>
    have hmem := Topology.mem_interfaces_of_around h.extract (h.root_outside hvalid (.inl rfl))
      hin hhome
    rw [hnone] at hmem
    cases hmem

/-- A numbered node of a network without interfaces is in the main network. -/
theorem Stages.mem_nodes (h : Stages c prune root d d₁ d₂ d' r maps gone)
    (hvalid : d.validate = .ok ()) (hnone : r.topology.interfaces = [])
    (hin : d.Inside o r.topology.network) (he : d'.get? o = some e) (hkind : e.role = .node kind)
    (hnumbered : kind.isNumbered = true) : o ∈ r.topology.nodes := by
  obtain ⟨e₀, he₀, hsame⟩ := h.role (f := Role.nodeKind?) (fun _ role => by cases role <;> rfl) he
  have hnode : e₀.role = .node kind := by
    refine Topology.nodeKind?_eq_some.mp (hsame.symm.trans ?_)
    rw [hkind]
    rfl
  refine (h.extracts.nodes o).mpr ⟨h.mem_network hvalid hin, ?_,
    h.interfaceAround_eq_none hvalid hnone hin⟩
  rw [he₀, Option.any_some, Topology.nodeKind?_eq_some.mpr hnode, Option.any_some, hnumbered]

/-- **The nodes of a network without interfaces have different numbers.** -/
theorem Stages.label_injective (h : Stages c prune root d d₁ d₂ d' r maps gone)
    (hvalid : d.validate = .ok ()) (hnone : r.topology.interfaces = [])
    (hin : d.Inside o r.topology.network) (he : d'.get? o = some e) (hkind : e.role = .node kind)
    (hnumbered : kind.isNumbered = true)
    (hin' : d.Inside o' r.topology.network) (he' : d'.get? o' = some e')
    (hkind' : e'.role = .node kind') (hnumbered' : kind'.isNumbered = true)
    (hlabel : e'.label = e.label) : o' = o := by
  have hranked := Topology.ranked_of_extract h.extract
  have hplace : ∀ {o e kind}, d.Inside o r.topology.network → d'.get? o = some e →
      e.role = .node kind → kind.isNumbered = true →
      ∃ k : Nat, r.topology.nodes[k]? = some o ∧ e.label = toString k := by
    intro o e kind hin he hkind hnumbered
    obtain ⟨k, hk⟩ := List.mem_iff_getElem?.mp (h.mem_nodes hvalid hnone hin he hkind hnumbered)
    obtain ⟨e₁, he₁, hlabelled⟩ := hranked.places k o hk
    obtain ⟨e₁', he₁', -, hsame, -⟩ := h.extracted he
    rw [he₁] at he₁'
    cases he₁'
    exact ⟨k, hk, hsame.trans hlabelled⟩
  obtain ⟨k, hk, hlabel₁⟩ := hplace hin he hkind hnumbered
  obtain ⟨l, hl, hlabel₂⟩ := hplace hin' he' hkind' hnumbered'
  obtain rfl : l = k := Text.toString_inj.mp (hlabel₂.symm.trans (hlabel.trans hlabel₁))
  rw [hk, Option.some.injEq] at hl
  exact hl.symm

end Netlist.Compilation
