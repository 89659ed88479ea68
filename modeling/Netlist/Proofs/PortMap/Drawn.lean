import Netlist.Proofs.PortMap.Links

/-!
# The ports that are read

Building port maps reads every port of the network once for each link that it
touches, and keeps a binding for each that ends at a keyed node of an interface.
A binding is kept whether or not its port wins the slot.

- `edgesOf`: the ports of a link.
- `bindingAt?`: the binding that a port of a link makes, read off the diagram.
- `bindings_of_build`: **the bindings of the port maps are those that the ports
  make**, link by link and port by port.
- `drawn_of_build`: every port that touches a link of the network has a number
  and a node of the network at its far end.
-/

namespace Netlist.PortMap

variable {c : Catalog} {d : Diagram} {t : Topology} {link : Slot} {owner : Locator}

/-- The ports of a link, in document order. -/
def edgesOf (d : Diagram) (t : Topology) (link : Slot) : List Slot :=
  t.ports.filter fun i => (d.get? i).any fun e => e.touches link

theorem mem_edgesOf {p : Slot} :
    p ∈ edgesOf d t link ↔ p ∈ t.ports ∧ ∃ e, d.get? p = some e ∧ e.touches link = true := by
  rw [edgesOf, List.mem_filter, Option.any_eq_true]

/-- The binding that a port of a link makes. -/
def bindingAt? (d : Diagram) (t : Topology) (link edge : Slot) : Option InterfaceBinding :=
  ((d.get? edge).bind (Element.labelNatural? Text.countLimit)).bind fun number =>
    (farNode? d t link edge).bind fun node => binding? d t link ⟨number, edge, node⟩

/-- A port that was read makes the binding that is kept for it. -/
theorem IsDrawn.bindingAt? {p : DrawnPort} (h : IsDrawn d t link p) :
    PortMap.bindingAt? d t link p.edge = binding? d t link p := by
  obtain ⟨e, he, -, hnumber⟩ := PortMap.carries_iff.mp h.carries
  rw [PortMap.bindingAt?, he, Option.bind_some, hnumber, Option.bind_some, h.far, Option.bind_some]

/-- The bindings of one link. -/
theorem filterMap_binding? {drawn : List DrawnPort}
    (h : drawnPorts d t link owner t.ports = .ok drawn) :
    drawn.filterMap (binding? d t link) = (edgesOf d t link).filterMap (bindingAt? d t link) := by
  obtain ⟨hdrawn, hedges⟩ := drawnPorts_eq_ok h
  rw [edgesOf, ← hedges, List.filterMap_map]
  exact List.filterMap_congr fun p hp => (hdrawn p hp).bindingAt?.symm

/-- What was read of the ports of some links. -/
structure Reads (d : Diagram) (t : Topology) (links : List Slot)
    (bindings : List InterfaceBinding) : Prop where
  drawn : ∀ link ∈ links, ∃ owner drawn, drawnPorts d t link owner t.ports = .ok drawn
  bindings : bindings = links.flatMap fun link => (edgesOf d t link).filterMap (bindingAt? d t link)

/-- The ports of all links are read before any port map is done. -/
theorem reads_of_resolveAll {links : List Slot} {progress : Progress}
    (h : resolveAll c d t links = .ok progress) : Reads d t links progress.bindings := by
  induction links generalizing progress with
  | nil =>
    cases h
    exact ⟨fun _ hmem => (nomatch hmem), rfl⟩
  | cons link links ih =>
    rw [resolveAll, bind_eq_ok] at h
    obtain ⟨e, -, h⟩ := h
    split at h
    · cases h
    rw [bind_eq_ok] at h
    obtain ⟨⟨resolved, bindings⟩, hresolve, h⟩ := h
    rw [bind_eq_ok] at h
    obtain ⟨later, hlater, h⟩ := h
    obtain ⟨hread, hbindings⟩ := ih hlater
    obtain ⟨-, -, drawn, hdrawn, rfl⟩ := resolve_eq_ok hresolve
    -- With or without plugs, the bindings of the link come first.
    have hprogress : progress.bindings = drawn.filterMap (binding? d t link) ++ later.bindings := by
      split at h <;> cases h <;> rfl
    refine ⟨List.forall_mem_cons.mpr ⟨⟨_, _, hdrawn⟩, hread⟩, ?_⟩
    rw [hprogress, filterMap_binding? hdrawn, hbindings, List.flatMap_cons]

theorem reads_of_build {maps : PortMaps} (h : PortMaps.build c t d = .ok maps) :
    Reads d t t.links maps.bindings := by
  rw [PortMaps.build, bind_eq_ok] at h
  obtain ⟨progress, hprogress, h⟩ := h
  cases h
  exact reads_of_resolveAll hprogress

/-- **The bindings of the port maps are those that the ports make**, link by link
and port by port. -/
theorem bindings_of_build {maps : PortMaps} (h : PortMaps.build c t d = .ok maps) :
    maps.bindings = t.links.flatMap fun link =>
      (edgesOf d t link).filterMap (bindingAt? d t link) :=
  (reads_of_build h).bindings

/-- **Every port that touches a link of the network is read**: it has a number, and
its far end is a node of the network. -/
theorem drawn_of_build {maps : PortMaps} (h : PortMaps.build c t d = .ok maps)
    (hlink : link ∈ t.links) {p : Slot} (hp : p ∈ edgesOf d t link) :
    ∃ port : DrawnPort, port.edge = p ∧ IsDrawn d t link port := by
  obtain ⟨owner, drawn, hread⟩ := (reads_of_build h).drawn link hlink
  obtain ⟨hdrawn, hedges⟩ := drawnPorts_eq_ok hread
  rw [edgesOf, ← hedges] at hp
  obtain ⟨port, hport, rfl⟩ := List.mem_map.mp hp
  exact ⟨port, rfl, hdrawn port hport⟩

end Netlist.PortMap
