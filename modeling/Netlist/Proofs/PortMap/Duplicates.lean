import Netlist.Proofs.PortMap.Links
import Netlist.Topology.Extraction

/-!
# Duplicate ports

Two ports of a link may share a number only if they end in different parts of
the network. While ports are read, a slot remembers one claim, and a port is
compared with that claim alone. So a pair goes unnoticed if its earlier port
does not hold the slot any more, or never did.

- `Doubled`: a link has two ports with one number in one part of the network.
- `Noticed`: it has such a pair, and the earlier port of the pair holds the slot
  when the later one is read. In the main network this is always so.
- `build_notices`: **port maps are refused for the noticed pairs, and only for
  them**.
- `doubled_not_noticed`: a pair of ports that is not noticed.
-/

namespace Netlist.PortMap

variable {c : Catalog} {d : Diagram} {t : Topology} {link : Slot} {number : Nat}

/-- Two ports of a link share a number and end in the same part of the network. -/
def Doubled (d : Diagram) (t : Topology) (link : Slot) (number : Nat) : Prop :=
  ∃ scope before i between j after,
    portsAt d t link number = before ++ i :: (between ++ j :: after) ∧
      scope? d t link i = some scope ∧ scope? d t link j = some scope

/-- Two ports of a link share a number and end in the same part of the network.
That part is the main network, or else the earlier port is the first of all with
the number and none between the two ends in the main network. -/
def Noticed (d : Diagram) (t : Topology) (link : Slot) (number : Nat) : Prop :=
  ∃ scope before i between j after,
    portsAt d t link number = before ++ i :: (between ++ j :: after) ∧
      scope? d t link i = some scope ∧ scope? d t link j = some scope ∧
        (scope = none ∨ before = [] ∧ ∀ p ∈ between, scope? d t link p ≠ some none)

/-- Ports are noticed iff the parts of the network they end in collide. -/
theorem noticed_iff_collides {scopes : List (Option Slot)}
    (h : (portsAt d t link number).map (scope? d t link) = scopes.map some) :
    Noticed d t link number ↔ Collides scopes := by
  constructor
  · rintro ⟨scope, before, i, between, j, after, hports, hi, hj, hwhere⟩
    rw [hports] at h
    simp only [List.map_append, List.map_cons, hi, hj] at h
    obtain ⟨before', rest, rfl, hbefore, hrest⟩ := List.map_eq_append_iff.mp h.symm
    obtain ⟨s, rest, rfl, hs, hrest⟩ := List.map_eq_cons_iff.mp hrest
    obtain ⟨between', rest, rfl, hbetween, hrest⟩ := List.map_eq_append_iff.mp hrest
    obtain ⟨s', after', rfl, hs', -⟩ := List.map_eq_cons_iff.mp hrest
    cases hs
    cases hs'
    refine ⟨before', scope, between', after', rfl, ?_⟩
    rcases hwhere with hmain | ⟨rfl, hnone⟩
    · exact .inl hmain
    · refine .inr ⟨List.map_eq_nil_iff.mp hbefore, fun hmem => ?_⟩
      have : some none ∈ between'.map some := List.mem_map_of_mem hmem
      rw [hbetween] at this
      obtain ⟨p, hp, hscope⟩ := List.mem_map.mp this
      exact hnone p hp hscope
  · rintro ⟨before', s, between', after', rfl, hwhere⟩
    simp only [List.map_append, List.map_cons] at h
    obtain ⟨before, rest, hports, hbefore, hrest⟩ := List.map_eq_append_iff.mp h
    obtain ⟨i, rest, rfl, hi, hrest⟩ := List.map_eq_cons_iff.mp hrest
    obtain ⟨between, rest, rfl, hbetween, hrest⟩ := List.map_eq_append_iff.mp hrest
    obtain ⟨j, after, rfl, hj, -⟩ := List.map_eq_cons_iff.mp hrest
    refine ⟨s, before, i, between, j, after, hports, hi, hj, ?_⟩
    rcases hwhere with hmain | ⟨rfl, hnone⟩
    · exact .inl hmain
    · refine .inr ⟨List.map_eq_nil_iff.mp hbefore, fun p hp hscope => hnone ?_⟩
      have : some none ∈ between.map (scope? d t link) := hscope ▸ List.mem_map_of_mem hp
      rw [hbetween] at this
      simpa using this

/-! ## Where a duplicate can be reported -/

theorem readPort_ne_duplicate {owner : Locator} {edge : Slot} {o p : Locator} :
    readPort d t link owner edge ≠ .error (.violation (.duplicatePort o p number)) := by
  intro h
  rw [readPort, bind_eq_error] at h
  rcases h with h | ⟨e, -, h⟩
  · rw [Diagram.fetch] at h
    split at h <;> cases h
  · split at h
    · cases h
    · split at h <;> cases h

theorem drawnPorts_ne_duplicate {owner : Locator} {edges : List Slot} {o p : Locator} :
    drawnPorts d t link owner edges ≠ .error (.violation (.duplicatePort o p number)) := by
  intro h
  induction edges with
  | nil => cases h
  | cons edge edges ih =>
    rw [drawnPorts, bind_eq_error] at h
    rcases h with h | ⟨e, -, h⟩
    · rw [Diagram.fetch] at h
      split at h <;> cases h
    split at h
    · rw [bind_eq_error] at h
      rcases h with h | ⟨drawn, -, h⟩
      · exact readPort_ne_duplicate h
      · rw [bind_eq_error] at h
        rcases h with h | ⟨rest, -, h⟩
        · exact ih h
        · cases h
    · exact ih h

/-- A link for which a duplicate is reported has a pair that is noticed. -/
theorem resolve_eq_duplicate {owner : Locator} {master : Master} {o p : Locator}
    (h : resolve d t link owner master = .error (.violation (.duplicatePort o p number))) :
    o = owner ∧ Noticed d t link number := by
  rw [resolve, bind_eq_error] at h
  rcases h with h | ⟨drawn, hdrawn, h⟩
  · exact absurd h drawnPorts_ne_duplicate
  split at h
  · cases h
  rw [bind_eq_error] at h
  rcases h with h | ⟨filled, -, h⟩
  · obtain ⟨ho, held, hheld, hclash⟩ := fill_eq_duplicate h
    rw [List.getElem?_replicate] at hheld
    split_ifs at hheld
    cases hheld
    exact ⟨ho, (noticed_iff_collides (map_scope?_portsAt hdrawn number)).mpr
      ((clash_none _).mp hclash)⟩
  · cases h

theorem resolveAll_eq_duplicate {links : List Slot} {o p : Locator}
    (h : resolveAll c d t links = .error (.violation (.duplicatePort o p number))) :
    ∃ link ∈ links, Noticed d t link number ∧ (d.get? link).map Element.locator = some o := by
  induction links with
  | nil => cases h
  | cons link links ih =>
    rw [resolveAll, bind_eq_error] at h
    rcases h with h | ⟨e, he, h⟩
    · rw [Diagram.fetch] at h
      split at h <;> cases h
    rw [Diagram.fetch_eq_ok] at he
    split at h
    · cases h
    rw [bind_eq_error] at h
    rcases h with h | ⟨⟨resolved, bindings⟩, -, h⟩
    · obtain ⟨rfl, hnoticed⟩ := resolve_eq_duplicate h
      exact ⟨link, List.mem_cons_self, hnoticed, by rw [he]; rfl⟩
    rw [bind_eq_error] at h
    rcases h with h | ⟨later, -, h⟩
    · obtain ⟨other, hother, hnoticed⟩ := ih h
      exact ⟨other, List.mem_cons_of_mem link hother, hnoticed⟩
    · split at h <;> cases h

/-- **Port maps are refused for the noticed pairs of ports, and only for them.**
The refusal names the link. -/
theorem build_notices (c : Catalog) (t : Topology) (d : Diagram) :
    (∀ maps, PortMaps.build c t d = .ok maps →
      ∀ link ∈ t.links, ∀ number, ¬ Noticed d t link number) ∧
    ∀ owner port number,
      PortMaps.build c t d = .error (.violation (.duplicatePort owner port number)) →
        ∃ link ∈ t.links, Noticed d t link number ∧
          (d.get? link).map Element.locator = some owner := by
  constructor
  · intro maps h link hlink number hnoticed
    have hmem : link ∈ setUpOrder c d t.links := by
      rw [setUpOrder, List.mem_append, List.mem_filter, List.mem_filter]
      cases isJumper c d link <;> simp [hlink]
    obtain ⟨resolved, -, hresolved⟩ := forall₂_mem_left (build_eq_ok h).1 hmem
    obtain ⟨e, master, portMap, -, -, hresolves, -⟩ := hresolved.drawn
    obtain ⟨scopes, hscopes, hapart⟩ := hresolves.distinct number
    exact hapart ((noticed_iff_collides hscopes).mp hnoticed)
  · intro owner port number h
    rw [PortMaps.build, bind_eq_error] at h
    rcases h with h | ⟨progress, -, h⟩
    · exact resolveAll_eq_duplicate h
    · cases h

/-! ## A pair that is not noticed -/

/-- The library of one master, a resistor with two ports. -/
def resistors : Catalog :=
  ⟨[{ kind := .link, subtype := "Resistor", domain := some .basic, ports := 2, required := [0, 1] }]⟩

/-- An element of the network in slot `1`. -/
def part (id : String) (role : Role) (label : String) (parent : Slot := 1) : Element :=
  { id := id, role := role, label := label, parent := some parent }

/-- A port of the resistor in slot `4`. -/
def wire (id label : String) (node : Slot) : Element :=
  { part id .port label with source := some 4, target := some node }

/-- A resistor whose port `0` ends at node `2` and which has a port `1` for each
of the given ends. Nodes `6` and `7` are copies in the interface `5`. -/
def resistorWith (ends : List Slot) : Diagram :=
  let elements : List Element :=
    [{ id := "root", role := .root },
      part "net" (.network .sub) "net" Diagram.root,
      part "a" (.node .basic) "0",
      part "b" (.node .basic) "1",
      part "r" (.link ⟨"Resistor", none⟩) "R1",
      part "i" (.interface ⟨none, none⟩) "inlet",
      part "ka" (.node .basic) "0" 5,
      part "kb" (.node .basic) "1" 5,
      wire "p" "0" 2]
  ⟨((elements ++ ends.mapIdx fun k node => wire (toString k) "1" node).map some).toArray⟩

/-- The topology of such a network with three ends. -/
def resistorTopology : Topology where
  network := 1
  domain := .basic
  nodes := [2, 3]
  references := []
  grounds := []
  links := [4]
  ports := [8, 9, 10, 11]
  spotters := []
  interfaces := [5]
  interfaceNodes := [(6, 5), (7, 5)]
  prunedGrounds := 0

/-- A second port in the main network is refused, and nothing before it hides it. -/
theorem build_notices_resistor :
    ¬ Noticed (resistorWith [3, 6, 7]) resistorTopology 4 1 ∧
      ∃ link ∈ resistorTopology.links, Noticed (resistorWith [3, 6, 3]) resistorTopology link 1 := by
  constructor
  · exact (build_notices resistors resistorTopology (resistorWith [3, 6, 7])).1
      ⟨[⟨4, [.node 0, .node 1]⟩], [], []⟩ (by cbv) 4 (by decide) 1
  · obtain ⟨link, hlink, hnoticed, -⟩ :=
      (build_notices resistors resistorTopology (resistorWith [3, 6, 3])).2
        ⟨"r", "R1", none⟩ ⟨"2", "1", none⟩ 1 (by cbv)
    exact ⟨link, hlink, hnoticed⟩

/-- **Two ports in one interface pass** after a port in the main network: it
holds the slot, so the second of them is not compared with the first. -/
theorem doubled_not_noticed :
    Topology.extract resistors true Diagram.root (resistorWith [3, 6, 7]) =
        .ok (resistorTopology, resistorWith [3, 6, 7]) ∧
      (PortMaps.build resistors resistorTopology (resistorWith [3, 6, 7])).toOption.isSome = true ∧
      Doubled (resistorWith [3, 6, 7]) resistorTopology 4 1 := by
  refine ⟨by cbv, by cbv, some 5, [9], 10, [], 11, [], ?_, ?_, ?_⟩
  all_goals cbv

end Netlist.PortMap
