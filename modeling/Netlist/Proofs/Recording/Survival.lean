import Netlist.Proofs.Connections.RoundTrip
import Netlist.Proofs.Element.Role
import Netlist.Proofs.Fields
import Netlist.Proofs.Lists
import Netlist.Proofs.PortMap.Links
import Netlist.Proofs.Topology.Extraction
import Netlist.Recording

/-!
# Records survive a save

Recording an interface stores a record with its role and writes it into two
fields, from which it is read again when the document is opened the next time.

- `record_runs`: recording succeeds on a compiled network and changes nothing
  but the interfaces, each of which gets the record of its bindings.
- `record_survives`: **the record of an interface is read back from its fields
  iff its links and keys can be written**.
- `record_lost`: a link without a label, which cannot.
-/

namespace Netlist.Recording

open Netlist.Connections (InRange Writable readRecord nodeCountField connectionsField)

variable {t : Topology} {maps : PortMaps} {d d' : Diagram} {interface : Slot}

/-! ## Connections -/

/-- The element in a slot is there and no interface. -/
def IsOther (d : Diagram) (i : Slot) : Prop :=
  ∃ e, d.get? i = some e ∧ e.role.isInterface = false

/-- Bindings between elements that are no interfaces. -/
def Sound (d : Diagram) (bindings : List InterfaceBinding) : Prop :=
  ∀ b ∈ bindings, IsOther d b.node ∧ IsOther d b.link

/-- The connection of a binding keeps its port and the port map of its link. -/
theorem connection?_eq_ok {b : InterfaceBinding} {c : Connection}
    (h : connection? maps d b = .ok (some c)) : c.port = b.port ∧ c.portMap = maps.numbers b.link := by
  rw [connection?, bind_eq_ok] at h
  obtain ⟨node, -, h⟩ := h
  split at h
  · cases h
  · rw [bind_eq_ok] at h
    obtain ⟨link, -, h⟩ := h
    cases h
    exact ⟨rfl, rfl⟩

theorem exists_connection? {b : InterfaceBinding} (hnode : IsOther d b.node)
    (hlink : IsOther d b.link) : ∃ c, connection? maps d b = .ok c := by
  obtain ⟨node, hnode, -⟩ := hnode
  obtain ⟨link, hlink, -⟩ := hlink
  simp only [connection?, bind_eq_ok, Diagram.fetch_eq_ok, hnode, Option.some.injEq]
  cases hkey : node.key? with
  | none => exact ⟨none, node, rfl, by rw [hkey]; rfl⟩
  | some key =>
    refine ⟨some ⟨link.label, b.port, key, maps.numbers b.link⟩, node, rfl, ?_⟩
    rw [hkey]
    exact bind_eq_ok.mpr ⟨link, Diagram.fetch_eq_ok.mpr hlink, rfl⟩

/-- Sound bindings lead to connections. -/
theorem exists_connections {bindings : List InterfaceBinding} (h : Sound d bindings) :
    ∃ cs, connections maps d bindings = .ok cs := by
  induction bindings with
  | nil => exact ⟨[], rfl⟩
  | cons b bindings ih =>
    obtain ⟨hhead, htail⟩ := List.forall_mem_cons.mp h
    obtain ⟨c, hc⟩ : ∃ c, connection? maps d b = .ok c := exists_connection? hhead.1 hhead.2
    obtain ⟨cs, hcs⟩ := ih htail
    exact ⟨c.toList ++ cs, bind_eq_ok.mpr ⟨c, hc, bind_eq_ok.mpr ⟨cs, hcs, rfl⟩⟩⟩

/-- Every connection comes from a binding. -/
theorem mem_connections {bindings : List InterfaceBinding} {cs : List Connection}
    (h : connections maps d bindings = .ok cs) {c : Connection} (hc : c ∈ cs) :
    ∃ b ∈ bindings, connection? maps d b = .ok (some c) := by
  induction bindings generalizing cs with
  | nil =>
    cases h
    cases hc
  | cons b bindings ih =>
    rw [connections, bind_eq_ok] at h
    obtain ⟨found, hfound, h⟩ := h
    rw [bind_eq_ok] at h
    obtain ⟨rest, hrest, h⟩ := h
    cases h
    rcases List.mem_append.mp hc with hc | hc
    · rw [Option.mem_toList.mp hc] at hfound
      exact ⟨b, List.mem_cons_self, hfound⟩
    · obtain ⟨b', hb', hc⟩ := ih hrest hc
      exact ⟨b', List.mem_cons_of_mem b hb', hc⟩

/-- Connections are read off the nodes and links of their bindings alone. -/
theorem connections_congr {bindings : List InterfaceBinding}
    (h : ∀ b ∈ bindings, d'.get? b.node = d.get? b.node ∧ d'.get? b.link = d.get? b.link) :
    connections maps d' bindings = connections maps d bindings := by
  induction bindings with
  | nil => rfl
  | cons b bindings ih =>
    obtain ⟨⟨hnode, hlink⟩, htail⟩ := List.forall_mem_cons.mp h
    have hone : connection? maps d' b = connection? maps d b := by
      simp only [connection?, Diagram.fetch, hnode, hlink]
    rw [connections, connections, hone, ih htail]

/-! ## Recording -/

/-- The bindings of an interface. -/
def bindingsOf (maps : PortMaps) (interface : Slot) : List InterfaceBinding :=
  maps.bindings.filter fun b => b.interface == interface

/-- What recording one interface does. -/
theorem recordOne_runs {found : List Connection} {e : Element}
    (hfound : connections maps d (bindingsOf maps interface) = .ok found)
    (he : d.get? interface = some e) :
    Edit.Runs (recordOne t maps interface) d (some ⟨e.label, ⟨t.nodeCount, found⟩⟩)
      (d.modify interface (store ⟨t.nodeCount, found⟩)) := by
  rw [recordOne, Edit.runs_bind]
  refine ⟨found, d, Edit.runs_check.mpr ⟨hfound, rfl⟩, ?_⟩
  rw [Edit.runs_bind]
  refine ⟨some e, d, Edit.runs_read.mpr ⟨he, rfl⟩, ?_⟩
  exact Edit.runs_bind.mpr ⟨(), _, Edit.runs_update.mpr rfl, Edit.runs_pure.mpr ⟨rfl, rfl⟩⟩

/-- What recording an interface comes to: its record holds the connections of
its bindings, and the entry repeats the record. -/
def Recorded (t : Topology) (maps : PortMaps) (d d' : Diagram) (interface : Slot)
    (entry : InterfaceEntry) : Prop :=
  ∃ e found, d.get? interface = some e ∧
    connections maps d (bindingsOf maps interface) = .ok found ∧
    entry = ⟨e.label, ⟨t.nodeCount, found⟩⟩ ∧
    d'.get? interface = some (store ⟨t.nodeCount, found⟩ e)

/-- Recording some interfaces, one after the other. What was recorded before
does not matter, since connections are read off other elements. -/
theorem forEach_recordOne_runs {interfaces : List Slot} (hnodup : interfaces.Nodup)
    (hinterfaces : ∀ i ∈ interfaces, ∃ e, d.get? i = some e ∧ e.role.isInterface = true)
    (hsound : Sound d maps.bindings) :
    ∃ found d', Edit.Runs (Edit.forEach (recordOne t maps) interfaces) d (found.map some) d' ∧
      List.Forall₂ (Recorded t maps d d') interfaces found ∧
      ∀ j ∉ interfaces, d'.get? j = d.get? j := by
  induction interfaces generalizing d with
  | nil => exact ⟨[], d, Edit.runs_forEach_nil.mpr ⟨rfl, rfl⟩, .nil, fun _ _ => rfl⟩
  | cons i interfaces ih =>
    obtain ⟨hi, hnodup⟩ := List.nodup_cons.mp hnodup
    obtain ⟨⟨e, he, hrole⟩, htail⟩ := List.forall_mem_cons.mp hinterfaces
    -- Connections are read off nodes and links, and the record goes into an interface.
    have hother : ∀ j, IsOther d j → j ≠ i := by
      rintro j ⟨e', he', hrole'⟩ rfl
      rw [he] at he'
      cases he'
      rw [hrole] at hrole'
      cases hrole'
    obtain ⟨found, hfound⟩ : ∃ cs, connections maps d (bindingsOf maps i) = .ok cs :=
      exists_connections fun b hb => hsound b (List.mem_of_mem_filter hb)
    let d₁ := d.modify i (store ⟨t.nodeCount, found⟩)
    have hd₁ : ∀ j, j ≠ i → d₁.get? j = d.get? j := fun j hj => by
      rw [Diagram.get?_modify, if_neg (Ne.symm hj)]
    have hsame : ∀ j, IsOther d j → IsOther d₁ j := by
      rintro j hj
      rw [IsOther, hd₁ j (hother j hj)]
      exact hj
    -- So the later interfaces read what they would have read before.
    have hcongr : ∀ k, connections maps d₁ (bindingsOf maps k) =
        connections maps d (bindingsOf maps k) := fun k =>
      connections_congr fun b hb => by
        obtain ⟨hnode, hlink⟩ := hsound b (List.mem_of_mem_filter hb)
        exact ⟨hd₁ _ (hother _ hnode), hd₁ _ (hother _ hlink)⟩
    obtain ⟨rest, d', hruns, hrecorded, hframe⟩ := ih (d := d₁) hnodup
      (fun j hj => by
        rw [hd₁ j (ne_of_mem_of_not_mem hj hi)]
        exact htail j hj)
      (fun b hb => ⟨hsame _ (hsound b hb).1, hsame _ (hsound b hb).2⟩)
    refine ⟨⟨e.label, ⟨t.nodeCount, found⟩⟩ :: rest, d', ?_, .cons ?_ ?_, fun j hj => ?_⟩
    · exact Edit.runs_forEach_cons.mpr ⟨_, d₁, _, recordOne_runs hfound he, hruns, rfl⟩
    · refine ⟨e, found, he, hfound, rfl, ?_⟩
      rw [hframe i hi, Diagram.get?_modify, if_pos rfl, he]
      rfl
    · refine forall₂_imp_mem hrecorded fun j hj entry _ h => ?_
      rw [Recorded, hd₁ j (ne_of_mem_of_not_mem hj hi), hcongr] at h
      exact h
    · rw [List.mem_cons, not_or] at hj
      rw [hframe j hj.2, hd₁ j hj.1]

/-- **Recording a network changes its interfaces alone**, and each of them gets
the connections of its bindings. -/
theorem record_runs (hnodup : t.interfaces.Nodup)
    (hinterfaces : ∀ i ∈ t.interfaces, ∃ e, d.get? i = some e ∧ e.role.isInterface = true)
    (hsound : Sound d maps.bindings) :
    ∃ entries d', Edit.Runs (record t maps) d entries d' ∧
      List.Forall₂ (Recorded t maps d d') t.interfaces entries ∧
      ∀ j ∉ t.interfaces, d'.get? j = d.get? j := by
  obtain ⟨found, d', hruns, hrecorded, hframe⟩ := forEach_recordOne_runs hnodup hinterfaces hsound
  refine ⟨found, d', ?_, hrecorded, hframe⟩
  rw [record, Edit.runs_bind]
  exact ⟨found.map some, d', hruns, Edit.runs_pure.mpr ⟨by simp [List.filterMap_map], rfl⟩⟩

/-! ## Compiled networks -/

variable {c : Catalog} {prune : Bool} {scope : Slot} {d₀ : Diagram}

/-- The bindings of an extracted network lie between nodes and links. -/
theorem sound_of_extracts {gone : List Slot} (hextracts : Topology.Extracts d₀ t d gone)
    (hbuild : PortMaps.build c t d = .ok maps) : Sound d maps.bindings := by
  intro b hb
  obtain ⟨hlink, hbinds⟩ := (PortMap.build_eq_ok hbuild).2.2 b hb
  constructor
  · have hcopy := (Topology.interfaceOf?_eq_some hextracts.nodup_copies).mp hbinds.interface
    have hnode : t.isNode b.node = true :=
      (Topology.isNode_iff hextracts.nodup_copies).mpr (.inr (.inr (.inr ⟨_, hcopy⟩)))
    obtain ⟨e, kind, he, hrole, -⟩ := ((hextracts.copies _ _).mp hcopy).exists_kind
    obtain ⟨e', he', halike⟩ := hextracts.get?_of_not_gone he (hextracts.not_gone hnode)
    exact ⟨e', he', by rw [halike.role, hrole]; rfl⟩
  · rw [hextracts.links, Topology.mem_withRole] at hlink
    obtain ⟨-, e, he, hrole⟩ := hlink
    cases hr : e.role <;> rw [hr] at hrole <;> try cases hrole
    refine ⟨_, hextracts.get?_of_not_node he (by rw [hr]; rfl), ?_⟩
    rw [Element.role_detachAll, hr]
    rfl

/-- The interfaces of an extracted network are still there. -/
theorem interfaces_of_extracts {gone : List Slot} (hextracts : Topology.Extracts d₀ t d gone) :
    t.interfaces.Nodup ∧ ∀ i ∈ t.interfaces, ∃ e, d.get? i = some e ∧ e.role.isInterface = true := by
  rw [hextracts.interfaces]
  refine ⟨Topology.nodup_withRole (Topology.nodup_descendants _ _) _, fun i hi => ?_⟩
  obtain ⟨-, e, he, hrole⟩ := Topology.mem_withRole.mp hi
  refine ⟨_, hextracts.get?_of_not_node he ?_, by rw [Element.role_detachAll, hrole]⟩
  exact Role.nodeKind?_of_isInterface hrole

/-- The numbers in a port map fit the machine. -/
theorem inRange_numbers (hbuild : PortMaps.build c t d = .ok maps) (link : Slot) :
    ∀ n ∈ maps.numbers link, -((Text.integerLimit : Int) + 1) ≤ n ∧ n ≤ Text.integerLimit := by
  obtain ⟨hlinks, hlists, -⟩ := PortMap.build_eq_ok hbuild
  have hlimit : (Text.nodeLimit : Int) ≤ Text.integerLimit := by decide
  have hnumber : ∀ target, PortMap.InRange target → ∀ n, target.number? = some n →
      -((Text.integerLimit : Int) + 1) ≤ n ∧ n ≤ Text.integerLimit := by
    intro target htarget n hn
    cases target with
    | node k =>
      cases hn
      have := htarget k rfl
      omega
    | ground =>
      cases hn
      decide
    | socketList name => cases hn
  have hground : -((Text.integerLimit : Int) + 1) ≤ PortTarget.groundNumber ∧
      PortTarget.groundNumber ≤ Text.integerLimit := by decide
  intro n hn
  rw [PortMaps.numbers] at hn
  cases hget : maps.get? link with
  | none =>
    rw [hget] at hn
    cases hn
  | some resolved =>
    rw [hget] at hn
    obtain ⟨target, htarget, rfl⟩ := List.mem_map.mp hn
    obtain ⟨i, -, hresolved⟩ := forall₂_mem_right hlinks (List.mem_of_find?_eq_some hget)
    have hrange := hresolved.inRange target htarget
    -- A target without a number counts as the ground.
    have htotal : ∀ o : Option Int, (∀ n, o = some n → -((Text.integerLimit : Int) + 1) ≤ n ∧
        n ≤ Text.integerLimit) → -((Text.integerLimit : Int) + 1) ≤ o.getD PortTarget.groundNumber ∧
        o.getD PortTarget.groundNumber ≤ Text.integerLimit := by
      rintro (_ | n) h
      · exact hground
      · exact h n rfl
    cases target with
    | socketList name =>
      refine htotal _ fun n hn => ?_
      obtain ⟨list, hlist, hn⟩ := Option.bind_eq_some_iff.mp hn
      exact hnumber list.node (hlists list (List.mem_of_find?_eq_some hlist)) n hn
    | node k => exact htotal _ (hnumber _ hrange)
    | ground => exact htotal _ (hnumber _ hrange)

/-- Recorded connections fit the machine: ports are read from labels, port maps
hold node numbers. -/
theorem inRange_connections (hbuild : PortMaps.build c t d = .ok maps) {found : List Connection}
    (hfound : connections maps d (bindingsOf maps interface) = .ok found) :
    ∀ c ∈ found, InRange c := by
  intro c hc
  obtain ⟨b, hb, hconnection⟩ := mem_connections hfound hc
  obtain ⟨hport, hmap⟩ := connection?_eq_ok hconnection
  obtain ⟨-, hbinds⟩ := (PortMap.build_eq_ok hbuild).2.2 b (List.mem_of_mem_filter hb)
  obtain ⟨edge, -, hcarries, -⟩ := hbinds.port
  obtain ⟨e, -, -, hlabel⟩ := PortMap.carries_iff.mp hcarries
  refine ⟨hport ▸ Element.labelNatural?_le hlabel, ?_⟩
  rw [hmap]
  exact inRange_numbers hbuild b.link

/-- **The record of an interface is read back from its fields iff its links and
keys can be written**, and its node count fits the machine. Recording itself
always succeeds. -/
theorem record_survives {prune : Bool} (hextract : Topology.extract c prune scope d₀ = .ok (t, d))
    (hbuild : PortMaps.build c t d = .ok maps) :
    ∃ entries d', Edit.Runs (record t maps) d entries d' ∧
      List.Forall₂ (fun interface entry => ∃ e, d'.get? interface = some e ∧
        entry.name = e.label ∧ e.role.record? = some entry.record ∧
        (readRecord (e.fields.get? nodeCountField) (e.fields.get? connectionsField) =
            .ok (some entry.record) ↔
          entry.record.nodeCount ≤ Text.countLimit ∧
            ∀ connection ∈ entry.record.connections, Writable connection))
        t.interfaces entries := by
  obtain ⟨-, gone, hextracts⟩ := Topology.extract_eq_ok hextract
  obtain ⟨hnodup, hinterfaces⟩ := interfaces_of_extracts hextracts
  obtain ⟨entries, d', hruns, hrecorded, -⟩ :=
    record_runs hnodup hinterfaces (sound_of_extracts hextracts hbuild)
  refine ⟨entries, d', hruns, forall₂_imp_mem hrecorded fun interface hmem entry _ h => ?_⟩
  obtain ⟨e, found, he, hfound, rfl, hget⟩ := h
  obtain ⟨e', he', hrole⟩ := hinterfaces interface hmem
  rw [he] at he'
  cases he'
  have hcount : (store ⟨t.nodeCount, found⟩ e).fields.get? nodeCountField =
      some (toString t.nodeCount) := by
    show ((e.fields.insert _ _).insert _ _).get? _ = _
    rw [Fields.get?_insert_of_ne (by decide), Fields.get?_insert_self]
  have hconnections : (store ⟨t.nodeCount, found⟩ e).fields.get? connectionsField =
      some (Connections.render found) := Fields.get?_insert_self _ _ _
  refine ⟨_, hget, rfl, ?_, ?_⟩
  · exact Role.record?_setRecord _ hrole
  · rw [hcount, hconnections]
    exact Connections.readRecord_written_iff (r := ⟨t.nodeCount, found⟩)
      (inRange_connections hbuild hfound)

/-! ## A record that is lost -/

/-- The library of one master, a valve with two ports. -/
def valves : Catalog :=
  ⟨[{ kind := .link, subtype := "Valve", domain := some .basic, ports := 2, required := [0, 1] }]⟩

/-- A valve with a label, from node `2` to the keyed copy `6` in the interface `5`. -/
def tapped (label : String) : Diagram :=
  let elements : List Element :=
    [{ id := "root", role := .root },
      { id := "net", role := .network .sub, parent := some 0 },
      { id := "a", role := .node .basic, label := "0", parent := some 1 },
      { id := "b", role := .node .basic, label := "1", parent := some 1 },
      { id := "v", role := .link ⟨"Valve", none⟩, label := label, parent := some 1 },
      { id := "i", role := .interface ⟨none, none⟩, label := "inlet", parent := some 1 },
      { id := "k", role := .node .basic, label := "1", parent := some 5,
        fields := Fields.ofList [(Element.keyField, "in")] },
      { id := "p", role := .port, label := "0", parent := some 1, source := some 4, target := some 2 },
      { id := "q", role := .port, label := "1", parent := some 1, source := some 4, target := some 6 }]
  ⟨(elements.map some).toArray⟩

/-- The topology of such a network. -/
def tappedTopology : Topology where
  network := 1
  domain := .basic
  nodes := [2, 3]
  references := []
  grounds := []
  links := [4]
  ports := [7, 8]
  spotters := []
  interfaces := [5]
  interfaceNodes := [(6, 5)]
  prunedGrounds := 0

/-- Its port maps. -/
def tappedMaps : PortMaps := ⟨[⟨4, [.node 0, .node 1]⟩], [], [⟨4, 1, 6, 5⟩]⟩

/-- A labelled valve is recorded and read back. -/
theorem record_survives_tapped :
    ∃ entries d', Edit.Runs (record tappedTopology tappedMaps) (tapped "V1") entries d' ∧
      ∃ entry ∈ entries, ∃ e, d'.get? 5 = some e ∧
        (readRecord (e.fields.get? nodeCountField) (e.fields.get? connectionsField) =
            .ok (some entry.record) ↔
          entry.record.nodeCount ≤ Text.countLimit ∧
            ∀ connection ∈ entry.record.connections, Writable connection) := by
  have hextract : Topology.extract valves true Diagram.root (tapped "V1") =
      .ok (tappedTopology, tapped "V1") := by cbv
  have hbuild : PortMaps.build valves tappedTopology (tapped "V1") = .ok tappedMaps := by cbv
  obtain ⟨entries, d', hruns, hrecorded⟩ := record_survives hextract hbuild
  obtain ⟨entry, hentry, e, he, -, -, hiff⟩ :=
    forall₂_mem_left hrecorded (show 5 ∈ tappedTopology.interfaces by decide)
  exact ⟨entries, d', hruns, entry, hentry, e, he, hiff⟩

/-- **The record of a valve without a label is lost**: the entry it is written as
starts with a `,`, and no link is read from that. -/
theorem record_lost :
    Topology.extract valves true Diagram.root (tapped "") = .ok (tappedTopology, tapped "") ∧
      PortMaps.build valves tappedTopology (tapped "") = .ok tappedMaps ∧
      ((((record tappedTopology tappedMaps).run (tapped "")).diagram).get? 5).any (fun e =>
        e.role.record?.any fun r => decide (r = ⟨2, [⟨"", 1, "in", [0, 1]⟩]⟩) &&
          !(readRecord (e.fields.get? nodeCountField) (e.fields.get? connectionsField)).isOk) =
        true := by
  refine ⟨by cbv, by cbv, by cbv⟩

end Netlist.Recording
