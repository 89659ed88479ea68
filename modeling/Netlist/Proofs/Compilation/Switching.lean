import Netlist.Proofs.Compilation.Stages
import Netlist.Proofs.Edit.Couples
import Netlist.Proofs.PortMap.Sockets
import Netlist.Proofs.Topology.Pruning

/-!
# What the switches of a compilation change

A drawing may be compiled with loose grounds removed or kept, and with fields reconciled or
left as they are. Two compilations of one drawing are followed side by side. After every
stage the diagrams say the same: they differ in removed grounds, in ends, and in the fields
of links and spotters if only one of the two reconciles. Whatever is read off them later
does not look at the former, and takes the latter over as they are.

- `SameTexts`: diagrams that say the same.
- `couples_reconcileIf`, `couples_record`: reconciling and recording go together.
- `compile_switches`: **the switches change nothing but the fields of links and spotters**,
  and those only through reconciling.
-/

namespace Netlist

/-- The fields of an element, or none of them. -/
def Fields.shown (all : Bool) (f : Fields) : Fields := if all then f else Fields.empty

/-- A network with or without the fields of its links and spotters. -/
def Network.shown (all : Bool) (n : Network) : Network :=
  { n with
    links := n.links.map fun l => { l with fields := l.fields.shown all }
    spotters := n.spotters.map fun s => { s with fields := s.fields.shown all } }

/-- What a network connects: all of it but the fields of its links and spotters. -/
def Network.connectivity (n : Network) : Network := n.shown false

@[simp] theorem Network.shown_true (n : Network) : n.shown true = n := by
  simp [shown, Fields.shown]

@[simp] theorem Network.connectivity_shown (all : Bool) (n : Network) :
    (n.shown all).connectivity = n.connectivity := by
  simp [connectivity, shown, Fields.shown]

namespace Compilation

open Edit (Couples couples_bind couples_check couples_change couples_forEach couples_of_runs couples_pure)
open PortMap (fetch_bind_congr)
open Netlist.Topology (Extracts SameButLoose)

variable {c : Catalog} {d d' : Diagram} {scope i : Slot} {t t' : Topology} {maps : PortMaps}
  {gone gone' loose : List Slot} {one two : Switches} {all : Bool}

/-! ## Diagrams that say the same -/

/-- Elements that say the same, wherever they are and end; if `strict`, in their fields too. -/
structure SameText (strict : Prop) (e e' : Element) : Prop where
  locator : e'.locator = e.locator
  role : e'.role = e.role
  fields : strict → e'.fields = e.fields

/-- Diagrams that say the same in all slots but those in `gone`, and but for the fields of
the elements in `loose`. -/
def SameTexts (gone loose : List Slot) (d d' : Diagram) : Prop :=
  ∀ i ∉ gone, Option.Rel (SameText (i ∉ loose)) (d.get? i) (d'.get? i)

theorem SameText.label {strict : Prop} {e e' : Element} (h : SameText strict e e') :
    e'.label = e.label := congrArg Locator.label h.locator

theorem SameText.displayName {strict : Prop} {e e' : Element} (h : SameText strict e e') :
    e'.displayName = e.displayName := by
  rw [Element.displayName, Element.displayName, h.label, show e'.id = e.id from congrArg Locator.id h.locator]

/-- The same change on both sides leaves diagrams that say the same. -/
theorem SameTexts.modify (h : SameTexts gone loose d d') {f f' : Element → Element}
    (hf : ∀ e e', SameText (i ∉ loose) e e' → SameText (i ∉ loose) (f e) (f' e')) :
    SameTexts gone loose (d.modify i f) (d'.modify i f') := by
  intro j hj
  have hsame := h j hj
  rw [Diagram.get?_modify, Diagram.get?_modify]
  split
  · subst j
    generalize d.get? i = o at hsame
    generalize d'.get? i = o' at hsame
    cases hsame with
    | none => exact .none
    | some hsame => exact .some (hf _ _ hsame)
  · exact hsame

/-- What two extractions of one diagram leave says the same where neither removed anything. -/
theorem sameTexts_of_extracts {d₀ : Diagram} (h : Extracts d₀ t d gone)
    (h' : Extracts d₀ t' d' gone') (hsame : SameButLoose d₀ t t') :
    SameTexts (gone ++ gone') [] d d' := by
  intro i hi
  rw [List.mem_append, not_or] at hi
  have hcore := h.core?_eq h' hsame hi.1 hi.2
  rw [Diagram.core?, Diagram.core?] at hcore
  cases he : d.get? i with
  | none =>
    rw [he, Option.map_none, Option.map_eq_none_iff] at hcore
    rw [hcore]
    exact .none
  | some e =>
    rw [he, Option.map_some, Option.map_eq_some_iff] at hcore
    obtain ⟨e', he', hcore⟩ := hcore
    have hlocator : e'.core.locator = e.core.locator := by rw [hcore]
    have hrole : e'.core.role = e.core.role := by rw [hcore]
    have hfields : e'.core.fields = e.core.fields := by rw [hcore]
    rw [he']
    exact .some ⟨hlocator, hrole, fun _ => hfields⟩

/-! ## Reconciling -/

/-- Reconciling does not fail. -/
theorem exists_reconcile (c : Catalog) (slots : List Slot) (d : Diagram) :
    ∃ r d', Edit.Runs (reconcile c slots) d r d' := by
  obtain ⟨r, d', hruns, -⟩ := reconcile_runs c slots d
  exact ⟨r, d', hruns⟩

theorem exists_reconcileIf (c : Catalog) (switches : Switches) (t : Topology) (d : Diagram) :
    ∃ r d', Edit.Runs (reconcileIf c switches t) d r d' := by
  rw [reconcileIf]
  split
  · exact exists_reconcile c _ d
  · exact ⟨.empty, d, Edit.runs_pure.mpr ⟨rfl, rfl⟩⟩

/-- Elements that say the same are reconciled in the same way. -/
theorem couples_reconcileOne (hi : i ∉ gone) :
    Couples (SameTexts gone []) (reconcileOne c i) (reconcileOne c i)
      fun r r' d d' => r' = r ∧ SameTexts gone [] d d' := by
  refine couples_of_runs fun d d' h => ?_
  have hi := h i hi
  simp only [reconcileOne, Edit.runs_read_bind]
  generalize hget : d.get? i = o at hi
  generalize hget' : d'.get? i = o' at hi
  cases hi with
  | none => exact ⟨_, _, d, d', Edit.runs_pure.mpr ⟨rfl, rfl⟩, Edit.runs_pure.mpr ⟨rfl, rfl⟩, rfl, h⟩
  | @some e e' hsame =>
    simp only [hsame.role, hsame.locator, hsame.fields List.not_mem_nil]
    split
    · exact ⟨_, _, d, d', Edit.runs_warn_bind.mpr (Edit.runs_pure.mpr ⟨rfl, rfl⟩),
        Edit.runs_warn_bind.mpr (Edit.runs_pure.mpr ⟨rfl, rfl⟩), rfl, h⟩
    · exact ⟨_, _, _, _, Edit.runs_update_bind.mpr (Edit.runs_pure.mpr ⟨rfl, rfl⟩),
        Edit.runs_update_bind.mpr (Edit.runs_pure.mpr ⟨rfl, rfl⟩), rfl,
        h.modify fun _ _ hsame => ⟨hsame.locator, hsame.role, fun _ => rfl⟩⟩

/-- The slots whose fields two compilations may leave different: those that only one of
them reconciles. -/
def unevenSlots (one two : Switches) (t : Topology) : List Slot :=
  if one.reconcile = two.reconcile then [] else t.links ++ t.spotters

/-- A diagram and what reconciling makes of it say the same, fields apart. -/
theorem SameTexts.of_sameButFields {d₁ : Diagram} (h : SameTexts gone [] d d')
    (hframe : SameButFields loose d' d₁) : SameTexts gone loose d d₁ := by
  intro i hi
  have hi := h i hi
  have hbare := hframe.1 i
  have hkept := hframe.2 i
  generalize d.get? i = o at hi
  generalize d'.get? i = o' at hi hbare hkept
  cases hi with
  | none =>
    rw [Option.map_none, Option.map_eq_none_iff] at hbare
    rw [hbare]
    exact .none
  | @some e e' hsame =>
    rw [Option.map_some, Option.map_eq_some_iff] at hbare
    obtain ⟨e₁, he₁, hbare⟩ := hbare
    have hlocator : e₁.bare.locator = e'.bare.locator := by rw [hbare]
    rw [he₁]
    refine .some ⟨Eq.trans hlocator hsame.locator, (Element.role_of_bare hbare).trans hsame.role,
      fun hloose => ?_⟩
    rw [he₁, Option.some.injEq] at hkept
    rw [hkept hloose, hsame.fields List.not_mem_nil]

theorem SameTexts.symm (h : SameTexts gone loose d d') : SameTexts gone loose d' d := by
  intro i hi
  have hi := h i hi
  generalize d.get? i = o at hi
  generalize d'.get? i = o' at hi
  cases hi with
  | none => exact .none
  | some hsame =>
    exact .some ⟨hsame.locator.symm, hsame.role.symm, fun hloose => (hsame.fields hloose).symm⟩

/-- **Reconciling on one side or on both leaves diagrams that say the same**, but for the
fields that only one side reconciles. -/
theorem couples_reconcileIf (hlinks : t'.links = t.links) (hspotters : t'.spotters = t.spotters)
    (hgone : ∀ i ∈ t.links ++ t.spotters, i ∉ gone) :
    Couples (SameTexts gone []) (reconcileIf c one t) (reconcileIf c two t')
      fun _ _ d d' => SameTexts gone (unevenSlots one two t) d d' := by
  rw [reconcileIf, reconcileIf, unevenSlots, hlinks, hspotters]
  cases one.reconcile <;> cases two.reconcile
  · exact couples_pure fun d d' h => h
  · refine couples_of_runs fun d d' h => ?_
    obtain ⟨r, d₁, hruns⟩ := exists_reconcile c (t.links ++ t.spotters) d'
    exact ⟨_, r, d, d₁, Edit.runs_pure.mpr ⟨rfl, rfl⟩, hruns, h.of_sameButFields (reconcile_frame hruns)⟩
  · refine couples_of_runs fun d d' h => ?_
    obtain ⟨r, d₁, hruns⟩ := exists_reconcile c (t.links ++ t.spotters) d
    exact ⟨r, _, d₁, d', hruns, Edit.runs_pure.mpr ⟨rfl, rfl⟩,
      (h.symm.of_sameButFields (reconcile_frame hruns)).symm⟩
  · refine couples_bind (couples_forEach fun i hi => couples_reconcileOne (hgone i hi)) fun r r' => ?_
    exact couples_pure fun d d' h => h.2

/-! ## Recording -/

/-- Connections are read off the keys of nodes and the labels of links. -/
theorem connections_same (h : SameTexts gone loose d d') {bindings : List InterfaceBinding}
    (hbindings : ∀ b ∈ bindings, b.node ∉ gone ∧ b.node ∉ loose ∧ b.link ∉ gone) :
    Recording.connections maps d' bindings = Recording.connections maps d bindings := by
  induction bindings with
  | nil => rfl
  | cons b bindings ih =>
    obtain ⟨⟨hnode, hstrict, hlink⟩, hrest⟩ := List.forall_mem_cons.mp hbindings
    have hone : Recording.connection? maps d' b = Recording.connection? maps d b := by
      refine fetch_bind_congr (h b.node hnode) fun e e' _ hsame => ?_
      rw [show e'.key? = e.key? by rw [Element.key?, Element.key?, hsame.fields hstrict]]
      cases e.key? with
      | none => rfl
      | some key =>
        refine fetch_bind_congr (h b.link hlink) fun l l' _ hsame => ?_
        rw [hsame.label]
    rw [Recording.connections, Recording.connections, hone, ih hrest]

/-- Recording an interface goes together in diagrams that say the same. -/
theorem couples_recordOne (hcount : t'.nodeCount = t.nodeCount) (hi : i ∉ gone) (hstrict : i ∉ loose)
    (hbindings : ∀ b ∈ maps.bindings, b.node ∉ gone ∧ b.node ∉ loose ∧ b.link ∉ gone) :
    Couples (SameTexts gone loose) (Recording.recordOne t maps i) (Recording.recordOne t' maps i)
      fun entry entry' d d' => entry' = entry ∧ SameTexts gone loose d d' := by
  refine couples_bind (R := fun found found' d d' => found' = found ∧ SameTexts gone loose d d')
    (couples_check fun d d' h => ?_) fun found found' => couples_of_runs fun d d' hafter => ?_
  · rw [connections_same h fun b hb => hbindings b (List.mem_of_mem_filter hb)]
    cases hfound : Recording.connections maps d (maps.bindings.filter fun b => b.interface == i) with
    | error f => exact .inl ⟨f, rfl, rfl⟩
    | ok found => exact .inr ⟨found, found, rfl, rfl, rfl, h⟩
  obtain ⟨rfl, h⟩ := hafter
  have hget := h i hi
  simp only [Edit.runs_read_bind, hcount]
  generalize d.get? i = o at hget
  generalize d'.get? i = o' at hget
  cases hget with
  | none => exact ⟨_, _, d, d', Edit.runs_pure.mpr ⟨rfl, rfl⟩, Edit.runs_pure.mpr ⟨rfl, rfl⟩, rfl, h⟩
  | some hsame =>
    refine ⟨_, _, _, _, Edit.runs_update_bind.mpr (Edit.runs_pure.mpr ⟨rfl, rfl⟩),
      Edit.runs_update_bind.mpr (Edit.runs_pure.mpr ⟨rfl, rfl⟩), by rw [hsame.label], ?_⟩
    refine h.modify fun e e' hsame => ⟨hsame.locator, ?_, fun _ => ?_⟩
    · exact congrArg (Role.setRecord _) hsame.role
    · simp only [Recording.store, hsame.fields hstrict]

/-- **Recording goes together in diagrams that say the same**, and gives the same entries. -/
theorem couples_record (hcount : t'.nodeCount = t.nodeCount) (hinterfaces : t'.interfaces = t.interfaces)
    (hslots : ∀ i ∈ t.interfaces, i ∉ gone ∧ i ∉ loose)
    (hbindings : ∀ b ∈ maps.bindings, b.node ∉ gone ∧ b.node ∉ loose ∧ b.link ∉ gone) :
    Couples (SameTexts gone loose) (Recording.record t maps) (Recording.record t' maps)
      fun entries entries' d d' => entries' = entries ∧ SameTexts gone loose d d' := by
  rw [Recording.record, Recording.record, hinterfaces]
  refine couples_bind (couples_forEach fun i hi =>
    couples_recordOne hcount (hslots i hi).1 (hslots i hi).2 hbindings) fun found found' => ?_
  exact couples_pure fun d d' h => ⟨by rw [h.1], h.2⟩

/-! ## Reading off the network -/

theorem nodeRecords_same (h : SameTexts gone loose d d') {nodes : List Slot}
    (hnodes : ∀ i ∈ nodes, i ∉ gone ∧ i ∉ loose) (number : Nat) :
    nodeRecords d' number nodes = nodeRecords d number nodes := by
  induction nodes generalizing number with
  | nil => rfl
  | cons i nodes ih =>
    obtain ⟨⟨hi, hstrict⟩, hrest⟩ := List.forall_mem_cons.mp hnodes
    refine fetch_bind_congr (h i hi) fun e e' _ hsame => ?_
    rw [hsame.fields hstrict, ih hrest]

/-- Fields that are shown are the same if they are the same in the diagrams. -/
theorem SameText.shown {strict : Prop} {e e' : Element} (h : SameText strict e e')
    (hall : all = true → strict) : e'.fields.shown all = e.fields.shown all := by
  cases all with
  | false => rfl
  | true => rw [h.fields (hall rfl)]

theorem linkRecords_same (h : SameTexts gone loose d d') (hall : all = true → loose = [])
    {links : List ResolvedLink} (hlinks : ∀ r ∈ links, r.link ∉ gone) :
    (linkRecords d' links).map (List.map fun l => { l with fields := l.fields.shown all }) =
      (linkRecords d links).map (List.map fun l => { l with fields := l.fields.shown all }) := by
  induction links with
  | nil => rfl
  | cons r links ih =>
    obtain ⟨hr, hrest⟩ := List.forall_mem_cons.mp hlinks
    have ih := ih hrest
    rw [linkRecords, linkRecords, map_bind_except, map_bind_except]
    refine fetch_bind_congr (h r.link hr) fun e e' _ hsame => ?_
    have hshown := hsame.shown fun heq : all = true => by rw [hall heq]; exact List.not_mem_nil
    rw [map_bind_except, map_bind_except, hsame.role, hsame.label]
    refine bind_congr_map ih fun later later' hlater => ?_
    cases e.role <;> simp [Except.map, pure, Except.pure, hlater, hshown]

theorem spotterRecords_same (h : SameTexts gone loose d d') (hall : all = true → loose = [])
    {spotters : List Slot} (hspotters : ∀ i ∈ spotters, i ∉ gone) :
    (spotterRecords d' spotters).map (List.map fun s => { s with fields := s.fields.shown all }) =
      (spotterRecords d spotters).map (List.map fun s => { s with fields := s.fields.shown all }) := by
  induction spotters with
  | nil => rfl
  | cons i spotters ih =>
    obtain ⟨hi, hrest⟩ := List.forall_mem_cons.mp hspotters
    have ih := ih hrest
    rw [spotterRecords, spotterRecords, map_bind_except, map_bind_except]
    refine fetch_bind_congr (h i hi) fun e e' _ hsame => ?_
    have hshown := hsame.shown fun heq : all = true => by rw [hall heq]; exact List.not_mem_nil
    rw [map_bind_except, map_bind_except, hsame.role, hsame.label]
    refine bind_congr_map ih fun later later' hlater => ?_
    cases e.role <;> simp [Except.map, pure, Except.pure, hlater, hshown]

/-! ## The whole compilation -/

/-- The slots that a network is read off from and whose fields no master has a say in. -/
def Watched (t : Topology) (i : Slot) : Prop :=
  i = t.network ∨ i ∈ t.nodes ∨ i ∈ t.interfaces ∨ (t.interfaceOf? i).isSome = true

/-- Two ways to extract one diagram: port maps are read off the same, the diagrams say the
same, and what later stages look at was removed in neither. -/
structure Alike (gone : List Slot) (t t' : Topology) (d d' : Diagram) : Prop where
  parts : t' = { t with grounds := t'.grounds, prunedGrounds := t'.prunedGrounds }
  reading : PortMap.SameReading t t' d d'
  texts : SameTexts gone [] d d'
  watched : ∀ i, Watched t i → i ∉ gone ∧ i ∉ t.links ++ t.spotters
  uneven : ∀ i ∈ t.links ++ t.spotters, i ∉ gone

/-- What is watched is a container, a node or an interface. -/
theorem role_of_watched {d₀ : Diagram} (hcontainer : Topology.container d₀ scope = .ok t.network)
    (h : Extracts d₀ t d gone) (hi : Watched t i) : ∃ e, d₀.get? i = some e ∧
      (e.role.isSubNetwork = true ∨ e.role.isInterface = true ∨
        e.role.nodeKind?.isSome = true ∧ t.isNode i = true) := by
  have hnode : t.isNode i = true → ∃ e, d₀.get? i = some e ∧
      (e.role.isSubNetwork = true ∨ e.role.isInterface = true ∨
        e.role.nodeKind?.isSome = true ∧ t.isNode i = true) := by
    intro hi
    obtain ⟨e, kind, he, hrole⟩ := h.exists_role hi
    exact ⟨e, he, .inr (.inr ⟨by rw [hrole]; rfl, hi⟩)⟩
  rcases hi with rfl | hi | hi | hi
  · obtain ⟨e, he, hrole⟩ := Topology.exists_of_container hcontainer
    exact ⟨e, he, .inl hrole⟩
  · exact hnode (by simp [Topology.isNode, hi])
  · obtain ⟨-, e, he, hrole⟩ := Topology.mem_withRole.mp (h.interfaces ▸ hi)
    exact ⟨e, he, .inr (.inl hrole)⟩
  · exact hnode (by simp [Topology.isNode, hi])

theorem SameButLoose.watched {d₀ : Diagram} (h : SameButLoose d₀ t t') (hi : Watched t i) :
    Watched t' i := by
  rw [h.parts]
  exact hi

/-- What is watched is not removed. -/
theorem not_gone_of_watched {d₀ : Diagram} (hcontainer : Topology.container d₀ scope = .ok t.network)
    (h : Extracts d₀ t d gone) (hi : Watched t i) : i ∉ gone := by
  obtain ⟨e, he, hrole⟩ := role_of_watched hcontainer h hi
  rcases hrole with hrole | hrole | ⟨-, hnode⟩
  · exact h.not_gone_of_role he fun heq => by rw [heq] at hrole; cases hrole
  · exact h.not_gone_of_role he fun heq => by rw [heq] at hrole; cases hrole
  · exact h.not_gone hnode

/-- **Extracting with and without removing grounds leaves diagrams that are alike.** -/
theorem alike_of_extracts {d₀ : Diagram} (hcontainer : Topology.container d₀ scope = .ok t.network)
    (h : Extracts d₀ t d gone) (h' : Extracts d₀ t' d' gone') (hsame : SameButLoose d₀ t t') :
    Alike (gone ++ gone') t t' d d' := by
  have hcontainer' : Topology.container d₀ scope = .ok t'.network := by
    rw [hsame.parts]
    exact hcontainer
  have huneven : ∀ i ∈ t.links ++ t.spotters, ∃ e, d₀.get? i = some e ∧
      (e.role.isLink = true ∨ e.role.isSpotter = true) := by
    intro i hi
    rw [List.mem_append, h.links, h.spotters, Topology.mem_withRole, Topology.mem_withRole] at hi
    rcases hi with ⟨-, e, he, hrole⟩ | ⟨-, e, he, hrole⟩
    · exact ⟨e, he, .inl hrole⟩
    · exact ⟨e, he, .inr hrole⟩
  refine ⟨hsame.parts, h.sameReading h' hsame, sameTexts_of_extracts h h' hsame,
    fun i hi => ⟨?_, fun hmem => ?_⟩, fun i hi => ?_⟩
  · rw [List.mem_append, not_or]
    exact ⟨not_gone_of_watched hcontainer h hi,
      not_gone_of_watched hcontainer' h' (SameButLoose.watched hsame hi)⟩
  · obtain ⟨e, he, hrole⟩ := role_of_watched hcontainer h hi
    obtain ⟨e', he', hrole'⟩ := huneven i hmem
    rw [he, Option.some.injEq] at he'
    rw [← he'] at hrole'
    cases hr : e.role <;> rw [hr] at hrole hrole' <;>
      simp [Role.isSubNetwork, Role.isInterface, Role.nodeKind?, Role.isLink, Role.isSpotter] at hrole hrole'
  · obtain ⟨e, he, hrole⟩ := huneven i hi
    have hground : e.role ≠ .node .ground := by
      rintro heq
      rw [heq] at hrole
      rcases hrole with hrole | hrole <;> cases hrole
    rw [List.mem_append, not_or]
    exact ⟨h.not_gone_of_role he hground, h'.not_gone_of_role he hground⟩

variable {entries : List InterfaceEntry}

/-- What is read off diagrams that say the same is the same, but for fields that only one
of two compilations reconciles. -/
theorem readNetwork_same (h : SameTexts gone loose d d') (hall : all = true → loose = [])
    (hparts : t' = { t with grounds := t'.grounds, prunedGrounds := t'.prunedGrounds })
    (hwatched : ∀ i, Watched t i → i ∉ gone ∧ i ∉ loose) (hspotters : ∀ i ∈ t.spotters, i ∉ gone)
    (hlinks : ∀ r ∈ maps.links, r.link ∉ gone) :
    (readNetwork t' maps entries d').map (Network.shown all) =
      (readNetwork t maps entries d).map (Network.shown all) := by
  have hnetwork : t'.network = t.network := by rw [hparts]
  have hdomain : t'.domain = t.domain := by rw [hparts]
  have hnodes : t'.nodes = t.nodes := by rw [hparts]
  have hlist : t'.spotters = t.spotters := by rw [hparts]
  rw [readNetwork, readNetwork, hnetwork, hdomain, hnodes, hlist, map_bind_except, map_bind_except]
  refine fetch_bind_congr (h t.network (hwatched _ (.inl rfl)).1) fun e e' _ hsame => ?_
  rw [hsame.displayName, nodeRecords_same h fun i hi => hwatched i (.inr (.inl hi))]
  rw [map_bind_except, map_bind_except]
  refine bind_congr_map (f := id) rfl fun nodes nodes' hsame => ?_
  rw [map_bind_except, map_bind_except]
  refine bind_congr_map (linkRecords_same h hall hlinks) fun links links' hlinks => ?_
  rw [map_bind_except, map_bind_except]
  refine bind_congr_map (spotterRecords_same h hall hspotters) fun spotters spotters' hspotters => ?_
  show Except.ok _ = Except.ok _
  simp only [Network.shown, show nodes' = nodes from hsame, hlinks, hspotters]

/-- Whatever follows on port maps goes together in diagrams that say the same. -/
theorem couples_finish (hparts : t' = { t with grounds := t'.grounds, prunedGrounds := t'.prunedGrounds })
    (hwatched : ∀ i, Watched t i → i ∉ gone ∧ i ∉ t.links ++ t.spotters)
    (huneven : ∀ i ∈ t.links ++ t.spotters, i ∉ gone)
    (hlinks : ∀ r ∈ maps.links, r.link ∈ t.links)
    (hbindings : ∀ b ∈ maps.bindings, b.link ∈ t.links ∧ (t.interfaceOf? b.node).isSome = true) :
    Couples (SameTexts gone [])
      (do
        let reconciliation ← reconcileIf c one t
        let interfaces ← Recording.record t maps
        let network ← Edit.check (readNetwork t maps interfaces)
        return (⟨network, t, reconciliation⟩ : Compilation))
      (do
        let reconciliation ← reconcileIf c two t'
        let interfaces ← Recording.record t' maps
        let network ← Edit.check (readNetwork t' maps interfaces)
        return (⟨network, t', reconciliation⟩ : Compilation))
      fun r r' _ _ => r'.network.shown (one.reconcile == two.reconcile) =
        r.network.shown (one.reconcile == two.reconcile) := by
  -- What only one of them reconciles is a link or a spotter, and what is read later is neither.
  have hloose : ∀ i ∈ unevenSlots one two t, i ∈ t.links ++ t.spotters := by
    intro i hi
    rw [unevenSlots] at hi
    split at hi
    · cases hi
    · exact hi
  have heven : ∀ i, Watched t i → i ∉ gone ∧ i ∉ unevenSlots one two t := fun i hi =>
    ⟨(hwatched i hi).1, fun hmem => (hwatched i hi).2 (hloose i hmem)⟩
  have hlink : ∀ i ∈ t.links, i ∉ gone := fun i hi => huneven i (List.mem_append_left _ hi)
  refine couples_bind (couples_reconcileIf (by rw [hparts]) (by rw [hparts]) huneven) fun _ _ =>
    couples_bind (couples_record (by rw [hparts]; rfl) (by rw [hparts])
      (fun i hi => heven i (.inr (.inr (.inl hi)))) fun b hb => ?_) fun entries entries' =>
    couples_bind (R := fun n n' _ _ => n'.shown (one.reconcile == two.reconcile) =
      n.shown (one.reconcile == two.reconcile)) (couples_check ?_) fun network network' =>
    couples_pure fun d d' h => h
  · obtain ⟨hb, hnode⟩ := hbindings b hb
    obtain ⟨hgone, hstrict⟩ := heven b.node (.inr (.inr (.inr hnode)))
    exact ⟨hgone, hstrict, hlink b.link hb⟩
  · rintro d d' ⟨rfl, h⟩
    have hall : (one.reconcile == two.reconcile) = true → unevenSlots one two t = [] := fun heq => by
      rw [unevenSlots, if_pos (beq_iff_eq.mp heq)]
    have hsame : (readNetwork t' maps entries' d').map (Network.shown _) =
        (readNetwork t maps entries' d).map (Network.shown _) := readNetwork_same h hall hparts heven
      (fun i hi => huneven i (List.mem_append_right _ hi)) fun r hr => hlink r.link (hlinks r hr)
    generalize readNetwork t maps entries' d = x at hsame
    generalize readNetwork t' maps entries' d' = x' at hsame
    cases x <;> cases x' <;> simp [Except.map] at hsame ⊢ <;> exact hsame

/-- **Two compilations of one drawing go together**: they fail in the same cases, and give
the same network but for the fields that only one of them reconciles. -/
theorem couples_compile (c : Catalog) (one two : Switches) (scope : Slot) :
    Couples (fun d d' => d' = d) (compile c one scope) (compile c two scope) fun r r' _ _ =>
      r'.network.shown (one.reconcile == two.reconcile) =
        r.network.shown (one.reconcile == two.reconcile) := by
  rw [compile_eq, compile_eq]
  refine couples_bind (R := fun _ _ d d' => d' = d) (couples_check fun d d' h => ?_) fun _ _ =>
    couples_bind (R := fun t t' d d' => ∃ gone, Alike gone t t' d d')
      (couples_change fun d d' h => ?_) fun t t' =>
    couples_bind (R := fun maps maps' d d' => maps' = maps ∧ PortMaps.build c t d = .ok maps ∧
      ∃ gone, Alike gone t t' d d') (couples_check ?_) ?_
  · subst h
    cases hvalid : d'.validate with
    | error f => exact .inl ⟨f, rfl, rfl⟩
    | ok u => exact .inr ⟨u, u, rfl, rfl, rfl⟩
  · subst h
    -- Extraction may prune in one of them, and what it prunes is read by neither.
    refine (Topology.extract_either c one.pruneGrounds two.pruneGrounds scope d').imp_right ?_
    rintro ⟨t, d₁, t', d₁', hextract, hextract', hsame⟩
    obtain ⟨hcontainer, gone, h⟩ := Topology.extract_eq_ok hextract
    obtain ⟨-, gone', h'⟩ := Topology.extract_eq_ok hextract'
    exact ⟨t, t', d₁, d₁', hextract, hextract', _, alike_of_extracts hcontainer h h' hsame⟩
  · rintro d d' ⟨gone, halike⟩
    rw [PortMap.build_congr_of_reading halike.reading]
    cases hbuild : PortMaps.build c t d with
    | error f => exact .inl ⟨f, rfl, rfl⟩
    | ok maps => exact .inr ⟨maps, maps, rfl, rfl, rfl, rfl, gone, halike⟩
  · rintro maps maps' d d' ⟨rfl, hbuild, gone, halike⟩
    obtain ⟨hlinks, -, hbindings⟩ := PortMap.build_eq_ok hbuild
    refine couples_finish halike.parts halike.watched halike.uneven (fun r hr => ?_) (fun b hb => ?_)
      d d' halike.texts
    · obtain ⟨link, hlink, hresolves⟩ := forall₂_mem_right hlinks hr
      rw [hresolves.link_eq]
      exact PortMap.mem_setUpOrder.mp hlink
    · obtain ⟨hlink, hbinds⟩ := hbindings b hb
      exact ⟨hlink, by rw [hbinds.interface]; rfl⟩

/-- **The switches of a compilation never change what a network connects.** Whatever they
are, compiling fails in the same cases and with the same failure, and the network is the
same but for the fields of its links and spotters. These are the same too if both
compilations reconcile, or neither. -/
theorem compile_switches (c : Catalog) (one two : Switches) (scope : Slot) (d : Diagram) :
    ((compile c one scope).run d).result.map (fun r => r.network.connectivity) =
        ((compile c two scope).run d).result.map (fun r => r.network.connectivity) ∧
      (one.reconcile = two.reconcile →
        ((compile c one scope).run d).result.map (fun r => r.network) =
          ((compile c two scope).run d).result.map fun r => r.network) := by
  rcases couples_compile c one two scope d d rfl with ⟨f, e, e', h, h'⟩ | ⟨r, r', e, e', h, h', hsame⟩
  · rw [h.1, h'.1]
    exact ⟨rfl, fun _ => rfl⟩
  · rw [h.1, h'.1]
    refine ⟨congrArg Except.ok ?_, fun heq => congrArg Except.ok ?_⟩
    · show r.network.connectivity = r'.network.connectivity
      rw [← Network.connectivity_shown (one.reconcile == two.reconcile) r.network, ← hsame,
        Network.connectivity_shown]
    · rw [beq_iff_eq.mpr heq, Network.shown_true, Network.shown_true] at hsame
      exact hsame.symm

/-! ## A valve whose gain was renumbered -/

/-- The masters of valves, which have one gain, and of gauges. -/
def gains : Catalog :=
  ⟨[{ kind := .link, subtype := "Valve", domain := some .basic, ports := 2, required := [0, 1],
      fields := Fields.ofList [("c00.Gain", "1")] },
    { kind := .spotter, subtype := "Gauge" }]⟩

/-- A valve from node `2` to the keyed copy `7` of node `3`. Its gain is in another slot than
the master has it in, and no port reaches the ground. -/
def renumbered : Diagram :=
  let elements : List Element :=
    [{ id := "root", role := .root },
      { id := "net", role := .network .sub, parent := some 0 },
      { id := "a", role := .node .basic, label := "0", parent := some 1 },
      { id := "b", role := .node .basic, label := "1", parent := some 1 },
      { id := "v", role := .link ⟨"Valve", none⟩, label := "V1", parent := some 1,
        fields := Fields.ofList [("c01.Gain", "2")] },
      { id := "g", role := .node .ground, parent := some 1 },
      { id := "i", role := .interface ⟨none, none⟩, label := "inlet", parent := some 1 },
      { id := "k", role := .node .basic, label := "1", parent := some 6,
        fields := Fields.ofList [("Key", "in")] },
      { id := "t", role := .spotter ⟨"Gauge", none⟩, label := "T1", parent := some 1 },
      { id := "p", role := .port, label := "0", parent := some 1, source := some 4, target := some 2 },
      { id := "q", role := .port, label := "1", parent := some 1, source := some 4, target := some 7 }]
  ⟨(elements.map some).toArray⟩

/-- The ground is removed or kept, and the gain is moved or not: the network connects the
same, and it is the same outright if only the ground is at stake. -/
theorem compile_switches_renumbered :
    ((compile gains {} Diagram.root).run renumbered).result.toOption.any (fun r =>
        r.topology.prunedGrounds == 1 && r.network.links.any fun l => l.fields.contains "c00.Gain") = true ∧
      ((compile gains {} Diagram.root).run renumbered).result.map (fun r => r.network) =
        ((compile gains { pruneGrounds := false } Diagram.root).run renumbered).result.map
          (fun r => r.network) ∧
      ((compile gains { reconcile := false } Diagram.root).run renumbered).result.toOption.any (fun r =>
        r.network.links.any fun l => l.fields.contains "c01.Gain") = true ∧
      ((compile gains {} Diagram.root).run renumbered).result.map (fun r => r.network.connectivity) =
        ((compile gains { reconcile := false } Diagram.root).run renumbered).result.map
          (fun r => r.network.connectivity) :=
  ⟨by cbv, (compile_switches gains {} { pruneGrounds := false } Diagram.root renumbered).2 rfl, by cbv,
    (compile_switches gains {} { reconcile := false } Diagram.root renumbered).1⟩

end Compilation

end Netlist
