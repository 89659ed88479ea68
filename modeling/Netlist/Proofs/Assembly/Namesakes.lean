import Netlist.Proofs.Assembly.Matching

/-!
# Instances with the same name

What a connector binds is a link port of an instance and a node. The super-port of it has
the name of the instance, which is a label and need not be unique. Super-ports are drawn
once, so two ports of instances with the same name can become one super-port.

- `length_eraseDups_map`: how many of the images of a list are left without repetitions.
- `Tie`, `Ties`: what connectors bind, with the instance itself.
- `ties_of_findsAt`: what is found at a connector are its ties, by name.
- `superPorts_of_ties`: **there are as many super-ports as ties iff no two ties of different
  instances look the same.**
- `namesake_passed_over`: two instances with one name, of which one gets no super-port.
-/

namespace Netlist

/-- **A map that is injective on a list, and only such a map,** leaves as many items
without repetitions. -/
theorem length_eraseDups_map {α β : Type} [DecidableEq α] [DecidableEq β] (f : α → β)
    (as : List α) : (as.map f).eraseDups.length ≤ as.eraseDups.length ∧
      ((as.map f).eraseDups.length = as.eraseDups.length ↔
        ∀ a ∈ as, ∀ a' ∈ as, f a = f a' → a = a') := by
  have himage : (as.map f).eraseDups.length = (as.toFinset.image f).card := by
    rw [← List.toFinset_card_of_nodup (nodup_eraseDups _)]
    congr 1
    ext b
    simp
  have hself : as.eraseDups.length = as.toFinset.card := by
    rw [← List.toFinset_card_of_nodup (nodup_eraseDups _)]
    congr 1
    ext a
    simp
  rw [himage, hself]
  refine ⟨Finset.card_image_le, ?_⟩
  rw [Finset.card_image_iff]
  constructor
  · intro h a ha a' ha' heq
    exact h (by simpa using ha) (by simpa using ha') heq
  · intro h a ha a' ha' heq
    exact h a (by simpa using ha) a' (by simpa using ha') heq

namespace Assembly

variable {d d' : Diagram} {a b c s top : Slot} {naming : Naming} {placements : Placements}
  {found : List SuperPort} {t t' : Tie}

/-! ## Ties -/

/-- A link port of an instance that is bound to a node. -/
structure Tie where
  /-- The instance itself. -/
  subnet : Slot
  link : String
  port : Nat
  node : Nat
deriving DecidableEq, Repr

/-- The super-port of a tie, which has the name of the instance. -/
def Tie.superPort (placements : Placements) (t : Tie) : SuperPort :=
  ⟨nameAt placements t.subnet, t.link, t.port, t.node⟩

/-- Ties that look the same differ in their instances at most. -/
theorem Tie.eq_of_superPort (h : t.superPort placements = t'.superPort placements)
    (hsubnet : t.subnet = t'.subnet) : t = t' := by
  obtain ⟨subnet, link, port, node⟩ := t
  obtain ⟨subnet', link', port', node'⟩ := t'
  cases hsubnet
  cases h
  rfl

/-- A link port is bound from the side `a` to the side `b`: its connection is recorded at
the interface that stands for `a`, inside the instance, and the one that stands for `b`
offers the node for the key of it. -/
def TiesFrom (d : Diagram) (a b : Slot) (t : Tie) : Prop :=
  d.Nearest (fun _ e => e.role.isSubNetwork) (canonical d a) t.subnet ∧
    ∃ connection ∈ recordedAt d (canonical d a), connection.link = t.link ∧
      connection.port = t.port ∧ Offers d (canonical d b) connection.key t.node

/-- A link port is bound by a connector, from either side. -/
def Ties (d : Diagram) (c : Slot) (t : Tie) : Prop :=
  ∃ a b, joined? d c = some (a, b) ∧ (TiesFrom d a b t ∨ TiesFrom d b a t)

theorem ties_of_wires (h : Wires d placements a b found) : ∃ ties : List Tie,
    found = ties.map (Tie.superPort placements) ∧ ∀ t, t ∈ ties ↔ TiesFrom d a b t := by
  obtain ⟨s, number?, hnear, hnumber, rfl⟩ := h
  refine ⟨(recordedAt d (canonical d a)).filterMap fun c =>
    (number? c.key).map fun number => ⟨s, c.link, c.port, number⟩, ?_, fun t => ?_⟩
  · rw [List.map_filterMap]
    refine List.filterMap_congr fun connection _ => ?_
    rw [Option.map_map]
    rfl
  · simp only [List.mem_filterMap, Option.map_eq_some_iff, hnumber]
    constructor
    · rintro ⟨connection, hmem, number, hoffers, rfl⟩
      exact ⟨hnear, connection, hmem, rfl, rfl, hoffers⟩
    · rintro ⟨hnear', connection, hmem, hlink, hport, hoffers⟩
      refine ⟨connection, hmem, t.node, hoffers, ?_⟩
      rw [hlink, hport, hnear.unique hnear']

/-- **What is found at a connector are its ties**, by the names of their instances. -/
theorem ties_of_findsAt (h : FindsAt d placements c found) : ∃ ties : List Tie,
    found = ties.map (Tie.superPort placements) ∧ ∀ t, t ∈ ties ↔ Ties d c t := by
  rw [FindsAt] at h
  cases hjoined : joined? d c with
  | none =>
    rw [hjoined] at h
    refine ⟨[], h, fun t => iff_of_false List.not_mem_nil ?_⟩
    rintro ⟨a, b, hab, -⟩
    rw [hjoined] at hab
    cases hab
  | some ends =>
    obtain ⟨a, b⟩ := ends
    rw [hjoined] at h
    obtain ⟨one, two, hone, htwo, rfl⟩ := h
    obtain ⟨ties, rfl, hties⟩ := ties_of_wires hone
    obtain ⟨ties', rfl, hties'⟩ := ties_of_wires htwo
    refine ⟨ties ++ ties', List.map_append.symm, fun t => ?_⟩
    rw [List.mem_append, hties, hties', Ties, hjoined]
    constructor
    · exact fun h => ⟨a, b, rfl, h⟩
    · rintro ⟨a', b', hab, h⟩
      cases hab
      exact h

theorem ties_of_finds {finds : List (Slot × List SuperPort)}
    (h : ∀ q ∈ finds, FindsAt d placements q.1 q.2) : ∃ ties : List Tie,
      finds.flatMap Prod.snd = ties.map (Tie.superPort placements) ∧
        ∀ t, t ∈ ties ↔ ∃ c ∈ finds.map Prod.fst, Ties d c t := by
  induction finds with
  | nil => exact ⟨[], rfl, fun t => by simp⟩
  | cons q finds ih =>
    obtain ⟨hq, h⟩ := List.forall_mem_cons.mp h
    obtain ⟨ties, heq, hties⟩ := ties_of_findsAt hq
    obtain ⟨later, hlater, hmem⟩ := ih h
    refine ⟨ties ++ later, by rw [List.flatMap_cons, heq, hlater, List.map_append], fun t => ?_⟩
    rw [List.mem_append, hties, hmem, List.map_cons]
    simp only [List.mem_cons, exists_eq_or_imp]

/-! ## Super-ports of ties -/

/-- The super-ports are the ties of the connectors, by name and without repetitions. -/
theorem exists_ties {r : Stitching} (hsound : Sound d)
    (h : Edit.Runs (stitch naming placements top) d r d') : ∃ ties : List Tie,
      r.superPorts = (ties.map (Tie.superPort placements)).eraseDups ∧
        ∀ t, t ∈ ties ↔ ∃ c ∈ connectorsIn d top, Ties d c t := by
  obtain ⟨finds, -, hkeys, hall, hports, -⟩ :=
    stitch_finds hsound.root (fun _ _ _ _ => hsound.sameEnds) h
  obtain ⟨ties, hties, hmem⟩ := ties_of_finds hall
  exact ⟨ties, hties ▸ hports, hkeys ▸ hmem⟩

/-- The ties that the connectors of a super-network bind, each listed once. -/
structure TiedBy (d : Diagram) (top : Slot) (ties : List Tie) : Prop where
  nodup : ties.Nodup
  mem : ∀ t, t ∈ ties ↔ ∃ c ∈ connectorsIn d top, Ties d c t

/-- **There are as many super-ports as ties iff no two ties of different instances look the
same**, and never more. Every tie has its super-port, so where one is missing it is there
for the tie of a namesake. -/
theorem superPorts_of_ties {r : Stitching} (hsound : Sound d)
    (h : Edit.Runs (stitch naming placements top) d r d') :
    ∃ ties, TiedBy d top ties ∧ r.superPorts.Nodup ∧
      (∀ p, p ∈ r.superPorts ↔ ∃ t ∈ ties, t.superPort placements = p) ∧
      r.superPorts.length ≤ ties.length ∧
      (r.superPorts.length = ties.length ↔ ∀ t ∈ ties, ∀ t' ∈ ties,
        t.superPort placements = t'.superPort placements → t.subnet = t'.subnet) := by
  obtain ⟨ties, hports, hmem⟩ := exists_ties hsound h
  obtain ⟨hle, heq⟩ := length_eraseDups_map (Tie.superPort placements) ties
  rw [hports]
  refine ⟨ties.eraseDups, ⟨nodup_eraseDups _, fun t => List.mem_eraseDups.trans (hmem t)⟩,
    nodup_eraseDups _, fun p => ?_, hle, heq.trans ?_⟩
  · rw [List.mem_eraseDups, List.mem_map]
    simp only [List.mem_eraseDups]
  · simp only [List.mem_eraseDups]
    constructor
    · exact fun hinj t ht t' ht' hsame => congrArg Tie.subnet (hinj t ht t' ht' hsame)
    · exact fun hown t ht t' ht' hsame => Tie.eq_of_superPort hsame (hown t ht t' ht' hsame)

/-- Two houses that are copies of each other, each with an outlet that records a valve, and
a third house that both outlets lead to. -/
def twins : Diagram :=
  let outlet : Role := .interface ⟨some ⟨1, [⟨"V1", 1, "k", [0, -1]⟩]⟩, none⟩
  let key := Fields.ofList [(Element.keyField, "k")]
  diagramOf
    [{ id := "root", role := .root },
      { id := "all", role := .network .super, label := "Town", parent := some 0 },
      { id := "s", role := .network .sub, label := "S", parent := some 1 },
      { id := "o", role := outlet, parent := some 2 },
      { id := "g", role := .node .ground, parent := some 3, fields := key },
      { id := "t", role := .network .sub, label := "S", parent := some 1 },
      { id := "p", role := outlet, parent := some 5 },
      { id := "h", role := .node .ground, parent := some 6, fields := key },
      { id := "u", role := .network .sub, label := "T", parent := some 1 },
      { id := "i", role := .interface ⟨none, none⟩, parent := some 8 },
      { id := "n", role := .node .basic, label := "0", parent := some 9, fields := key },
      { id := "c", role := .connector, parent := some 1, source := some 3, target := some 9 },
      { id := "b", role := .connector, parent := some 1, source := some 6, target := some 9 }]

theorem sound_twins : Sound twins := by decide +kernel

/-- With names of their own, both twins get a super-port. -/
theorem superPorts_of_ties_twins : Sound twins ∧ ∃ r d',
    Edit.Runs (stitch (fun slot => toString slot) [(2, ⟨"S", 0, 1⟩), (5, ⟨"S2", 1, 1⟩),
      (8, ⟨"T", 2, 1⟩)] 1) twins r d' ∧
    r.superPorts = [⟨"S", "V1", 1, 0⟩, ⟨"S2", "V1", 1, 0⟩] ∧
    ∃ ties, TiedBy twins 1 ties ∧ r.superPorts.length ≤ ties.length := by
  have hrun : ((stitch (fun slot => toString slot) [(2, ⟨"S", 0, 1⟩), (5, ⟨"S2", 1, 1⟩),
      (8, ⟨"T", 2, 1⟩)] 1).run twins).result.toOption.map Stitching.superPorts =
        some [⟨"S", "V1", 1, 0⟩, ⟨"S2", "V1", 1, 0⟩] := by cbv
  obtain ⟨r, hr, hports⟩ := Option.map_eq_some_iff.mp hrun
  obtain ⟨ties, hties, -, -, hle, -⟩ := superPorts_of_ties sound_twins ⟨toOption_eq_some.mp hr, rfl⟩
  exact ⟨sound_twins, r, _, ⟨toOption_eq_some.mp hr, rfl⟩, hports, ties, hties, hle⟩

/-- Each twin has a valve that is bound to the node of the third house. -/
theorem ties_twins : Ties twins 11 ⟨2, "V1", 1, 0⟩ ∧ Ties twins 12 ⟨5, "V1", 1, 0⟩ := by
  have hoffers : Offers twins 9 "k" 0 :=
    ⟨10, _, rfl, rfl, by decide, rfl, rfl, rfl, by cbv⟩
  exact ⟨⟨3, 9, rfl, .inl ⟨.hit ⟨_, rfl, rfl⟩ rfl rfl, _, List.mem_cons_self, rfl, rfl, hoffers⟩⟩,
    ⟨6, 9, rfl, .inl ⟨.hit ⟨_, rfl, rfl⟩ rfl rfl, _, List.mem_cons_self, rfl, rfl, hoffers⟩⟩⟩

/-- **The second of two instances with one name is passed over**: each twin has its tie, and
there is one super-port. -/
theorem namesake_passed_over : ¬ ∀ (naming : Naming) (placements : Placements) (top : Slot)
    (d d' : Diagram) (r : Stitching) (ties : List Tie), Sound d →
      Edit.Runs (stitch naming placements top) d r d' → TiedBy d top ties →
        r.superPorts.length = ties.length := by
  intro h
  have hrun : ((stitch (fun slot => toString slot) [(2, ⟨"S", 0, 1⟩), (5, ⟨"S", 1, 1⟩),
      (8, ⟨"T", 2, 1⟩)] 1).run twins).result.toOption.map Stitching.superPorts =
        some [⟨"S", "V1", 1, 0⟩] := by cbv
  obtain ⟨r, hr, hports⟩ := Option.map_eq_some_iff.mp hrun
  obtain ⟨ties, -, hmem⟩ := exists_ties sound_twins ⟨toOption_eq_some.mp hr, rfl⟩
  have hlength := h _ _ _ _ _ r ties.eraseDups sound_twins ⟨toOption_eq_some.mp hr, rfl⟩
    ⟨nodup_eraseDups _, fun t => List.mem_eraseDups.trans (hmem t)⟩
  have hsub : [⟨2, "V1", 1, 0⟩, ⟨5, "V1", 1, 0⟩] ⊆ ties.eraseDups := by
    intro t ht
    have hconnectors : connectorsIn twins 1 = [11, 12] := by decide +kernel
    rw [List.mem_eraseDups, hmem, hconnectors]
    rcases List.mem_pair.mp ht with rfl | rfl
    · exact ⟨11, List.mem_cons_self, ties_twins.1⟩
    · exact ⟨12, List.mem_cons_of_mem 11 List.mem_cons_self, ties_twins.2⟩
  have hle := (List.subperm_of_subset (by decide) hsub).length_le
  rw [← hlength, hports] at hle
  exact absurd hle (by decide)

end Assembly

end Netlist
