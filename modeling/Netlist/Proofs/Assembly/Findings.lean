import Netlist.Proofs.Assembly.SuperPorts

/-!
# What is found along the connectors

Stitching finds some super-ports for each connector and draws those it has not
drawn yet. What it draws is in nobody's way, so the list it ends with is made of
the findings alone: they are put together in the order of the connectors, without
repetitions.

- `wiresAt`: the findings of a connector.
- `addNew`: a list of super-ports with one more, unless it is there.
- `stitch_runs_iff`: stitching is stitching along the connectors, once the old
  super-ports are gone.
- `stitchAll_cons_runs_iff`: what stitching does at one connector.
- `stitchAll_finds`: **the super-ports are the findings of the connectors.**
-/

namespace Netlist.Assembly

open Diagram (root)

variable {d d' : Diagram} {a b c superNetwork : Slot} {naming : Naming} {placements : Placements}
  {ports ports' found : List SuperPort} {p : SuperPort}

/-! ## Connectors -/

/-- The connectors inside a super-network, in document order. -/
def connectorsIn (d : Diagram) (superNetwork : Slot) : List Slot :=
  (d.descendants superNetwork).filter fun i => (d.get? i).any fun e => e.role == .connector

theorem mem_connectorsIn : c ∈ connectorsIn d superNetwork ↔
    c ∈ d.descendants superNetwork ∧ ∃ e, d.get? c = some e ∧ e.role = .connector := by
  rw [connectorsIn, List.mem_filter, Option.any_eq_true]
  simp only [beq_iff_eq]

/-- What it takes for a connector to join two interfaces. -/
theorem joined?_iff : joined? d c = some (a, b) ↔ ∃ e, d.get? c = some e ∧ e.role = .connector ∧
    e.source = some a ∧ e.target = some b ∧ isInterface d a = true ∧ isInterface d b = true := by
  constructor
  · intro h
    rw [joined?] at h
    split at h
    · cases h
    rename_i e he
    split at h
    · rename_i a' b' hsource htarget
      split at h
      · rename_i hjoined
        cases h
        simp only [Bool.and_eq_true, beq_iff_eq] at hjoined
        exact ⟨e, he, hjoined.1.1, hsource, htarget, hjoined.1.2, hjoined.2⟩
      · cases h
    · cases h
  · rintro ⟨e, he, hrole, hsource, htarget, ha, hb⟩
    rw [joined?, he]
    dsimp only
    rw [hsource, htarget]
    simp only [hrole, ha, hb, beq_self_eq_true, Bool.and_self, if_true]

/-! ## Old super-ports -/

/-- The diagram without its super-ports. -/
def withoutSuperPorts (d : Diagram) : Diagram :=
  (discard (d.select fun e => e.role.isSuperPort) d).2

/-- The super-ports that can be removed, which are all but the root. -/
def oldPorts (d : Diagram) : List Slot :=
  (d.select fun e => e.role.isSuperPort).filter (· != root)

theorem mem_oldPorts {j : Slot} :
    j ∈ oldPorts d ↔ (∃ e, d.get? j = some e ∧ e.role.isSuperPort = true) ∧ j ≠ root := by
  rw [oldPorts, List.mem_filter, Diagram.mem_select, bne_iff_ne]

theorem get?_withoutSuperPorts (d : Diagram) (j : Slot) : (withoutSuperPorts d).get? j =
    if j ∈ oldPorts d then none else (d.get? j).map (Element.detachAll (oldPorts d)) := by
  rw [withoutSuperPorts, discard_snd, ← Diagram.foldl_remove_filter]
  refine Diagram.get?_foldl_remove ((Diagram.nodup_select d _).filter _) (fun i hi => ?_) j
  obtain ⟨⟨e, he, -⟩, hroot⟩ := mem_oldPorts.mp hi
  exact ⟨hroot, by rw [he]; rfl⟩

/-- Whatever is no super-port stays, but for its ends. -/
theorem get?_withoutSuperPorts_of_role {j : Slot} {e : Element} (he : d.get? j = some e)
    (hrole : e.role.isSuperPort = false) :
    (withoutSuperPorts d).get? j = some (e.detachAll (oldPorts d)) := by
  rw [get?_withoutSuperPorts, if_neg, he, Option.map_some]
  intro hj
  obtain ⟨⟨e', he', hport⟩, -⟩ := mem_oldPorts.mp hj
  rw [he] at he'
  cases he'
  rw [hrole] at hport
  cases hport

theorem bound_withoutSuperPorts (d : Diagram) : (withoutSuperPorts d).bound = d.bound :=
  (discard_core? d).bound

/-- What is left without the super-ports was there with them. -/
theorem get?_of_withoutSuperPorts {j : Slot} {e : Element}
    (h : (withoutSuperPorts d).get? j = some e) :
    ∃ e₀, d.get? j = some e₀ ∧ j ∉ oldPorts d ∧ e = e₀.detachAll (oldPorts d) := by
  rw [get?_withoutSuperPorts] at h
  split at h
  · cases h
  rename_i hold
  obtain ⟨e₀, he₀, rfl⟩ := Option.map_eq_some_iff.mp h
  exact ⟨e₀, he₀, hold, rfl⟩

theorem isInterface_withoutSuperPorts (d : Diagram) (a : Slot) :
    isInterface (withoutSuperPorts d) a = isInterface d a := by
  rw [isInterface, isInterface, get?_withoutSuperPorts]
  split
  · rename_i ha
    obtain ⟨⟨e, he, hport⟩, -⟩ := mem_oldPorts.mp ha
    rw [he, Option.any_none, Option.any_some, Role.isInterface_of_isSuperPort hport]
  · cases d.get? a with
    | none => rfl
    | some e => rw [Option.map_some, Option.any_some, Option.any_some, Element.role_detachAll]

/-- **No connector loses an interface when super-ports are discarded.** -/
theorem joined?_withoutSuperPorts (d : Diagram) (c : Slot) :
    joined? (withoutSuperPorts d) c = joined? d c := by
  have hinterface : ∀ {a}, isInterface d a = true → a ∉ oldPorts d := by
    intro a ha hport
    obtain ⟨⟨e, he, hrole⟩, -⟩ := mem_oldPorts.mp hport
    rw [isInterface, he, Option.any_some, Role.isInterface_of_isSuperPort hrole] at ha
    cases ha
  refine Option.ext fun joined => ?_
  obtain ⟨a, b⟩ := joined
  rw [joined?_iff, joined?_iff, isInterface_withoutSuperPorts, isInterface_withoutSuperPorts]
  constructor
  · rintro ⟨e, he, hrole, hsource, htarget, hab⟩
    rw [get?_withoutSuperPorts] at he
    split at he
    · cases he
    obtain ⟨e₀, he₀, rfl⟩ := Option.map_eq_some_iff.mp he
    rw [Element.role_detachAll] at hrole
    exact ⟨e₀, he₀, hrole, ((Element.endAt_detachAll (oldPorts d) e₀ true a).mp hsource).1,
      ((Element.endAt_detachAll (oldPorts d) e₀ false b).mp htarget).1, hab⟩
  · rintro ⟨e, he, hrole, hsource, htarget, ha, hb⟩
    refine ⟨_, get?_withoutSuperPorts_of_role he (by rw [hrole]; rfl), ?_,
      (Element.endAt_detachAll (oldPorts d) e true a).mpr ⟨hsource, hinterface ha⟩,
      (Element.endAt_detachAll (oldPorts d) e false b).mpr ⟨htarget, hinterface hb⟩, ha, hb⟩
    rw [Element.role_detachAll, hrole]

/-! ## Findings -/

/-- What is found for a connector; nothing if it does not join two interfaces. -/
def wiresAt (d : Diagram) (placements : Placements) (c : Slot) : Except Fault (List SuperPort) :=
  match joined? d c with
  | none => .ok []
  | some (a, b) => bindSides d placements c a b

/-- A list of super-ports with one more, unless it is there. -/
def addNew (ports : List SuperPort) (p : SuperPort) : List SuperPort :=
  if ports.contains p then ports else ports ++ [p]

theorem mem_foldl_addNew : p ∈ found.foldl addNew ports ↔ p ∈ ports ∨ p ∈ found := by
  induction found generalizing ports with
  | nil => simp
  | cons q found ih =>
    rw [List.foldl_cons, ih, addNew, List.mem_cons]
    split
    · rename_i hq
      rw [List.contains_iff_mem] at hq
      constructor
      · exact Or.imp id .inr
      · rintro (hp | rfl | hp)
        · exact .inl hp
        · exact .inl hq
        · exact .inr hp
    · rw [List.mem_append, List.mem_singleton, or_assoc]

/-- The list grows by the findings that are new. -/
theorem drawNew_adds (h : Edit.Runs (drawNew naming c ports found) d ports' d') :
    ports' = found.foldl addNew ports := by
  induction found generalizing d ports with
  | nil =>
    rw [drawNew] at h
    exact (Edit.runs_pure.mp h).1.symm
  | cons q found ih =>
    rw [List.foldl_cons, addNew]
    rw [drawNew] at h
    split at h
    · rename_i hq
      rw [if_pos hq]
      exact ih h
    · rename_i hq
      rw [if_neg hq]
      rw [Edit.runs_bind] at h
      obtain ⟨_, d₁, -, h⟩ := h
      exact ih h

/-- **What stitching does at one connector**: it draws the findings that are new. A connector
that joins no interfaces is there, but has nothing to find. -/
theorem stitchAll_cons_runs_iff {connectors : List Slot} :
    Edit.Runs (stitchAll naming placements ports (c :: connectors)) d ports' d' ↔
      (∃ e, d.get? c = some e) ∧ ∃ found d₁, wiresAt d placements c = .ok found ∧
        Edit.Runs (drawNew naming c ports found) d (found.foldl addNew ports) d₁ ∧
        Edit.Runs (stitchAll naming placements (found.foldl addNew ports) connectors) d₁ ports' d' := by
  rw [stitchAll, Edit.runs_read_bind, wiresAt]
  cases hjoined : joined? d c with
  | none =>
    dsimp only
    rw [Edit.runs_check_bind]
    simp only [Edit.runs_warn_bind, Diagram.fetch_eq_ok]
    constructor
    · rintro ⟨e, he, h⟩
      exact ⟨⟨e, he⟩, [], d, rfl, Edit.runs_pure.mpr ⟨rfl, rfl⟩, h⟩
    · rintro ⟨⟨e, he⟩, found, d₁, hfound, hdraw, h⟩
      cases hfound
      obtain ⟨-, rfl⟩ := Edit.runs_pure.mp hdraw
      exact ⟨e, he, h⟩
  | some ends =>
    obtain ⟨a, b⟩ := ends
    dsimp only
    rw [Edit.runs_check_bind]
    simp only [Edit.runs_bind]
    constructor
    · rintro ⟨found, hbind, ports₁, d₁, hdraw, h⟩
      obtain ⟨⟨e, he, -⟩, -⟩ := joined?_eq_some hjoined
      obtain rfl := drawNew_adds hdraw
      exact ⟨⟨e, he⟩, found, d₁, hbind, hdraw, h⟩
    · rintro ⟨-, found, d₁, hbind, hdraw, h⟩
      exact ⟨found, hbind, _, d₁, hdraw, h⟩

/-- **The super-ports are the findings of the connectors**, each made when some of the
super-ports were drawn. -/
theorem stitchAll_finds {connectors : List Slot}
    (h : Edit.Runs (stitchAll naming placements ports connectors) d ports' d') :
    Draws d d' ∧ ∃ founds, List.Forall₂ (fun c found => ∃ dk, Draws d dk ∧ Draws dk d' ∧
      wiresAt dk placements c = .ok found) connectors founds ∧
      ports' = founds.flatten.foldl addNew ports := by
  induction connectors generalizing d ports with
  | nil =>
    rw [stitchAll] at h
    obtain ⟨rfl, rfl⟩ := Edit.runs_pure.mp h
    exact ⟨.refl d, [], .nil, rfl⟩
  | cons c connectors ih =>
    obtain ⟨-, found, d₁, hwires, hdraw, h⟩ := stitchAll_cons_runs_iff.mp h
    obtain ⟨hdraws₁, -⟩ := drawNew_runs hdraw
    obtain ⟨hdraws, founds, hfounds, rfl⟩ := ih h
    refine ⟨hdraws₁.trans hdraws, found :: founds,
      .cons ⟨d, .refl d, hdraws₁.trans hdraws, hwires⟩ ?_, ?_⟩
    · refine hfounds.imp fun c found hfound => ?_
      obtain ⟨dk, hk, hk', hwires⟩ := hfound
      exact ⟨dk, hdraws₁.trans hk, hk', hwires⟩
    · rw [List.flatten_cons, List.foldl_append]

/-! ## The whole of stitching -/

/-- **Stitching is stitching along the connectors**, once the old super-ports are gone. -/
theorem stitch_runs_iff : (∃ r : Stitching, Edit.Runs (stitch naming placements superNetwork) d r d' ∧
      r.superPorts = ports) ↔
    Edit.Runs (stitchAll naming placements [] (connectorsIn d superNetwork)) (withoutSuperPorts d)
      ports d' := by
  rw [stitch]
  simp only [Edit.runs_read_bind]
  rw [← connectorsIn]
  have hdiscard : ∀ n d₂, Edit.Runs (Edit.change fun d₀ =>
      (.ok (discard (d.select fun e => e.role.isSuperPort) d₀) : Except Fault _)) d n d₂ ↔
      (discard (d.select fun e => e.role.isSuperPort) d).1 = n ∧ withoutSuperPorts d = d₂ := by
    intro n d₂
    rw [Edit.runs_change, Except.ok.injEq, Prod.ext_iff]
    rfl
  constructor
  · rintro ⟨r, h, rfl⟩
    rw [Edit.runs_bind] at h
    obtain ⟨orphaned, d₂, hchange, h⟩ := h
    obtain ⟨-, rfl⟩ := (hdiscard _ _).mp hchange
    -- The warning about orphans changes nothing.
    split at h
    · rw [Edit.runs_warn_bind, Edit.runs_bind] at h
      obtain ⟨ports, _, hstitch, h⟩ := h
      obtain ⟨rfl, rfl⟩ := Edit.runs_pure.mp h
      exact hstitch
    · rw [Edit.runs_bind] at h
      obtain ⟨ports, _, hstitch, h⟩ := h
      obtain ⟨rfl, rfl⟩ := Edit.runs_pure.mp h
      exact hstitch
  · intro hstitch
    let old := d.select fun e => e.role.isSuperPort
    refine ⟨⟨ports, (discard old d).1, old.length⟩, ?_, rfl⟩
    rw [Edit.runs_bind]
    refine ⟨_, _, (hdiscard _ _).mpr ⟨rfl, rfl⟩, ?_⟩
    split
    · rw [Edit.runs_warn_bind, Edit.runs_bind]
      exact ⟨ports, d', hstitch, Edit.runs_pure.mpr ⟨rfl, rfl⟩⟩
    · rw [Edit.runs_bind]
      exact ⟨ports, d', hstitch, Edit.runs_pure.mpr ⟨rfl, rfl⟩⟩

end Netlist.Assembly
