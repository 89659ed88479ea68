import Netlist.Proofs.Strict.Assembly

/-!
# Stitching finds what it looks for

The connectors of a super-network are listed once, before old super-ports are thrown away
and new ones are drawn. A connector is no super-port, so it is still there when its turn
comes. Both its ends are checked to be interfaces; the interfaces that stand for them, and
the nodes in these, are read off the diagram as it is then.

- `discard_eq`: every super-port is there until it is thrown away.
- `bindSides_eq`, `finds_bindSides`: what is looked up between two interfaces.
- `guards_stitch`: **stitching does the same with strict lookups, on every diagram.**
- `guards_assemble`: **and so does a whole assembly.**
-/

namespace Netlist.Strict

open Assembly (Context Placements Side isInterface canonical)

variable {x : Context} {d d' : Diagram} {a b c i : Slot} {slots : List Slot} {e : Element}
  {naming : Naming} {placements : Placements} {ports : List SuperPort}

/-! ## Discarding -/

/-- Every listed super-port is there until its turn comes. -/
theorem discard_eq (hnodup : slots.Nodup) (hlive : ∀ i ∈ slots, ∃ e, d.get? i = some e) :
    discard slots d = .ok (Assembly.discard slots d) := by
  induction slots generalizing d with
  | nil => rfl
  | cons i slots ih =>
    obtain ⟨hi, hnodup⟩ := List.nodup_cons.mp hnodup
    obtain ⟨⟨e, he⟩, hlive⟩ := List.forall_mem_cons.mp hlive
    have hlater := ih (d := d.remove i) hnodup fun j hj => by
      obtain ⟨e', he'⟩ := hlive j hj
      exact exists_of_remove he' (ne_of_mem_of_not_mem hj hi)
    rw [discard, Diagram.fetch_eq_ok.mpr he, hlater]
    rfl

/-! ## Sides -/

/-- The interface that stands for another one is there. -/
theorem exists_of_canonical (ha : isInterface d a = true) : ∃ e, d.get? (canonical d a) = some e := by
  obtain ⟨e, he, -⟩ := (Option.any_eq_true _ _).mp ha
  rw [canonical]
  split
  · rename_i payload _
    cases hfirst : payload.duplicateOf.filter d.isLive with
    | none => exact ⟨e, he⟩
    | some first =>
      obtain ⟨-, hlive⟩ := Option.filter_eq_some_iff.mp hfirst
      exact Option.isSome_iff_exists.mp hlive
  · exact ⟨e, he⟩

theorem side_eq (d : Diagram) (a : Slot) : side d a = Assembly.side d a := by
  rw [side, Assembly.side, nearestAncestor_eq]
  refine bind_congr_ok fun around _ => ?_
  cases around with
  | none => rfl
  | some subnet =>
    dsimp only
    rw [look_eq_ok.mpr fun i hi => exists_of_mem_children hi]
    rfl

theorem finds_side (ha : isInterface d a = true) : Finds (Assembly.side d a) := by
  obtain ⟨e, he⟩ := exists_of_canonical ha
  rw [Assembly.side]
  refine (finds_nearestAncestor d _ _).bind fun around _ => ?_
  cases around with
  | none => exact (finds_fetch he).bind fun _ _ => finds_violation
  | some subnet => exact never_ok

/-- A side whose interface and nodes are there. -/
structure Standing (d : Diagram) (s : Side) : Prop where
  interface : ∃ e, d.get? s.interface = some e
  nodes : ∀ i ∈ s.nodes.map Prod.fst, ∃ e, d.get? i = some e

theorem standing_of_side {s : Side} (ha : isInterface d a = true)
    (h : Assembly.side d a = .ok s) : Standing d s := by
  obtain ⟨hinterface, hnodes, -⟩ := Assembly.side_eq_ok.mp h
  refine ⟨hinterface ▸ exists_of_canonical ha, fun i hi => ?_⟩
  obtain ⟨n, hn, rfl⟩ := List.mem_map.mp hi
  exact ⟨n.2, (Assembly.mem_nodesOf.mp (hnodes ▸ hn)).1⟩

theorem Standing.finds_locator {s : Side} (h : Standing d s) : Finds (s.locator d) := by
  obtain ⟨e, he⟩ := h.interface
  exact (finds_fetch he).map

/-! ## Compatible sides -/

theorem finds_checkBindings {one two : Side} (hone : Standing d one) (htwo : Standing d two) :
    Finds (Assembly.checkBindings d one two) := by
  rw [Assembly.checkBindings]
  split
  · exact hone.finds_locator.bind fun _ _ => finds_violation
  · split
    · exact htwo.finds_locator.bind fun _ _ => finds_violation
    · exact never_ok

theorem finds_checkCount {s : Side} (h : Standing d s) :
    Finds (Assembly.checkCount d placements s) := by
  rw [Assembly.checkCount]
  split
  · split
    · exact never_ok
    · exact h.finds_locator.bind fun _ _ => finds_violation
  · exact never_ok

/-- The sides of a connector are compared by what was read off them. -/
theorem finds_checkCompatible {one two : Side} (hc : d.get? c = some e) (hone : Standing d one)
    (htwo : Standing d two) : Finds (Assembly.checkCompatible d placements c one two) := by
  rw [Assembly.checkCompatible]
  refine hone.finds_locator.bind fun _ _ => htwo.finds_locator.bind fun _ _ => ?_
  split
  · exact finds_violation
  · split
    · exact (finds_fetch hc).bind fun _ _ => finds_violation
    · exact (finds_checkBindings hone htwo).bind fun _ _ =>
        (finds_checkCount hone).bind fun _ _ => finds_checkCount htwo

/-- **Binding two interfaces does the same with strict lookups.** -/
theorem bindSides_eq (hc : d.get? c = some e) (ha : isInterface d a = true)
    (hb : isInterface d b = true) :
    bindSides d placements c a b = Assembly.bindSides d placements c a b := by
  rw [bindSides, Diagram.fetch_eq_ok.mpr hc]
  show (side d a >>= _) = Assembly.bindSides d placements c a b
  rw [Assembly.bindSides, side_eq, side_eq]
  refine bind_congr_ok fun one hone => bind_congr_ok fun two htwo => ?_
  have hone := standing_of_side ha hone
  have htwo := standing_of_side hb htwo
  rw [look_eq_ok.mpr]
  · show (Assembly.checkCompatible d placements c one two >>= _) = _
    refine bind_congr_ok fun _ _ => ?_
    rw [look_eq_ok.mpr]
    · rfl
    · exact List.forall_mem_cons.mpr ⟨hone.interface, List.forall_mem_singleton.mpr htwo.interface⟩
  · intro i hi
    rw [List.map_append, List.mem_append] at hi
    exact hi.elim (hone.nodes i) (htwo.nodes i)

theorem finds_bindSides (hc : d.get? c = some e) (ha : isInterface d a = true)
    (hb : isInterface d b = true) : Finds (Assembly.bindSides d placements c a b) := by
  rw [Assembly.bindSides]
  refine (finds_side ha).bind fun one hone => (finds_side hb).bind fun two htwo => ?_
  exact (finds_checkCompatible hc (standing_of_side ha hone) (standing_of_side hb htwo)).bind
    fun _ _ => never_ok

/-! ## Drawing -/

theorem guards_drawSuperPort {p : SuperPort} (hc : d.get? c = some e) :
    Edit.Guards isLost d (Assembly.drawSuperPort naming c p)
      (Assembly.drawSuperPort naming c p) := by
  rw [Assembly.drawSuperPort]
  refine .check_bind rfl (finds_fetch hc) fun e _ => .read_bind ?_
  refine .bind_pure (Edit.guards_change rfl ?_)
  exact never_mapError fun _ => rfl

/-- The connector is still there after each super-port. -/
theorem guards_drawNew {found : List SuperPort} (hc : d.get? c = some e) :
    Edit.Guards isLost d (Assembly.drawNew naming c ports found)
      (Assembly.drawNew naming c ports found) := by
  induction found generalizing d ports with
  | nil => exact Edit.guards_pure
  | cons p found ih =>
    rw [Assembly.drawNew]
    split
    · exact ih hc
    · exact .bind (guards_drawSuperPort hc) fun _ d₁ hdraw =>
        ih ((Assembly.drawSuperPort_runs hdraw).of_get? hc)

/-! ## Stitching -/

/-- **Stitching along connectors does the same with strict lookups**, if they are there. -/
theorem guards_stitchAll (hlive : ∀ c ∈ slots, ∃ e, d.get? c = some e) :
    Edit.Guards isLost d (stitchAll naming placements ports slots)
      (Assembly.stitchAll naming placements ports slots) := by
  induction slots generalizing d ports with
  | nil => exact Edit.guards_pure
  | cons c slots ih =>
    obtain ⟨⟨e, hc⟩, hlive⟩ := List.forall_mem_cons.mp hlive
    rw [stitchAll, Assembly.stitchAll]
    refine .read_bind ?_
    cases hjoined : Assembly.joined? d c with
    | none =>
      dsimp only
      exact .check_bind rfl (finds_fetch hc) fun e _ => .warn_bind (ih hlive)
    | some ends =>
      obtain ⟨a, b⟩ := ends
      obtain ⟨-, ha, hb⟩ := Assembly.joined?_eq_some hjoined
      dsimp only
      refine .check_bind (bindSides_eq hc ha hb) (finds_bindSides hc ha hb) fun found _ => ?_
      refine .bind (guards_drawNew hc) fun ports d₁ hdraw => ih fun i hi => ?_
      obtain ⟨y, hy⟩ := hlive i hi
      exact ⟨y, (Assembly.drawNew_runs hdraw).1.of_get? hy⟩

/-- **Stitching does the same with strict lookups**, on every diagram. -/
theorem guards_stitch (naming : Naming) (placements : Placements) (top : Slot) (d : Diagram) :
    Edit.Guards isLost d (stitch naming placements top) (Assembly.stitch naming placements top) := by
  rw [stitch, Assembly.stitch]
  refine .idle_check_bind (look_descendants d top) (.read_bind (.read_bind ?_))
  have hdiscard : discard (d.select fun e => e.role.isSuperPort) d =
      .ok (Assembly.discard (d.select fun e => e.role.isSuperPort) d) := by
    refine discard_eq (Diagram.nodup_select d _) fun i hi => ?_
    obtain ⟨e, he, -⟩ := Diagram.mem_select.mp hi
    exact ⟨e, he⟩
  refine .bind (Edit.guards_change hdiscard never_ok) fun orphaned d₁ hrun => ?_
  have hdiscards := Assembly.discard_core? d
  rw [congrArg Prod.snd (Except.ok.inj (Edit.runs_change.mp hrun))] at hdiscards
  -- Connectors are no super-ports, so they are left.
  have hlive : ∀ c ∈ (d.descendants top).filter fun i => (d.get? i).any fun e => e.role == .connector,
      ∃ e, d₁.get? c = some e := by
    intro c hc
    obtain ⟨-, hconnector⟩ := List.mem_filter.mp hc
    obtain ⟨e, he, hrole⟩ := (Option.any_eq_true _ _).mp hconnector
    refine exists_of_core? ?_ ⟨e, he⟩
    rw [Diagram.core?_of_get? he]
    refine hdiscards.kept c _ (Diagram.core?_of_get? he) ?_
    show e.role.isSuperPort = false
    rw [beq_iff_eq.mp hrole]
    rfl
  dsimp only
  split
  · exact .warn_bind (.bind_pure (guards_stitchAll hlive))
  · exact .bind_pure (guards_stitchAll hlive)

/-! ## The whole assembly -/

/-- The second super-network of a document that has several is there. -/
theorem finds_findSuperNetwork (d : Diagram) : Finds (Assembly.findSuperNetwork d) := by
  rw [Assembly.findSuperNetwork]
  split
  · exact never_ok
  · exact finds_violation
  · rename_i first second rest hfound
    have hmem : second ∈ d.select fun e => e.role.isSuperNetwork := by simp [hfound]
    obtain ⟨e, he, -⟩ := Diagram.mem_select.mp hmem
    exact (finds_fetch he).bind fun _ _ => finds_violation

/-- **An assembly does the same with strict lookups**, and none of them is in vain. -/
theorem guards_assemble (hd : d.Based) (hquiet : Quiet x.shelf) :
    Edit.Guards isLostIn d (assemble x) (Netlist.assemble x) := by
  rw [assemble, Netlist.assemble]
  refine guards_fault_bind rfl (finds_validate d) fun _ hvalid => ?_
  refine guards_fault_bind rfl (finds_findSuperNetwork d) fun top hsuper => ?_
  obtain ⟨e, he, -⟩ := (Assembly.findSuperNetwork_eq_ok.mp hsuper top).mpr rfl
  refine guards_fault_bind rfl (finds_fetch he) fun e _ => ?_
  refine guards_fault_bind (findInstances_eq d top) (finds_findInstances d top)
    fun instances hinstances => ?_
  obtain ⟨hflat, hnodup, -⟩ := Assembly.flat_of_findInstances hvalid hinstances
  have hlive : ∀ s ∈ instances, ∃ e, d.get? s = some e := by
    intro s hs
    obtain ⟨⟨e, he, -⟩, -⟩ := (Assembly.mem_directInstances hinstances).2 s hs
    exact ⟨e, he⟩
  refine .bind (guards_placeAll hd hquiet hnodup hflat hlive) fun placed d₁ _ => ?_
  exact .bind_pure (guards_ofFault (guards_stitch x.naming _ top d₁))

end Netlist.Strict
