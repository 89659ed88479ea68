import Netlist.Proofs.Assembly.Failing

/-!
# A refresh spares the rest

A refresh empties one instance and fills it again. Whatever is not in it stays as it is, but
for ends: those at slots that were emptied are cleared, and connectors that ended at
interfaces of the instance end at new ones of the same labels. No instance is in another
one, so no other instance changes. Copies get identities that nobody has, so putting them
in cannot fail.

- `distinct_copyAll`, `id_copyAll`: copies keep identities apart, and get the proposed ones.
- `identities_of_refresh`: **a refresh keeps identities apart.**
- `Repoints`: where the connectors of an instance end.
- `refresh_spares`: **placing one instance never disturbs the rest.**
- `refresh_unties`: an interface that is left outside the instance is not found again.
-/

namespace Netlist.Assembly

open Diagram (root)

variable {d d₁ d' : Diagram} {m : Import} {s t top o i c : Slot} {instances order : List Slot}
  {e : Element} {offset : Nat} {catalog : Catalog} {switches : Switches} {shelf : Shelf}
  {naming : Naming} {name : String} {done : Refreshed} {owner : Locator} {table : Substitution}
  {drawing : Diagram} {copies : List (Slot × Slot)}
  {visit : List (Slot × Slot) → List (Slot × Slot)}

/-! ## Identities -/

/-- **Copies keep identities apart**, whatever the naming proposes. -/
theorem distinct_copyAll (hdistinct : d.Distinct)
    (h : Edit.Runs (copyAll naming s owner drawing table order) d copies d') : d'.Distinct := by
  induction order generalizing d table copies with
  | nil =>
    obtain ⟨-, rfl⟩ := Edit.runs_pure.mp h
    exact hdistinct
  | cons o order ih =>
    obtain ⟨drawn, c, table', later, d₁, -, hone, hlater, -⟩ := copyAll_runs_cons.mp h
    obtain ⟨id, -, hinsert⟩ := copyOne_runs_iff.mp hone
    exact ih (hdistinct.insert hinsert) hlater

/-- **Every copy gets the identity that is proposed for its slot**, if the proposals are
novel. -/
theorem id_copyAll (hnovel : naming.Novel d) (htable : StandsIn table d)
    (h : Edit.Runs (copyAll naming s owner drawing table order) d copies d')
    (hc : (o, c) ∈ copies) (he : d'.get? c = some e) : e.id = naming c := by
  induction order generalizing d table copies with
  | nil =>
    obtain ⟨rfl, -⟩ := Edit.runs_pure.mp h
    cases hc
  | cons o' order ih =>
    obtain ⟨drawn, c', table', later, d₁, -, hone, hlater, rfl⟩ := copyAll_runs_cons.mp h
    obtain ⟨hnone, -, htable'⟩ := unseen_of_copyOne htable hone
    obtain ⟨id, hsubstitute, hinsert⟩ := copyOne_runs_iff.mp hone
    rw [Substitution.substitute_of_none hnone, Prod.mk.injEq] at hsubstitute
    obtain rfl : naming d.bound = id := hnovel.fresh.symm.trans hsubstitute.1
    obtain ⟨rfl, hbound⟩ := Diagram.slot_insert hinsert
    rcases List.mem_cons.mp hc with hfirst | hc
    · -- The copy that was put in first is still in its slot.
      cases hfirst
      rw [(copyAll_runs hlater).old d.bound (by omega), Diagram.get?_insert hinsert, if_pos rfl] at he
      cases he
      rfl
    · exact ih (hnovel.insert rfl hinsert) htable' hlater hc

theorem keepsIds_clear (s : Slot) (d : Diagram) : d.KeepsIds (clear s d) := by
  obtain ⟨slots, hslots, -⟩ := clear_eq_foldl_remove s d
  rw [hslots]
  exact Diagram.keepsIds_foldl Diagram.keepsIds_remove slots d

theorem keepsIds_relinkAll (drawing : Diagram) (s : Slot) (copies order : List (Slot × Slot))
    (d : Diagram) : d.KeepsIds (relinkAll drawing s copies order d) := by
  refine Diagram.keepsIds_foldl (fun d p => ?_) order d
  rw [relink]
  split
  · exact .refl d
  · split
    · exact Diagram.keepsIds_remove d p.2
    · exact Diagram.keepsIds_modify d p.2 fun _ => rfl

theorem keepsIds_shiftAll (delta : Int) (slots : List Slot) (d : Diagram) :
    d.KeepsIds (shiftAll delta slots d) :=
  Diagram.keepsIds_foldl (fun d i => Diagram.keepsIds_modify d i fun e => by rw [shift_eq]) slots d

theorem keepsIds_attachTo (interfaces : List Slot) (d : Diagram) (l : LooseEnd) :
    d.KeepsIds (attachTo interfaces d l) := by
  rw [attachTo]
  split
  · refine Diagram.keepsIds_modify d l.connector fun e => ?_
    rw [LooseEnd.attach]
    split <;> rfl
  · exact .refl d

/-- **A refresh keeps identities apart**, and the copy in a slot has the identity that was
proposed for it, if the proposals are novel. -/
theorem identities_of_refresh
    (h : Edit.Runs (refreshVisiting visit catalog switches shelf naming s name offset) d done d') :
    (d.Distinct → d'.Distinct) ∧
      (naming.Novel d → ∀ c e, d.bound ≤ c → d'.get? c = some e → e.id = naming c) := by
  obtain ⟨e, drawing, compiled, diagram, d₁, -, -, -, himport, hrebind, -⟩ :=
    refreshVisiting_runs_iff.mp h
  obtain ⟨copies, d₂, hcopy, rfl⟩ := importVisiting_runs_iff.mp himport
  have hids : d₂.KeepsIds d' := by
    rw [← rebindAll_runs_iff.mp hrebind]
    exact ((keepsIds_relinkAll _ _ _ _ _).trans (keepsIds_shiftAll _ _ _)).trans
      (Diagram.keepsIds_foldl (keepsIds_attachTo _) _ _)
  have hcleared := keepsIds_clear s d
  refine ⟨fun hdistinct => (distinct_copyAll (hdistinct.of_ids hcleared) hcopy).of_ids hids,
    fun hnovel c e hc he => ?_⟩
  obtain ⟨e₂, he₂, hid⟩ := hids c e he
  have hcopies := copyAll_runs hcopy
  -- What is in a new slot is a copy.
  have hmem : c ∈ copies.map Prod.snd := by
    rw [hcopies.slots, List.mem_range'_1, bound_clear]
    refine ⟨hc, ?_⟩
    rw [← bound_clear s d, ← hcopies.bound]
    exact Diagram.lt_bound_of_get? he₂
  obtain ⟨⟨o, _⟩, hpair, rfl⟩ := List.mem_map.mp hmem
  have hnovel' : naming.Novel (clear s d) := by
    refine ⟨fun c hc htaken => ?_, fun c c' hc hc' => ?_⟩
    · exact hnovel.unused c (bound_clear s d ▸ hc) (hcleared.taken htaken)
    · exact hnovel.injective c c' (bound_clear s d ▸ hc) (bound_clear s d ▸ hc')
  rw [← hid]
  refine id_copyAll hnovel' (fun id standIn hget => ?_) hcopy hpair he₂
  cases hget

/-! ## Connectors -/

/-- Where connectors end that ended at an interface of the instance: at an imported
interface of the same label. They end at nothing only if there is no such interface but in
copies that were removed. -/
def Repoints (m : Import) (s : Slot) (d d' : Diagram) : Prop :=
  ∀ c e e' isSource i x, d.get? c = some e → e.role = .connector → d'.get? c = some e' →
    e.endAt isSource = some i → i ∈ interfacesIn d s → d.get? i = some x →
    (∀ a, e'.endAt isSource = some a → ∃ o x', (o, a) ∈ m.copies ∧ d'.get? a = some x' ∧
      x'.role.isInterface = true ∧ x'.label = x.label) ∧
    (e'.endAt isSource = none → ∀ o a x', (o, a) ∈ m.copies → Upright m o →
      d'.get? a = some x' → x'.role.isInterface = true → x'.label ≠ x.label)

/-- **Connectors are attached to imported interfaces of the same labels.** -/
theorem Spared.repoints (h : Spared m s d d') (hmade : Made catalog switches shelf name d m)
    (hleaves : Leaves m s offset d') (hissued : d.Issued) (hloop : ¬ d.Inside s s) :
    Repoints m s d d' := by
  intro c e e' isSource i x he hrole he' hend hi hx
  have hturn := h.turn hmade hleaves
  rw [h.rebound c e e' isSource i x he hrole he' hend hi hx, labelled?]
  refine ⟨fun a ha => ?_, fun hnone o a x' hmem hup ha hinterface hlabel => ?_⟩
  · obtain ⟨hin, x', ha', hinterface⟩ := mem_interfacesIn.mp (List.mem_of_find?_eq_some ha)
    have hlabel := List.find?_some ha
    rw [ha', Option.any_some, beq_iff_eq] at hlabel
    -- Nothing old is in the instance.
    have hnew : d.bound ≤ a := by
      by_contra hold
      have hin' := hturn.inside_old hissued (Nat.not_le.mp hold) (Diagram.mem_descendants.mp hin).2.2
      rw [h.gone a hin'] at ha'
      cases ha'
    obtain ⟨o, hmem⟩ := h.exists_copy hmade hnew ha'
    exact ⟨o, x', hmem, ha', hinterface, hlabel⟩
  · -- An upright interface of the label would have been found in the instance.
    obtain ⟨⟨e₀, hs⟩, -⟩ := Diagram.mem_descendants.mp (mem_interfacesIn.mp hi).1
    have hlt := Diagram.lt_bound_of_get? hs
    have hlive : ∃ e, d'.get? s = some e := by
      obtain ⟨e, he, -⟩ := Diagram.core?_eq_some.mp
        ((h.old s hlt hloop).trans (Diagram.core?_of_get? hs))
      exact ⟨e, he⟩
    have hne : a ≠ s := Nat.ne_of_gt (Nat.lt_of_lt_of_le hlt (hmade.le_of_mem hmem))
    have hfound : a ∈ interfacesIn d' s := mem_interfacesIn.mpr
      ⟨Diagram.mem_descendants.mpr ⟨hlive, hne, (hleaves.inside o a hmem).mpr hup⟩, x', ha,
        hinterface⟩
    have hmiss := List.find?_eq_none.mp hnone a hfound
    rw [ha, Option.any_some, beq_iff_eq] at hmiss
    exact hmiss hlabel

/-! ## One refresh -/

/-- **Placing one instance never disturbs the rest.** In a diagram without loops no instance
is in another one. A refresh, in whatever order the copies are visited, spares what is not
in its instance, but for ends, and changes nothing within any other instance. Identities
stay distinct, and an identity that is imported is new to the diagram; so a refresh cannot
fail once its drawing was loaded and compiled. -/
theorem refresh_spares (hvisit : ∀ copies, (visit copies).Perm copies) (hrooted : d.Rooted)
    (hissued : d.Issued) (hacyclic : ∀ i, ¬ d.Inside i i) (hdistinct : d.Distinct)
    (hshelf : Identified shelf) (hnovel : naming.Novel d) :
    (∀ top instances, findInstances d top = .ok instances → Flat d instances) ∧
      ∀ s name offset,
        (∀ e drawing compiled diagram, d.get? s = some e →
          loadDrawing shelf name e.locator = .ok drawing →
          Edit.Runs (compile catalog switches root) drawing.diagram compiled diagram → ∃ done d',
            Edit.Runs (refreshVisiting visit catalog switches shelf naming s name offset) d done d') ∧
        ∀ done d',
          Edit.Runs (refreshVisiting visit catalog switches shelf naming s name offset) d done d' →
          ∃ m, Made catalog switches shelf name d m ∧ Leaves m s offset d' ∧ Spared m s d d' ∧
            Repoints m s d d' ∧
            (∀ top instances, findInstances d top = .ok instances → s ∈ instances →
              ∀ t ∈ instances, t ≠ s → SameWithin t d d') ∧
            d'.Distinct ∧
            (∀ c e, d.bound ≤ c → d'.get? c = some e → ¬ d.Taken e.id) ∧
            ∀ o o' c c' e e', (o, c) ∈ m.copies → (o', c') ∈ m.copies → d'.get? c = some e →
              d'.get? c' = some e' → e'.id = e.id → o' = o := by
  have hvalid := Diagram.validate_of_not_inside hacyclic
  refine ⟨fun top instances h => (flat_of_findInstances hvalid h).1, fun s name offset =>
    ⟨fun e drawing compiled diagram he hload hcompile => ?_, fun done d' h => ?_⟩⟩
  · -- What can fail is over: a compiled drawing can be copied anywhere.
    obtain ⟨m, hsource⟩ := source_of_compile hshelf hload hcompile
    exact hsource.exists_refreshVisiting he visit naming offset
  obtain ⟨m, -, hmade, -, hleaves, hspared⟩ :=
    spared_of_refresh hvisit hrooted hissued (hacyclic s) h
  obtain ⟨hapart, hids⟩ := identities_of_refresh h
  refine ⟨m, hmade, hleaves, hspared, hspared.repoints hmade hleaves hissued (hacyclic s),
    fun top instances hfound hs t ht hne => ?_, hapart hdistinct, fun c e hc he => ?_, ?_⟩
  · obtain ⟨hflat, -, hlive⟩ := flat_of_findInstances hvalid hfound
    exact (hspared.turn hmade hleaves).sameWithin hissued (hlive s hs) (hlive t ht)
      ⟨hne, hflat s hs t ht, hflat t ht s hs⟩
  · rw [hids hnovel c e hc he]
    exact hnovel.unused c hc
  · intro o o' c c' e e' hmem hmem' he he' hid
    obtain rfl := hapart hdistinct c' c e' e he' he hid
    exact congrArg Prod.fst (List.inj_on_of_nodup_map hmade.nodup.2 hmem' hmem rfl)

/-! ## An interface in a port -/

/-- The tagged house with an interface in the place of the tag. -/
def gatedHouse : Diagram := taggedHouse.modify 9 fun e => { e with role := .interface ⟨none, none⟩ }

/-- A super-network with an instance that has an interface, and a connector at it. -/
def gatedYard : Diagram :=
  diagramOf
    [{ id := "root", role := .root },
      { id := "all", role := .network .super, parent := some 0 },
      { id := "s", role := .network .sub, label := "S", parent := some 1 },
      { id := "g", role := .interface ⟨none, none⟩, label := "tag", parent := some 2 },
      { id := "i", role := .interface ⟨none, none⟩, label := "inlet", parent := some 2 },
      { id := "c", role := .connector, parent := some 1, source := some 3, target := some 4 }]

/-- Refreshes the instance of the gated yard from the gated house. -/
def refreshGates (visit : List (Slot × Slot) → List (Slot × Slot)) : Edit Failure Refreshed :=
  refreshVisiting visit Recording.valves {} (fun _ => .ok (some ⟨gatedHouse, ""⟩))
    (Naming.stroked "") 2 "house" 0

/-- The gated yard is refreshed, with the copies visited from the last to the first. -/
theorem refresh_spares_gates : ∃ m done d', Edit.Runs (refreshGates List.reverse) gatedYard done d' ∧
    Spared m 2 gatedYard d' ∧ Repoints m 2 gatedYard d' ∧ d'.Distinct := by
  have hpristine : gatedYard.Pristine := by decide
  have hacyclic : ∀ i, ¬ gatedYard.Inside i i := fun i => Diagram.not_inside_self (by cbv)
  have hshelf : Identified fun _ => .ok (some ⟨gatedHouse, ""⟩) := by
    intro name drawing h
    cases h
    decide
  have hnovel : Naming.Novel (Naming.stroked "") gatedYard := Naming.novel_strokes (by decide)
  have hruns : ((refreshGates List.reverse).run gatedYard).result.isOk = true := by cbv
  cases hresult : ((refreshGates List.reverse).run gatedYard).result with
  | error f =>
    rw [hresult] at hruns
    cases hruns
  | ok done =>
    obtain ⟨m, -, -, hspared, hrepoints, -, hdistinct, -⟩ :=
      ((refresh_spares (fun copies => copies.reverse_perm) hpristine.rooted hpristine.issued hacyclic
        (by decide) hshelf hnovel).2 2 "house" 0).2 done _ ⟨hresult, rfl⟩
    exact ⟨m, done, _, ⟨hresult, rfl⟩, hspared, hrepoints, hdistinct⟩

/-- What a refresh makes of the gated yard: there is an interface with the label of the old
one, and the connector does not end at it. -/
def unties (r : Outcome Failure Refreshed) : Bool :=
  r.result.isOk && (r.diagram.get? 9).any (fun x => x.role.isInterface && x.label == "tag") &&
    (r.diagram.get? 5).any fun c => c.source == none

/-- **A connector is left without an end although an interface of the label was imported**: it
lies in the copy of a port that was removed. -/
theorem refresh_unties : ∃ done d' c c' old new, Edit.Runs (refreshGates id) gatedYard done d' ∧
    gatedYard.get? 5 = some c ∧ c.role = .connector ∧ c.source = some 3 ∧
    3 ∈ interfacesIn gatedYard 2 ∧ gatedYard.get? 3 = some old ∧ gatedYard.bound ≤ 9 ∧
    d'.get? 9 = some new ∧ new.role.isInterface = true ∧ new.label = old.label ∧
    d'.get? 5 = some c' ∧ c'.source = none := by
  have hunties : unties ((refreshGates id).run gatedYard) = true := by cbv
  simp only [unties, Bool.and_eq_true, Option.any_eq_true, beq_iff_eq] at hunties
  obtain ⟨⟨hok, new, hnew, hinterface, hlabel⟩, c', hc', hsource⟩ := hunties
  cases hresult : ((refreshGates id).run gatedYard).result with
  | error f =>
    rw [hresult] at hok
    cases hok
  | ok done =>
    exact ⟨done, _, _, c', _, new, ⟨hresult, rfl⟩, rfl, rfl, rfl, by decide, rfl, by decide, hnew,
      hinterface, hlabel, hc', hsource⟩

end Netlist.Assembly
