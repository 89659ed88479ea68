import Netlist.Compilation
import Netlist.Proofs.Diagram.Removal
import Netlist.Proofs.Edit.Runs
import Netlist.Proofs.Lists
import Netlist.Proofs.Reconciliation.Replay

/-!
# Reconciling a list of elements

Reconciling goes through a list of slots, which may name a slot twice or one that is
empty. An element is brought in line the first time it comes up; later times find nothing
left to do. So what is reported is told by the elements before, each taken once.

- `runs_reconcileOne`: what reconciling does to one slot, and what it finds out.
- `Logs`: what a reconciliation leaves, and how its reports tell it; `Logs.cons`: one more
  slot in front.
- `reconcile_logs`: **the reports are a log of what was done.**
-/

namespace Netlist.Compilation

variable {c : Catalog} {d d' : Diagram} {e : Element} {i : Slot} {r : Reconciliation}
  {slots : List Slot}

/-! ## One element -/

/-- The changes to the fields of an element; none if it has no master. -/
def changesOf (c : Catalog) (e : Element) : List FieldChange :=
  match c.masterOf? e.role with
  | none => []
  | some master => (e.fields.reconcile master.fields).1

/-- The element with its fields in line with its master, if it has one. -/
def inLine (c : Catalog) (e : Element) : Element :=
  match c.masterOf? e.role with
  | none => e
  | some master => { e with fields := (e.fields.reconcile master.fields).2 }

/-- The report on an element that changes. -/
def reportOn? (c : Catalog) (e : Element) : Option ReconcileReport :=
  if (changesOf c e).isEmpty then none else some ⟨e.locator, changesOf c e⟩

/-- The place of an element that has no master. -/
def masterless? (c : Catalog) (e : Element) : Option Locator :=
  if (c.masterOf? e.role).isNone then some e.locator else none

/-- What is found out about a slot. -/
def findings (c : Catalog) (d : Diagram) (i : Slot) : Reconciliation :=
  ⟨((d.get? i).bind (reportOn? c)).toList, ((d.get? i).bind (masterless? c)).toList⟩

theorem inLine_of_master {master : Master} (h : c.masterOf? e.role = some master) :
    inLine c e = { e with fields := (e.fields.reconcile master.fields).2 } := by
  rw [inLine, h]

theorem inLine_of_none (h : c.masterOf? e.role = none) : inLine c e = e := by
  rw [inLine, h]

theorem changesOf_of_master {master : Master} (h : c.masterOf? e.role = some master) :
    changesOf c e = (e.fields.reconcile master.fields).1 := by
  rw [changesOf, h]

@[simp] theorem role_inLine (c : Catalog) (e : Element) : (inLine c e).role = e.role := by
  rw [inLine]
  split <;> rfl

@[simp] theorem locator_inLine (c : Catalog) (e : Element) : (inLine c e).locator = e.locator := by
  rw [inLine]
  split <;> rfl

/-- An element in line has nothing to change. -/
@[simp] theorem changesOf_inLine (c : Catalog) (e : Element) : changesOf c (inLine c e) = [] := by
  cases hmaster : c.masterOf? e.role with
  | none => rw [inLine_of_none hmaster, changesOf, hmaster]
  | some master =>
    rw [changesOf_of_master ((congrArg c.masterOf? (role_inLine c e)).trans hmaster),
      inLine_of_master hmaster, Fields.reconcile_of_fits (Fields.fits_reconcile _ _)]

@[simp] theorem inLine_inLine (c : Catalog) (e : Element) :
    inLine c (inLine c e) = inLine c e := by
  cases hmaster : c.masterOf? e.role with
  | none => rw [inLine_of_none hmaster, inLine_of_none hmaster]
  | some master =>
    rw [inLine_of_master ((congrArg c.masterOf? (role_inLine c e)).trans hmaster),
      inLine_of_master hmaster, Fields.reconcile_of_fits (Fields.fits_reconcile _ _)]

@[simp] theorem reportOn?_inLine (c : Catalog) (e : Element) : reportOn? c (inLine c e) = none := by
  rw [reportOn?, changesOf_inLine]
  rfl

@[simp] theorem masterless?_inLine (c : Catalog) (e : Element) :
    masterless? c (inLine c e) = masterless? c e := by
  rw [masterless?, role_inLine, locator_inLine, masterless?]

/-! ## One slot -/

/-- **Reconciling one slot** brings the element in it in line, and finds out what was
changed. -/
theorem runs_reconcileOne (c : Catalog) (i : Slot) (d : Diagram) :
    Edit.Runs (reconcileOne c i) d (findings c d i) (d.modify i (inLine c)) := by
  rw [reconcileOne, Edit.runs_read_bind, findings]
  cases he : d.get? i with
  | none =>
    refine Edit.runs_pure.mpr ⟨rfl, (Diagram.modify_of_eq fun e' he' => ?_).symm⟩
    rw [he] at he'
    cases he'
  | some e =>
    dsimp only [Option.bind_some]
    cases hmaster : c.masterOf? e.role with
    | none =>
      refine Edit.runs_warn_bind.mpr (Edit.runs_pure.mpr ⟨?_, ?_⟩)
      · rw [reportOn?, changesOf, masterless?, hmaster]
        rfl
      · refine (Diagram.modify_of_eq fun e' he' => ?_).symm
        rw [he] at he'
        cases he'
        exact inLine_of_none hmaster
    | some master =>
      refine Edit.runs_update_bind.mpr (Edit.runs_pure.mpr ⟨?_, ?_⟩)
      · rw [reportOn?, changesOf_of_master hmaster, masterless?, hmaster]
        split <;> rfl
      · refine Diagram.modify_congr fun e' he' => ?_
        rw [he] at he'
        cases he'
        exact (inLine_of_master hmaster).symm

/-! ## A list of slots -/

/-- What reconciling a list of slots leaves, and what it reports on it. -/
structure Logs (c : Catalog) (slots : List Slot) (d d' : Diagram) (r : Reconciliation) : Prop where
  bound : d'.bound = d.bound
  listed : ∀ i ∈ slots, d'.get? i = (d.get? i).map (inLine c)
  others : ∀ i ∉ slots, d'.get? i = d.get? i
  /-- There is one report on every element that changes, whether or not it is listed again. -/
  reports : r.reports = (slots.eraseDups.filterMap d.get?).filterMap (reportOn? c)
  missing : r.missingMasters = (slots.filterMap d.get?).filterMap (masterless? c)

theorem logs_nil : Logs c [] d d .empty :=
  ⟨rfl, List.forall_mem_nil _, fun _ _ => rfl, rfl, rfl⟩

/-- One more slot is reconciled before the others. -/
theorem Logs.cons (h : Logs c slots (d.modify i (inLine c)) d' r) : Logs c (i :: slots) d d'
    ⟨(findings c d i).reports ++ r.reports, (findings c d i).missingMasters ++ r.missingMasters⟩ where
  bound := h.bound.trans (Diagram.bound_modify d i _)
  listed := by
    intro j hj
    by_cases hmem : j ∈ slots
    · -- a slot that comes up again is in line already
      rw [h.listed j hmem, Diagram.get?_modify]
      split
      · rw [Option.map_map]
        exact Option.map_congr fun e _ => inLine_inLine c e
      · rfl
    · obtain rfl := (List.mem_cons.mp hj).resolve_right hmem
      rw [h.others j hmem, Diagram.get?_modify, if_pos rfl]
  others := by
    intro j hj
    obtain ⟨hne, hmem⟩ := not_or.mp (List.mem_cons.not.mp hj)
    rw [h.others j hmem, Diagram.get?_modify, if_neg (Ne.symm hne)]
  reports := by
    -- the slot has nothing left to report when it comes up again, so it is as if it did not
    have hlater : slots.eraseDups.filterMap (fun j =>
        ((d.modify i (inLine c)).get? j).bind (reportOn? c)) =
        (slots.filter fun j => !j == i).eraseDups.filterMap fun j => (d.get? j).bind (reportOn? c) := by
      rw [← filter_eraseDups, List.filterMap_filter]
      refine List.filterMap_congr fun j _ => ?_
      rw [Diagram.get?_modify]
      by_cases hij : i = j
      · subst hij
        simp [Option.bind_map]
      · simp [hij, Ne.symm hij]
    dsimp only [findings]
    rw [h.reports, List.filterMap_filterMap, hlater, List.filterMap_filterMap, List.eraseDups_cons]
    exact toList_append_filterMap (fun j => (d.get? j).bind (reportOn? c)) i _
  missing := by
    -- an element does not get a master, so it is reported each time
    have hlater : slots.filterMap (fun j =>
        ((d.modify i (inLine c)).get? j).bind (masterless? c)) =
        slots.filterMap fun j => (d.get? j).bind (masterless? c) := by
      refine List.filterMap_congr fun j _ => ?_
      rw [Diagram.get?_modify]
      split
      · simp [Option.bind_map]
      · rfl
    dsimp only [findings]
    rw [h.missing, List.filterMap_filterMap, hlater, List.filterMap_filterMap]
    exact toList_append_filterMap (fun j => (d.get? j).bind (masterless? c)) i slots

/-- **Reconciling never fails, and logs what it leaves.** -/
theorem reconcile_runs (c : Catalog) (slots : List Slot) (d : Diagram) :
    ∃ r d', Edit.Runs (reconcile c slots) d r d' ∧ Logs c slots d d' r := by
  have hloop : ∃ parts d', Edit.Runs (Edit.forEach (reconcileOne c) slots) d parts d' ∧
      Logs c slots d d' ⟨parts.flatMap Reconciliation.reports,
        parts.flatMap Reconciliation.missingMasters⟩ := by
    induction slots generalizing d with
    | nil => exact ⟨[], d, Edit.runs_forEach_nil.mpr ⟨rfl, rfl⟩, logs_nil⟩
    | cons i slots ih =>
      obtain ⟨parts, d', hruns, hlogs⟩ := ih (d.modify i (inLine c))
      exact ⟨findings c d i :: parts, d',
        Edit.runs_forEach_cons.mpr ⟨_, _, parts, runs_reconcileOne c i d, hruns, rfl⟩, hlogs.cons⟩
  obtain ⟨parts, d', hruns, hlogs⟩ := hloop
  exact ⟨_, d', Edit.runs_bind.mpr ⟨parts, d', hruns, Edit.runs_pure.mpr ⟨rfl, rfl⟩⟩, hlogs⟩

/-- Every reconciliation logs what it leaves. -/
theorem logs_of_runs (h : Edit.Runs (reconcile c slots) d r d') : Logs c slots d d' r := by
  obtain ⟨r', d₁, hruns, hlogs⟩ := reconcile_runs c slots d
  obtain ⟨rfl, rfl⟩ := h.unique hruns
  exact hlogs

/-- Every change is counted. -/
theorem Logs.changeCount (h : Logs c slots d d' r) : r.changeCount =
    ((slots.eraseDups.filterMap d.get?).map fun e => (changesOf c e).length).sum := by
  rw [Reconciliation.changeCount, h.reports]
  show List.sum _ = _
  induction slots.eraseDups.filterMap d.get? with
  | nil => rfl
  | cons e found ih =>
    rw [List.filterMap_cons, List.map_cons, List.sum_cons, ← ih, reportOn?]
    split
    · rename_i hempty
      split at hempty
      · rename_i hnil
        rw [List.isEmpty_iff.mp hnil, List.length_nil, Nat.zero_add]
      · cases hempty
    · rename_i report hreport
      split at hreport
      · cases hreport
      · cases hreport
        rw [List.map_cons, List.sum_cons]

/-- **The reports of a reconciliation are a log of what was done.** The changes to an
element can be replayed one after the other on its fields, each under its condition, and
give the fields afterwards; there are none iff the fields stay the same. A list of elements
is reconciled whatever it repeats: what is not listed, not there or without a master is left
as it is, everything else ends in line with its master, and the changes counted are those
made to the listed elements, each taken once. -/
theorem reconcile_logs (c : Catalog) (slots : List Slot) (d : Diagram) :
    (∀ f master : Fields,
      (f.reconcile master).1.foldlM FieldChange.replay? f.get? = some (f.reconcile master).2.get? ∧
      ((f.reconcile master).1 = [] ↔ (f.reconcile master).2 = f) ∧
      ((f.reconcile master).1 = [] ↔ (f.reconcile master).2.get? = f.get?)) ∧
    ∃ r d', Edit.Runs (reconcile c slots) d r d' ∧ Logs c slots d d' r ∧
      (∀ i, d.get? i = none → d'.get? i = none) ∧
      (∀ i e, d.get? i = some e → i ∉ slots ∨ c.masterOf? e.role = none → d'.get? i = some e) ∧
      (∀ i ∈ slots, ∀ e master, d.get? i = some e → c.masterOf? e.role = some master →
        d'.get? i = some { e with fields := (e.fields.reconcile master.fields).2 }) ∧
      r.changeCount =
        ((slots.eraseDups.filterMap d.get?).map fun e => (changesOf c e).length).sum := by
  refine ⟨fun f master => ⟨Fields.replay_reconcile f master, Fields.reconcile_fst_eq_nil_iff, ?_⟩, ?_⟩
  · refine ⟨fun h => ?_, Fields.reconcile_fst_eq_nil⟩
    rw [Fields.reconcile_fst_eq_nil_iff.mp h]
  obtain ⟨r, d', hruns, hlogs⟩ := reconcile_runs c slots d
  refine ⟨r, d', hruns, hlogs, fun i he => ?_, fun i e he hleft => ?_,
    fun i hi e master he hmaster => ?_, hlogs.changeCount⟩
  · by_cases hi : i ∈ slots
    · rw [hlogs.listed i hi, he, Option.map_none]
    · rw [hlogs.others i hi, he]
  · by_cases hi : i ∈ slots
    · have hnone := hleft.resolve_left (not_not.mpr hi)
      rw [hlogs.listed i hi, he, Option.map_some, inLine_of_none hnone]
    · rw [hlogs.others i hi, he]
  · rw [hlogs.listed i hi, he, Option.map_some, inLine_of_master hmaster]

end Netlist.Compilation
