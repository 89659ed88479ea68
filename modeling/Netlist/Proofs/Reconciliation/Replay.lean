import Netlist.Proofs.Reconciliation.Again

/-!
# Replaying changes

The changes that reconciling reports are a log of what it did. Each of them can be read as
a step of a map from keys to values that is only possible under a condition: a value moves
from a key that is there to one that is not, a key is added that is not there, a key is
removed that holds the reported value. Replaying the changes in order on the fields before
never fails, and ends with the fields afterwards.

- `FieldChange.replay?`: the step of a change; `FieldChange.Applies`: when it is possible.
- `replay?_of_applies`: a possible step does to the map what the change does to the fields.
- `replay_reconcile`: **the changes can be replayed, and give the reconciled fields.**
- `reconcile_fst_eq_nil_iff`: **no changes are reported iff the fields stay the same.**
-/

namespace Netlist

namespace Fields

variable {f : Fields} {key stray : String}

/-! ## What is found after a change -/

theorem get?_erase (f : Fields) (key k : String) :
    (f.erase key).get? k = if k = key then none else f.get? k := by
  split
  · rename_i hk
    exact get?_eq_none_of_not_mem (by simp [keys, hk])
  · rename_i hk
    refine Option.ext fun value => ?_
    rw [get?_eq_some_iff, get?_eq_some_iff, entries_erase, List.mem_filter, bne_iff_ne]
    exact and_iff_left hk

theorem get?_rename (hkey : key ∉ f.keys) (k : String) : (f.rename stray key).get? k =
    if k = key then f.get? stray else if k = stray then none else f.get? k := by
  have hmem : ∀ value, (k, value) ∈ (f.rename stray key).entries ↔
      k = key ∧ (stray, value) ∈ f.entries ∨ k ≠ stray ∧ (k, value) ∈ f.entries := by
    intro value
    rw [entries_rename_of_not_mem hkey, List.mem_map]
    constructor
    · rintro ⟨e, he, heq⟩
      rw [relabel] at heq
      split at heq
      · rename_i hstray
        cases heq
        exact .inl ⟨rfl, hstray ▸ he⟩
      · rename_i hne
        cases heq
        exact .inr ⟨hne, he⟩
    · rintro (⟨rfl, he⟩ | ⟨hne, he⟩)
      · exact ⟨_, he, if_pos rfl⟩
      · exact ⟨_, he, if_neg hne⟩
  -- the key is new, so what stands under it afterwards is the renamed field
  have hnone : ∀ value, (key, value) ∉ f.entries := fun value he => hkey (List.mem_map_of_mem he)
  refine Option.ext fun value => ?_
  rw [get?_eq_some_iff, hmem]
  split
  · rename_i hk
    rw [hk, get?_eq_some_iff]
    simp [hnone]
  · rename_i hk
    split
    · rename_i hstray
      have hne : stray ≠ key := fun h => hk (hstray.trans h)
      simp [hstray, hne]
    · rename_i hstray
      rw [get?_eq_some_iff]
      simp [hk, hstray]

end Fields

/-! ## Steps -/

namespace FieldChange

variable {f : Fields} {change : FieldChange}

/-- What a change does to a map from keys to values; none if it is not possible. -/
def replay? (m : String → Option String) : FieldChange → Option (String → Option String)
  | .renamed source target =>
    if (m source).isSome ∧ m target = none then
      some fun k => if k = target then m source else if k = source then none else m k
    else none
  | .added key value =>
    if m key = none then some fun k => if k = key then some value else m k else none
  | .removed key value =>
    if m key = some value then some fun k => if k = key then none else m k else none

/-- When a change of some fields is possible. -/
def Applies (f : Fields) : FieldChange → Prop
  | .renamed source target => source ∈ f.keys ∧ target ∉ f.keys
  | .added key _ => key ∉ f.keys
  | .removed key value => f.get? key = some value

/-- **A change that is possible does the same to the fields and to the map they are.** -/
theorem replay?_of_applies (h : change.Applies f) :
    change.replay? f.get? = some (change.apply f).get? := by
  cases change with
  | renamed source target =>
    obtain ⟨hsource, htarget⟩ := h
    rw [replay?, if_pos ⟨Fields.get?_isSome_iff.mpr hsource, Fields.get?_eq_none_of_not_mem htarget⟩]
    exact congrArg some (funext fun k => (Fields.get?_rename htarget k).symm)
  | added key value =>
    rw [replay?, if_pos (Fields.get?_eq_none_of_not_mem h)]
    exact congrArg some (funext fun k => (Fields.get?_insert f key value k).symm)
  | removed key value =>
    have hvalue : f.get? key = some value := h
    rw [replay?, if_pos hvalue]
    exact congrArg some (funext fun k => (Fields.get?_erase f key k).symm)

end FieldChange

namespace Fields

variable {f master : Fields} {key : String} {rest : List (String × String)}

/-! ## The log of a reconciliation -/

/-- A repair is possible where its key is missing. -/
theorem applies_repair (hkey : key ∉ f.keys) (default : String) :
    (f.repair master key default).Applies f := by
  rw [repair]
  cases hstray : f.strayFor? master key with
  | none => exact hkey
  | some stray =>
    rw [strayFor?] at hstray
    split at hstray
    · cases hstray
    · exact ⟨List.mem_of_find?_eq_some hstray, hkey⟩

theorem replay_complete (master : Fields) (rest : List (String × String)) (f : Fields) :
    (complete master rest f).1.foldlM FieldChange.replay? f.get? =
      some (complete master rest f).2.get? := by
  induction rest generalizing f with
  | nil => rfl
  | cons e rest ih =>
    obtain ⟨key, default⟩ := e
    rw [complete]
    split
    · exact ih f
    · -- a repair is made where its key is missing, which is what makes it possible
      rename_i hkey
      rw [contains_iff_mem_keys] at hkey
      dsimp only
      rw [List.foldlM_cons, FieldChange.replay?_of_applies (applies_repair hkey default)]
      exact ih _

/-- Removing fields one after the other, each with the value it has. -/
theorem replay_removals {removals : List (String × String)}
    (hnodup : (removals.map Prod.fst).Nodup) (hmem : ∀ e ∈ removals, e ∈ f.entries) :
    (removals.map fun e => FieldChange.removed e.1 e.2).foldlM FieldChange.replay? f.get? =
      some ((removals.map fun e => FieldChange.removed e.1 e.2).foldl FieldChange.apply f).get? := by
  induction removals generalizing f with
  | nil => rfl
  | cons e removals ih =>
    obtain ⟨hhead, hmem⟩ := List.forall_mem_cons.mp hmem
    obtain ⟨hnot, hnodup⟩ := List.nodup_cons.mp hnodup
    have happlies : (FieldChange.removed e.1 e.2).Applies f := get?_eq_some_iff.mpr hhead
    rw [List.map_cons, List.foldlM_cons, List.foldl_cons, FieldChange.replay?_of_applies happlies]
    -- no key is removed twice, so the fields still to go are there with their values
    refine ih hnodup fun e' he' => List.mem_filter.mpr ⟨hmem e' he', ?_⟩
    rw [bne_iff_ne]
    exact ne_of_mem_of_not_mem (List.mem_map_of_mem he') hnot

/-- **The changes can be replayed in order on the fields before, and give the fields
afterwards.** -/
theorem replay_reconcile (f master : Fields) :
    (f.reconcile master).1.foldlM FieldChange.replay? f.get? = some (f.reconcile master).2.get? := by
  rw [reconcile]
  dsimp only
  rw [List.foldlM_append, replay_complete]
  refine replay_removals ?_ fun e he => (List.mem_filter.mp he).1
  exact List.Nodup.sublist (List.Sublist.map _ List.filter_sublist)
    (complete master master.entries f).2.nodup_keys

/-! ## An empty log -/

theorem complete_of_fst_eq_nil (h : (complete master rest f).1 = []) :
    (complete master rest f).2 = f := by
  induction rest with
  | nil => rfl
  | cons e rest ih =>
    rw [complete] at h ⊢
    split
    · rename_i hkey
      rw [if_pos hkey] at h
      exact ih h
    · rename_i hkey
      rw [if_neg hkey] at h
      cases h

/-- Whether fields fit a master depends on their keys alone. -/
theorem Fits.congr {g : Fields} (h : g.Fits master) (hsame : g.get? = f.get?) : f.Fits master := by
  have hkeys : ∀ k, k ∈ f.keys ↔ k ∈ g.keys := fun k => by
    rw [← get?_isSome_iff, ← get?_isSome_iff, hsame]
  constructor
  · exact fun e he => (hkeys e.1).mpr (h.complete e he)
  · intro e he
    obtain ⟨e', he', hfst⟩ := List.mem_map.mp ((hkeys e.1).mp (List.mem_map_of_mem he))
    exact hfst ▸ h.clean e' he'

/-- No changes are reported if all keys keep their values, whatever becomes of the order. -/
theorem reconcile_fst_eq_nil (h : (f.reconcile master).2.get? = f.get?) :
    (f.reconcile master).1 = [] := by
  rw [reconcile_of_fits ((fits_reconcile f master).congr h)]

/-- **No changes are reported iff the fields stay the same.** -/
theorem reconcile_fst_eq_nil_iff : (f.reconcile master).1 = [] ↔ (f.reconcile master).2 = f := by
  constructor
  · intro h
    rw [reconcile] at h ⊢
    obtain ⟨hcomplete, hremovals⟩ := List.append_eq_nil_iff.mp h
    dsimp only
    rw [hremovals]
    exact complete_of_fst_eq_nil hcomplete
  · exact fun h => reconcile_fst_eq_nil (congrArg get? h)

end Fields

end Netlist
