import Netlist.Proofs.Fields
import Netlist.Reconciliation

/-!
# Reconciling twice

Fields that were reconciled with a master have all its keys and no stray ones, so there
is nothing to change when they are reconciled with it again.

- `mem_keys_complete`: completing gives fields to the listed keys, and takes none from
  the other keys of the master.
- `Fits`: fields that a master has nothing to say about.
- `reconcile_reconcile`: **reconciling again changes nothing.**
-/

namespace Netlist.Fields

variable {f master : Fields} {key stray : String} {rest : List (String × String)}

theorem isStray_of_mem {k : String} (h : k ∈ master.keys) : isStray master k = false := by
  rw [isStray, contains_iff_mem_keys.mpr h, Bool.not_true, Bool.and_false]

/-! ## Keys after a change -/

theorem mem_keys_insert {value k : String} :
    k ∈ (f.insert key value).keys ↔ k = key ∨ k ∈ f.keys := by
  rw [← get?_isSome_iff, ← get?_isSome_iff, get?_insert]
  by_cases hk : k = key
  · simp [hk]
  · simp [hk]

theorem mem_keys_rename (hkey : key ∉ f.keys) (hstray : stray ∈ f.keys) {k : String} :
    k ∈ (f.rename stray key).keys ↔ k = key ∨ k ∈ f.keys ∧ k ≠ stray := by
  rw [keys, entries_rename_of_not_mem hkey, List.map_map, List.mem_map]
  constructor
  · rintro ⟨e, he, rfl⟩
    rw [Function.comp_apply, relabel]
    split
    · exact .inl rfl
    · exact .inr ⟨List.mem_map_of_mem he, by assumption⟩
  · rintro (rfl | ⟨hk, hne⟩)
    · obtain ⟨e, he, hfst⟩ := List.mem_map.mp hstray
      exact ⟨e, he, by rw [Function.comp_apply, relabel, if_pos hfst]⟩
    · obtain ⟨e, he, rfl⟩ := List.mem_map.mp hk
      exact ⟨e, he, by rw [Function.comp_apply, relabel, if_neg hne]⟩

/-- A repair gives the missing key a field, and takes none from a key of the master. -/
theorem mem_keys_repair (hkey : key ∉ f.keys) {default k : String}
    (hk : k = key ∨ k ∈ f.keys ∧ k ∈ master.keys) :
    k ∈ ((f.repair master key default).apply f).keys := by
  rw [repair]
  cases hstray : f.strayFor? master key with
  | none =>
    rw [FieldChange.apply, mem_keys_insert]
    exact hk.imp id And.left
  | some stray =>
    rw [strayFor?] at hstray
    split at hstray
    · cases hstray
    · have hmem := List.mem_of_find?_eq_some hstray
      have hfound := List.find?_some hstray
      rw [Bool.and_eq_true, isStray, Bool.and_eq_true, Bool.not_eq_true'] at hfound
      rw [FieldChange.apply, mem_keys_rename hkey hmem]
      refine hk.imp id fun ⟨hk, hmaster⟩ => ⟨hk, ?_⟩
      -- What is renamed is no key of the master.
      rintro rfl
      rw [contains_iff_mem_keys.mpr hmaster] at hfound
      cases hfound.1.2

/-! ## Completing -/

/-- **Completing gives fields to the listed keys**, and takes none from the other keys of
the master. -/
theorem mem_keys_complete (hrest : ∀ e ∈ rest, e.1 ∈ master.keys) {k : String}
    (hk : k ∈ rest.map Prod.fst ∨ k ∈ f.keys ∧ k ∈ master.keys) :
    k ∈ (complete master rest f).2.keys := by
  induction rest generalizing f with
  | nil => exact (hk.resolve_left List.not_mem_nil).1
  | cons e rest ih =>
    obtain ⟨key, default⟩ := e
    obtain ⟨hkey, hrest⟩ := List.forall_mem_cons.mp hrest
    rw [complete]
    by_cases hmem : key ∈ f.keys
    · rw [if_pos (contains_iff_mem_keys.mpr hmem)]
      refine ih hrest ?_
      rcases hk with hk | hk
      · rcases List.mem_cons.mp hk with rfl | hk
        · exact .inr ⟨hmem, hkey⟩
        · exact .inl hk
      · exact .inr hk
    · rw [if_neg fun hcontains => hmem (contains_iff_mem_keys.mp hcontains)]
      refine ih hrest ?_
      rcases hk with hk | hk
      · rcases List.mem_cons.mp hk with rfl | hk
        · exact .inr ⟨mem_keys_repair hmem (.inl rfl), hkey⟩
        · exact .inl hk
      · exact .inr ⟨mem_keys_repair hmem (.inr hk), hk.2⟩

theorem complete_of_contains (h : ∀ e ∈ rest, e.1 ∈ f.keys) : complete master rest f = ([], f) := by
  induction rest with
  | nil => rfl
  | cons e rest ih =>
    obtain ⟨hkey, hrest⟩ := List.forall_mem_cons.mp h
    rw [complete, if_pos (contains_iff_mem_keys.mpr hkey), ih hrest]

/-! ## Dropping -/

theorem entries_foldl_removed (removals : List (String × String)) (f : Fields) :
    ((removals.map fun e => FieldChange.removed e.1 e.2).foldl FieldChange.apply f).entries =
      f.entries.filter fun e => !(removals.map Prod.fst).contains e.1 := by
  induction removals generalizing f with
  | nil => exact (List.filter_eq_self.mpr fun _ _ => rfl).symm
  | cons e removals ih =>
    rw [List.map_cons, List.foldl_cons, ih, FieldChange.apply, entries_erase, List.filter_filter]
    refine List.filter_congr fun e' _ => ?_
    rw [List.map_cons, List.contains_cons, Bool.not_or, Bool.and_comm]
    rfl

/-- Fields that have all keys of a master and no stray ones. -/
structure Fits (f master : Fields) : Prop where
  complete : ∀ e ∈ master.entries, e.1 ∈ f.keys
  clean : ∀ e ∈ f.entries, isStray master e.1 = false

/-- **Reconciling** completes the fields and drops the ones that are still stray. -/
theorem entries_reconcile_eq_filter (f master : Fields) : (f.reconcile master).2.entries =
    (complete master master.entries f).2.entries.filter fun e => !isStray master e.1 := by
  have hfoldl : (f.reconcile master).2.entries =
      (complete master master.entries f).2.entries.filter fun e =>
        !(((complete master master.entries f).2.entries.filter fun e => isStray master e.1).map
          Prod.fst).contains e.1 := entries_foldl_removed _ _
  rw [hfoldl]
  refine List.filter_congr fun e he => congrArg not ?_
  rw [Bool.eq_iff_iff, List.contains_iff_mem, List.mem_map]
  constructor
  · rintro ⟨e', he', hfst⟩
    exact hfst ▸ (List.mem_filter.mp he').2
  · exact fun hstray => ⟨e, List.mem_filter.mpr ⟨he, hstray⟩, rfl⟩

theorem fits_reconcile (f master : Fields) : (f.reconcile master).2.Fits master := by
  constructor
  · intro e he
    have hmaster : e.1 ∈ master.keys := List.mem_map_of_mem he
    obtain ⟨e', he', hfst⟩ := List.mem_map.mp (mem_keys_complete (f := f)
      (fun e he => List.mem_map_of_mem he) (.inl hmaster))
    rw [keys, entries_reconcile_eq_filter, List.mem_map]
    refine ⟨e', List.mem_filter.mpr ⟨he', ?_⟩, hfst⟩
    rw [hfst, isStray_of_mem hmaster, Bool.not_false]
  · intro e he
    rw [entries_reconcile_eq_filter, List.mem_filter, Bool.not_eq_true'] at he
    exact he.2

theorem reconcile_of_fits (h : f.Fits master) : f.reconcile master = ([], f) := by
  have hnone : f.strayRemovals master = [] := by
    rw [strayRemovals, List.map_eq_nil_iff, List.filter_eq_nil_iff]
    intro e he
    rw [h.clean e he]
    exact Bool.false_ne_true
  rw [reconcile, complete_of_contains h.complete]
  dsimp only
  rw [hnone]
  rfl

/-- **Reconciling again changes nothing.** -/
theorem reconcile_reconcile (f master : Fields) :
    (f.reconcile master).2.reconcile master = ([], (f.reconcile master).2) :=
  reconcile_of_fits (fits_reconcile f master)

end Netlist.Fields
