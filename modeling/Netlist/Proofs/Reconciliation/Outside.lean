import Netlist.Proofs.Fields
import Netlist.Reconciliation

/-!
# Fields outside of what is written

Reconciling with a master writes positional fields and the fields of the master. All
other fields stay as they are, in their order.

- `outside`: the entries whose keys are not among those that may be written.
- `outside_insert`, `outside_erase`, `outside_rename`: one operation on a key that may be
  written; `outside_apply`: one change.
- `outside_reconcile`: **reconciling leaves all other fields in place.**
-/

namespace Netlist

/-- A change that writes no other keys than those that pass. -/
def FieldChange.Within (p : String → Bool) : FieldChange → Prop
  | .renamed source target => p source = true ∧ p target = true
  | .added key _ => p key = true
  | .removed key _ => p key = true

namespace Fields

variable {p : String → Bool} {f master : Fields} {key : String}

/-- The entries whose keys do not pass, in order. -/
def outside (p : String → Bool) (f : Fields) : List (String × String) :=
  f.entries.filter fun e => !p e.1

/-! ## Operations -/

/-- Entries whose keys pass may be rewritten, as long as their keys still pass. -/
theorem filter_map_outside {g : String × String → String × String}
    (hkept : ∀ e, p e.1 = false → g e = e) (hpass : ∀ e, p e.1 = true → p (g e).1 = true)
    (es : List (String × String)) :
    (es.map g).filter (fun e => !p e.1) = es.filter fun e => !p e.1 := by
  induction es with
  | nil => rfl
  | cons e es ih =>
    rw [List.map_cons]
    cases he : p e.1 with
    | true =>
      rw [List.filter_cons_of_neg (by simp [hpass e he]), List.filter_cons_of_neg (by simp [he]), ih]
    | false =>
      rw [hkept e he, List.filter_cons_of_pos (by simp [he]),
        List.filter_cons_of_pos (by simp [he]), ih]

theorem outside_insert (h : p key = true) (value : String) :
    (f.insert key value).outside p = f.outside p := by
  by_cases hkey : key ∈ f.keys
  · have hmem : key ∈ f.entries.map Prod.fst := hkey
    rw [outside, insert, dif_pos hmem]
    refine filter_map_outside (fun e he => ?_) (fun e he => ?_) f.entries
    · rw [overwrite, if_neg]
      rintro rfl
      rw [h] at he
      cases he
    · rw [overwrite]
      split
      · exact h
      · exact he
  · rw [outside, entries_insert_of_not_mem hkey, List.filter_append,
      List.filter_cons_of_neg (by simp [h]), List.filter_nil, List.append_nil, outside]

theorem outside_erase (h : p key = true) : (f.erase key).outside p = f.outside p := by
  rw [outside, entries_erase, List.filter_filter, outside]
  refine List.filter_congr fun e _ => ?_
  cases he : p e.1 with
  | true => simp
  | false =>
    have hne : e.1 ≠ key := by
      rintro rfl
      rw [h] at he
      cases he
    simp [hne]

theorem outside_rename {source : String} (hsource : p source = true) (h : p key = true) :
    (f.rename source key).outside p = f.outside p := by
  by_cases hkey : key ∈ f.keys
  · have hmem : key ∈ f.entries.map Prod.fst := hkey
    rw [rename, dif_pos hmem]
  · rw [outside, entries_rename_of_not_mem hkey]
    refine filter_map_outside (fun e he => ?_) (fun e he => ?_) f.entries
    · rw [relabel, if_neg]
      rintro rfl
      rw [hsource] at he
      cases he
    · rw [relabel]
      split
      · exact h
      · exact he

/-- **A change leaves the fields that it does not write.** -/
theorem outside_apply {change : FieldChange} (h : change.Within p) :
    (change.apply f).outside p = f.outside p := by
  cases change with
  | renamed source target => exact outside_rename h.1 h.2
  | added key value => exact outside_insert h value
  | removed key value => exact outside_erase h

/-! ## Reconciling -/

/-- The key of a missing field comes from the master, and its value from a stray field. -/
theorem within_repair (hstray : ∀ k, isStray master k = true → p k = true) (h : p key = true)
    (default : String) : (f.repair master key default).Within p := by
  rw [repair]
  cases hfound : f.strayFor? master key with
  | none => exact h
  | some stray =>
    rw [strayFor?] at hfound
    split at hfound
    · cases hfound
    · have hpass := List.find?_some hfound
      rw [Bool.and_eq_true] at hpass
      exact ⟨hstray stray hpass.1, h⟩

theorem outside_complete {rest : List (String × String)}
    (hstray : ∀ k, isStray master k = true → p k = true) (hrest : ∀ e ∈ rest, p e.1 = true) :
    (complete master rest f).2.outside p = f.outside p := by
  induction rest generalizing f with
  | nil => rfl
  | cons e rest ih =>
    obtain ⟨he, hrest⟩ := List.forall_mem_cons.mp hrest
    rw [complete]
    split
    · exact ih hrest
    · exact (ih hrest).trans (outside_apply (within_repair hstray he e.2))

/-- The strays that are dropped are no other fields. -/
theorem outside_foldl_apply {changes : List FieldChange} (h : ∀ change ∈ changes, change.Within p) :
    (changes.foldl FieldChange.apply f).outside p = f.outside p := by
  induction changes generalizing f with
  | nil => rfl
  | cons change changes ih =>
    obtain ⟨hchange, h⟩ := List.forall_mem_cons.mp h
    rw [List.foldl_cons, ih h, outside_apply hchange]

/-- **Reconciling leaves all fields in place** that are neither positional nor fields of the
master. -/
theorem outside_reconcile (hpositional : ∀ k, FieldKey.isPositional k = true → p k = true)
    (hmaster : ∀ k, master.contains k = true → p k = true) :
    (f.reconcile master).2.outside p = f.outside p := by
  have hstray : ∀ k, isStray master k = true → p k = true := by
    intro k hk
    rw [isStray, Bool.and_eq_true] at hk
    exact hpositional k hk.1
  rw [reconcile]
  refine (outside_foldl_apply fun change hchange => ?_).trans (outside_complete hstray fun e he => ?_)
  · obtain ⟨e, he, rfl⟩ := List.mem_map.mp hchange
    exact hstray e.1 (List.mem_filter.mp he).2
  · exact hmaster e.1 (contains_iff_mem_keys.mpr (List.mem_map_of_mem he))

end Fields

end Netlist
