import Mathlib
import Netlist.Fields

/-!
# Reading fields back

What is found under a key after a field was set.

- `get?_insert`: the field that was set has the new value, all others are as before.
- `get?_isSome_iff`: a key is found iff it is one of the keys.
- `get?_eq_some_iff`: what is found are the entries.
- `insert_of_get?`: setting a field to the value it has changes nothing.
-/

namespace Netlist.Fields

/-- A key is found iff it is one of the keys. -/
theorem get?_isSome_iff {f : Fields} {key : String} : (f.get? key).isSome = true ↔ key ∈ f.keys := by
  rw [get?, Option.isSome_map, List.find?_isSome, keys, List.mem_map]
  constructor
  · rintro ⟨e, he, hkey⟩
    exact ⟨e, he, beq_iff_eq.mp hkey⟩
  · rintro ⟨e, he, rfl⟩
    exact ⟨e, he, beq_self_eq_true _⟩

theorem get?_eq_none_of_not_mem {f : Fields} {key : String} (h : key ∉ f.keys) :
    f.get? key = none := by
  rw [← Option.not_isSome_iff_eq_none, get?_isSome_iff]
  exact h

/-- What is found under a key is an entry, and every entry is found. -/
theorem get?_eq_some_iff {f : Fields} {key value : String} :
    f.get? key = some value ↔ (key, value) ∈ f.entries := by
  rw [get?, Option.map_eq_some_iff]
  constructor
  · rintro ⟨e, hfind, rfl⟩
    have hkey := List.find?_some hfind
    rw [beq_iff_eq] at hkey
    exact hkey ▸ List.mem_of_find?_eq_some hfind
  · intro hmem
    obtain ⟨e, hfind⟩ := Option.isSome_iff_exists.mp
      (List.find?_isSome (p := fun e => e.1 == key) |>.mpr ⟨_, hmem, beq_self_eq_true key⟩)
    have hkey := List.find?_some hfind
    rw [beq_iff_eq] at hkey
    have hsame := List.inj_on_of_nodup_map f.nodup_keys (List.mem_of_find?_eq_some hfind) hmem hkey
    exact ⟨e, hfind, by rw [hsame]⟩

/-- Overwriting one key in a list of entries. -/
theorem find?_map_overwrite (key value k : String) (es : List (String × String)) :
    ((es.map (overwrite key value)).find? fun e => e.1 == k).map Prod.snd =
      if k = key ∧ key ∈ es.map Prod.fst then some value
      else (es.find? fun e => e.1 == k).map Prod.snd := by
  induction es with
  | nil => simp
  | cons e es ih =>
    have hfst : (overwrite key value e).1 = e.1 := by
      rw [overwrite]
      split
      · rename_i h
        exact h.symm
      · rfl
    rw [List.map_cons]
    by_cases hk : e.1 = k
    · rw [List.find?_cons_of_pos (by rw [hfst, hk]; exact beq_self_eq_true _),
        List.find?_cons_of_pos (by rw [hk]; exact beq_self_eq_true _), Option.map_some,
        Option.map_some]
      by_cases hkey : e.1 = key
      · rw [if_pos ⟨hk.symm.trans hkey, by simp [hkey]⟩, overwrite, if_pos hkey]
      · rw [if_neg fun h => hkey (hk.trans h.1), overwrite, if_neg hkey]
    · rw [List.find?_cons_of_neg (by rw [hfst]; simpa using hk),
        List.find?_cons_of_neg (by simpa using hk), ih, List.map_cons]
      by_cases hkey : k = key
      · subst hkey
        by_cases hmem : k ∈ es.map Prod.fst
        · rw [if_pos ⟨rfl, hmem⟩, if_pos ⟨rfl, List.mem_cons_of_mem _ hmem⟩]
        · rw [if_neg fun h => hmem h.2,
            if_neg fun h => hmem ((List.mem_cons.mp h.2).resolve_left (Ne.symm hk))]
      · rw [if_neg fun h => hkey h.1, if_neg fun h => hkey h.1]

/-- **What is found after a field was set.** -/
theorem get?_insert (f : Fields) (key value k : String) :
    (f.insert key value).get? k = if k = key then some value else f.get? k := by
  by_cases h : key ∈ f.entries.map Prod.fst
  · have hoverwrite := find?_map_overwrite key value k f.entries
    rw [insert, dif_pos h, get?, get?]
    simpa only [h, and_true] using hoverwrite
  · have hentries : (f.insert key value).entries = f.entries ++ [(key, value)] :=
      entries_insert_of_not_mem h
    rw [get?, hentries, List.find?_append]
    by_cases hk : k = key
    · subst hk
      have hnone := get?_eq_none_of_not_mem h
      rw [get?, Option.map_eq_none_iff] at hnone
      rw [hnone, if_pos rfl]
      simp
    · rw [if_neg hk, get?]
      simp [Ne.symm hk]

@[simp] theorem get?_insert_self (f : Fields) (key value : String) :
    (f.insert key value).get? key = some value := by
  rw [get?_insert, if_pos rfl]

theorem get?_insert_of_ne {f : Fields} {key value k : String} (h : k ≠ key) :
    (f.insert key value).get? k = f.get? k := by
  rw [get?_insert, if_neg h]

/-- Setting a field to the value it has changes nothing. -/
theorem insert_of_get? {f : Fields} {key value : String} (h : f.get? key = some value) :
    f.insert key value = f := by
  have hmem : key ∈ f.entries.map Prod.fst := by
    rw [← keys, ← get?_isSome_iff, h]
    rfl
  obtain ⟨⟨key', value'⟩, hfind, rfl⟩ := Option.map_eq_some_iff.mp h
  have hkey := List.find?_some hfind
  rw [beq_iff_eq] at hkey
  subst hkey
  have hentry := List.mem_of_find?_eq_some hfind
  obtain ⟨entries, hnodup⟩ := f
  rw [insert, dif_pos hmem]
  congr 1
  refine (List.map_congr_left fun e he => ?_).trans (List.map_id entries)
  rw [overwrite]
  split
  · rename_i hkey
    exact (List.inj_on_of_nodup_map hnodup he hentry hkey).symm
  · rfl

theorem get?_foldl_insert_of_not_mem {pairs : List (String × String)} {key : String}
    (h : key ∉ pairs.map Prod.fst) (f : Fields) :
    (pairs.foldl (fun f e => f.insert e.1 e.2) f).get? key = f.get? key := by
  induction pairs generalizing f with
  | nil => rfl
  | cons pair pairs ih =>
    rw [List.map_cons, List.mem_cons, not_or] at h
    rw [List.foldl_cons, ih h.2, get?_insert_of_ne h.1]

/-- Fields from pairs have the values of the pairs, if no key is repeated. -/
theorem get?_ofList_of_mem {pairs : List (String × String)} {key value : String}
    (hnodup : (pairs.map Prod.fst).Nodup) (h : (key, value) ∈ pairs) :
    (ofList pairs).get? key = some value := by
  rw [ofList]
  generalize empty = f
  induction pairs generalizing f with
  | nil => cases h
  | cons pair pairs ih =>
    obtain ⟨hnot, hnodup⟩ := List.nodup_cons.mp hnodup
    rw [List.foldl_cons]
    rcases List.mem_cons.mp h with rfl | h
    · rw [get?_foldl_insert_of_not_mem hnot, get?_insert_self]
    · exact ih hnodup h _

end Netlist.Fields
