import Netlist.Proofs.Lists
import Netlist.Proofs.Reconciliation.Again
import Netlist.Proofs.Reconciliation.Outside

/-!
# Which field goes where

A missing key of the master takes over the first stray field with its tail. One key is
completed after the other, and each one uses a stray field up, so of the missing keys and
the stray fields with the same tail the first goes to the first, the second to the second,
until there are no more keys or no more fields. Missing keys that get no field this way are
added at the end; fields that get no key are dropped.

- `straysWith`, `lackingWith`: the stray fields and the missing keys with a tail, in order.
- `takerOf?`, `sourceOf?`: the key that takes over a field, and the field that a key takes
  over.
- `entries_complete`, `entries_reconcile`: the entries after completing and after reconciling,
  in terms of the fields before.
- `reconcile_assigns`: **the fields have the keys of the master afterwards, and every value is
  where its key or tail says.**
-/

namespace Netlist

namespace Fields

variable {f master : Fields} {key stray tail default k : String} {rest : List (String × String)}

/-! ## Fields and keys with the same tail -/

/-- The stray keys with a tail, in the order of the fields. -/
def straysWith (f master : Fields) (tail : String) : List String :=
  f.keys.filter fun k => isStray master k && FieldKey.tail? k == some tail

/-- The keys with a tail that are missing of some entries of a master, in their order. -/
def lackingWith (f : Fields) (rest : List (String × String)) (tail : String) : List String :=
  (rest.map Prod.fst).filter fun k => !f.contains k && FieldKey.tail? k == some tail

/-- The stray fields with a tail, each with the missing key that takes it over: the first with
the first, the second with the second. -/
def pairsWith (f master : Fields) (rest : List (String × String)) (tail : String) :
    List (String × String) :=
  (f.straysWith master tail).zip (f.lackingWith rest tail)

/-- The missing key that takes over a stray field. -/
def takerOf? (f master : Fields) (rest : List (String × String)) (stray : String) : Option String :=
  (FieldKey.tail? stray).bind fun tail => (f.pairsWith master rest tail).lookup stray

/-- The stray field that a missing key takes over. -/
def sourceOf? (f master : Fields) (rest : List (String × String)) (key : String) : Option String :=
  (FieldKey.tail? key).bind fun tail => ((f.pairsWith master rest tail).map Prod.swap).lookup key

/-- Whether a missing key takes over no field. -/
def isNew (f master : Fields) (rest : List (String × String)) (key : String) : Bool :=
  !f.contains key && (f.sourceOf? master rest key).isNone

theorem mem_straysWith : k ∈ f.straysWith master tail ↔
    k ∈ f.keys ∧ isStray master k = true ∧ FieldKey.tail? k = some tail := by
  rw [straysWith, List.mem_filter, Bool.and_eq_true, beq_iff_eq]

theorem mem_lackingWith : k ∈ f.lackingWith rest tail ↔
    k ∈ rest.map Prod.fst ∧ k ∉ f.keys ∧ FieldKey.tail? k = some tail := by
  rw [lackingWith, List.mem_filter, Bool.and_eq_true, beq_iff_eq, Bool.not_eq_true',
    ← Bool.not_eq_true, contains_iff_mem_keys]

theorem nodup_straysWith (f master : Fields) (tail : String) : (f.straysWith master tail).Nodup :=
  f.nodup_keys.filter _

theorem nodup_lackingWith (hnodup : (rest.map Prod.fst).Nodup) (tail : String) :
    (f.lackingWith rest tail).Nodup := hnodup.filter _

/-- What takes over a field is a missing key with the same tail. -/
theorem mem_of_takerOf? (h : f.takerOf? master rest stray = some key) :
    ∃ tail, stray ∈ f.straysWith master tail ∧ key ∈ f.lackingWith rest tail := by
  obtain ⟨tail, -, h⟩ := Option.bind_eq_some_iff.mp h
  exact ⟨tail, mem_of_lookup_zip h⟩

theorem mem_of_sourceOf? (h : f.sourceOf? master rest key = some stray) :
    ∃ tail, key ∈ f.lackingWith rest tail ∧ stray ∈ f.straysWith master tail := by
  obtain ⟨tail, -, h⟩ := Option.bind_eq_some_iff.mp h
  rw [pairsWith, List.zip_swap] at h
  exact ⟨tail, mem_of_lookup_zip h⟩

/-- Only stray fields are taken over. -/
theorem takerOf?_of_not_stray (h : isStray master k = false) : f.takerOf? master rest k = none := by
  cases htaker : f.takerOf? master rest k with
  | none => rfl
  | some key =>
    obtain ⟨tail, hmem, -⟩ := mem_of_takerOf? htaker
    rw [(mem_straysWith.mp hmem).2.1] at h
    cases h

/-- Only missing keys take over a field. -/
theorem sourceOf?_of_not_mem (h : k ∉ rest.map Prod.fst) : f.sourceOf? master rest k = none := by
  cases hsource : f.sourceOf? master rest k with
  | none => rfl
  | some stray =>
    obtain ⟨tail, hmem, -⟩ := mem_of_sourceOf? hsource
    exact absurd (mem_lackingWith.mp hmem).1 h

/-- The stray field that a repair uses is the first with the tail of the key. -/
theorem strayFor?_eq : f.strayFor? master key =
    (FieldKey.tail? key).bind fun tail => (f.straysWith master tail).head? := by
  rw [strayFor?]
  cases FieldKey.tail? key with
  | none => rfl
  | some tail => rw [Option.bind_some, straysWith, List.head?_filter]

/-! ## One key -/

theorem lackingWith_cons_of_mem (h : key ∈ f.keys) :
    f.lackingWith ((key, default) :: rest) tail = f.lackingWith rest tail := by
  rw [lackingWith, List.map_cons, List.filter_cons_of_neg, lackingWith]
  simp [contains_iff_mem_keys.mpr h]

theorem lackingWith_cons (h : key ∉ f.keys) : f.lackingWith ((key, default) :: rest) tail =
    if FieldKey.tail? key = some tail then key :: f.lackingWith rest tail
    else f.lackingWith rest tail := by
  rw [lackingWith, List.map_cons, List.filter_cons, lackingWith]
  have hnot : f.contains key = false := by
    rw [← Bool.not_eq_true, contains_iff_mem_keys]
    exact h
  simp [hnot]

theorem contains_insert_of_ne (h : k ≠ key) (value : String) :
    (f.insert key value).contains k = f.contains k := by
  rw [Bool.eq_iff_iff, contains_iff_mem_keys, contains_iff_mem_keys, mem_keys_insert]
  exact or_iff_right h

theorem contains_rename_of_ne (hkey : key ∉ f.keys) (hstray : stray ∈ f.keys) (h : k ≠ key)
    (h' : k ≠ stray) : (f.rename stray key).contains k = f.contains k := by
  rw [Bool.eq_iff_iff, contains_iff_mem_keys, contains_iff_mem_keys, mem_keys_rename hkey hstray,
    or_iff_right h, and_iff_left h']

/-- Adding a key of the master brings no stray field. -/
theorem straysWith_insert (hmaster : key ∈ master.keys) (hkey : key ∉ f.keys) (value : String) :
    (f.insert key value).straysWith master tail = f.straysWith master tail := by
  rw [straysWith, keys, entries_insert_of_not_mem hkey, List.map_append, List.filter_append,
    List.map_singleton, List.filter_cons_of_neg (by simp [isStray_of_mem hmaster]), List.filter_nil,
    List.append_nil]
  rfl

theorem lackingWith_insert (hrest : key ∉ rest.map Prod.fst) (value : String) :
    (f.insert key value).lackingWith rest tail = f.lackingWith rest tail := by
  rw [lackingWith, lackingWith]
  refine List.filter_congr fun k hk => ?_
  rw [contains_insert_of_ne (ne_of_mem_of_not_mem hk hrest)]

/-- Renaming a stray field to a key of the master uses it up. -/
theorem straysWith_rename (hmaster : key ∈ master.keys) (hkey : key ∉ f.keys) :
    (f.rename stray key).straysWith master tail =
      (f.straysWith master tail).filter (· != stray) := by
  rw [straysWith, keys, entries_rename_of_not_mem hkey, straysWith, keys]
  induction f.entries with
  | nil => rfl
  | cons e es ih =>
    rw [List.map_cons, List.map_cons, List.map_cons]
    by_cases he : e.1 = stray
    · rw [List.filter_cons_of_neg (by simp [relabel, he, isStray_of_mem hmaster]), ih,
        List.filter_cons]
      split
      · rw [List.filter_cons_of_neg (by simp [he])]
      · rfl
    · rw [relabel, if_neg he, List.filter_cons, List.filter_cons, ih]
      split
      · rw [List.filter_cons_of_pos (by simp [he])]
      · rfl

theorem lackingWith_rename (hkey : key ∉ f.keys) (hstray : stray ∈ f.keys)
    (hrest : key ∉ rest.map Prod.fst) (hrest' : stray ∉ rest.map Prod.fst) :
    (f.rename stray key).lackingWith rest tail = f.lackingWith rest tail := by
  rw [lackingWith, lackingWith]
  refine List.filter_congr fun k hk => ?_
  rw [contains_rename_of_ne hkey hstray (ne_of_mem_of_not_mem hk hrest)
    (ne_of_mem_of_not_mem hk hrest')]

/-- A key finds no stray field if there is none with its tail. -/
theorem straysWith_eq_nil (h : f.strayFor? master key = none)
    (htail : FieldKey.tail? key = some tail) : f.straysWith master tail = [] := by
  rw [strayFor?_eq, htail, Option.bind_some] at h
  exact List.head?_eq_none_iff.mp h

/-- The stray field that a key finds is the first one with its tail; the others are left. -/
theorem straysWith_eq_cons (hmaster : key ∈ master.keys) (hkey : key ∉ f.keys)
    (h : f.strayFor? master key = some stray) : ∃ tail, FieldKey.tail? key = some tail ∧
      f.straysWith master tail = stray :: (f.rename stray key).straysWith master tail := by
  rw [strayFor?_eq] at h
  obtain ⟨tail, htail, hhead⟩ := Option.bind_eq_some_iff.mp h
  obtain ⟨strays, hstrays⟩ := List.head?_eq_some_iff.mp hhead
  refine ⟨tail, htail, ?_⟩
  have hnot := (List.nodup_cons.mp (hstrays ▸ nodup_straysWith f master tail)).1
  rw [straysWith_rename hmaster hkey, hstrays, List.filter_cons_of_neg (by simp)]
  rw [List.filter_eq_self.mpr fun k hk => bne_iff_ne.mpr (ne_of_mem_of_not_mem hk hnot)]

/-- The stray fields with other tails are left as well. -/
theorem straysWith_rename_of_ne (hmaster : key ∈ master.keys) (hkey : key ∉ f.keys)
    (h : FieldKey.tail? stray ≠ some tail) :
    (f.rename stray key).straysWith master tail = f.straysWith master tail := by
  rw [straysWith_rename hmaster hkey, List.filter_eq_self]
  rintro k hk
  rw [bne_iff_ne]
  rintro rfl
  exact h (mem_straysWith.mp hk).2.2

/-! ### Pairs -/

theorem pairsWith_cons_of_mem (h : key ∈ f.keys) :
    f.pairsWith master ((key, default) :: rest) = f.pairsWith master rest := by
  funext tail
  rw [pairsWith, lackingWith_cons_of_mem h, pairsWith]

/-- A key that finds no stray field takes nothing from the keys after it. -/
theorem pairsWith_insert (hmaster : key ∈ master.keys) (hkey : key ∉ f.keys)
    (hrest : key ∉ rest.map Prod.fst) (h : f.strayFor? master key = none) :
    f.pairsWith master ((key, default) :: rest) = (f.insert key default).pairsWith master rest := by
  funext tail
  rw [pairsWith, pairsWith, straysWith_insert hmaster hkey, lackingWith_insert hrest,
    lackingWith_cons hkey]
  split
  · rename_i htail
    rw [straysWith_eq_nil h htail]
    rfl
  · rfl

/-- A key takes over the stray field that it finds; the others go where they went. -/
theorem pairsWith_rename (hmaster : key ∈ master.keys) (hkey : key ∉ f.keys)
    (hrest : key ∉ rest.map Prod.fst) (hsub : ∀ e ∈ rest, e.1 ∈ master.keys)
    (h : f.strayFor? master key = some stray) :
    f.pairsWith master ((key, default) :: rest) tail =
      if FieldKey.tail? key = some tail then
        (stray, key) :: (f.rename stray key).pairsWith master rest tail
      else (f.rename stray key).pairsWith master rest tail := by
  obtain ⟨tail', htail, hcons⟩ := straysWith_eq_cons hmaster hkey h
  obtain ⟨hstray, hout, htail'⟩ := mem_straysWith.mp (hcons ▸ List.mem_cons_self)
  -- no key of the master is stray, so the field that is used up is none of the keys to come
  have hrest' : stray ∉ rest.map Prod.fst := by
    intro hmem
    obtain ⟨e, he, rfl⟩ := List.mem_map.mp hmem
    rw [isStray_of_mem (hsub e he)] at hout
    cases hout
  rw [pairsWith, pairsWith, lackingWith_rename hkey hstray hrest hrest', lackingWith_cons hkey]
  split
  · rename_i heq
    obtain rfl : tail' = tail := Option.some.inj (htail.symm.trans heq)
    rw [hcons, List.zip_cons_cons]
  · rename_i hother
    rw [straysWith_rename_of_ne hmaster hkey (htail'.trans_ne (htail ▸ hother))]

/-- A stray field has the tail of the key that finds it. -/
theorem tail?_of_strayFor? (h : f.strayFor? master key = some stray) :
    ∃ tail, FieldKey.tail? key = some tail ∧ FieldKey.tail? stray = some tail := by
  rw [strayFor?_eq] at h
  obtain ⟨tail, htail, hhead⟩ := Option.bind_eq_some_iff.mp h
  exact ⟨tail, htail, (mem_straysWith.mp (List.mem_of_head? hhead)).2.2⟩

theorem takerOf?_rename (hmaster : key ∈ master.keys) (hkey : key ∉ f.keys)
    (hrest : key ∉ rest.map Prod.fst) (hsub : ∀ e ∈ rest, e.1 ∈ master.keys)
    (h : f.strayFor? master key = some stray) (k : String) :
    f.takerOf? master ((key, default) :: rest) k =
      if k = stray then some key else (f.rename stray key).takerOf? master rest k := by
  obtain ⟨tail, htail, htail'⟩ := tail?_of_strayFor? h
  split
  · rename_i heq
    rw [heq, takerOf?, htail', Option.bind_some, pairsWith_rename hmaster hkey hrest hsub h,
      if_pos htail, List.lookup_cons_self]
  · rename_i hne
    refine Option.bind_congr fun tail' _ => ?_
    rw [pairsWith_rename hmaster hkey hrest hsub h]
    split
    · rw [List.lookup_cons, beq_eq_false_iff_ne.mpr hne]
    · rfl

theorem sourceOf?_rename (hmaster : key ∈ master.keys) (hkey : key ∉ f.keys)
    (hrest : key ∉ rest.map Prod.fst) (hsub : ∀ e ∈ rest, e.1 ∈ master.keys)
    (h : f.strayFor? master key = some stray) (k : String) :
    f.sourceOf? master ((key, default) :: rest) k =
      if k = key then some stray else (f.rename stray key).sourceOf? master rest k := by
  obtain ⟨tail, htail, htail'⟩ := tail?_of_strayFor? h
  split
  · rename_i heq
    rw [heq, sourceOf?, htail, Option.bind_some, pairsWith_rename hmaster hkey hrest hsub h,
      if_pos htail, List.map_cons, Prod.swap_prod_mk, List.lookup_cons_self]
  · rename_i hne
    refine Option.bind_congr fun tail' _ => ?_
    rw [pairsWith_rename hmaster hkey hrest hsub h]
    split
    · rw [List.map_cons, Prod.swap_prod_mk, List.lookup_cons, beq_eq_false_iff_ne.mpr hne]
    · rfl

/-! ## All keys -/

/-- The entries after completing: the fields in their places, each under the key that takes it
over, if there is one, and then the keys that take over none. -/
def completion (f master : Fields) (rest : List (String × String)) : List (String × String) :=
  (f.entries.map fun e => ((f.takerOf? master rest e.1).getD e.1, e.2)) ++
    rest.filter fun e => f.isNew master rest e.1

theorem completion_nil (f master : Fields) : f.completion master [] = f.entries := by
  have hnone : ∀ k, f.takerOf? master [] k = none := fun k => by
    simp [takerOf?, pairsWith, lackingWith]
  simp [completion, hnone]

theorem completion_cons_of_mem (h : key ∈ f.keys) :
    f.completion master ((key, default) :: rest) = f.completion master rest := by
  rw [completion, List.filter_cons_of_neg (by simp [isNew, contains_iff_mem_keys.mpr h])]
  simp only [completion, isNew, takerOf?, sourceOf?, pairsWith_cons_of_mem h]

theorem completion_insert (hmaster : key ∈ master.keys) (hkey : key ∉ f.keys)
    (hrest : key ∉ rest.map Prod.fst) (h : f.strayFor? master key = none) :
    f.completion master ((key, default) :: rest) =
      (f.insert key default).completion master rest := by
  have hpairs : f.pairsWith master ((key, default) :: rest) =
      (f.insert key default).pairsWith master rest := pairsWith_insert hmaster hkey hrest h
  have htaker : ∀ k, f.takerOf? master ((key, default) :: rest) k =
      (f.insert key default).takerOf? master rest k := fun k => by rw [takerOf?, hpairs, takerOf?]
  have hsource : ∀ k, f.sourceOf? master ((key, default) :: rest) k =
      (f.insert key default).sourceOf? master rest k := fun k => by rw [sourceOf?, hpairs, sourceOf?]
  have hnew : f.isNew master ((key, default) :: rest) key = true := by
    rw [isNew, hsource, sourceOf?_of_not_mem hrest]
    simp [contains, hkey]
  rw [completion, List.filter_cons_of_pos (by exact hnew), completion, entries_insert_of_not_mem hkey,
    List.map_append, List.map_singleton, takerOf?_of_not_stray (isStray_of_mem hmaster),
    Option.getD_none, List.append_assoc, List.singleton_append]
  simp only [htaker]
  congr 2
  refine List.filter_congr fun e he => ?_
  rw [isNew, isNew, hsource,
    contains_insert_of_ne (ne_of_mem_of_not_mem (List.mem_map_of_mem he) hrest)]

theorem completion_rename (hmaster : key ∈ master.keys) (hkey : key ∉ f.keys)
    (hrest : key ∉ rest.map Prod.fst) (hsub : ∀ e ∈ rest, e.1 ∈ master.keys)
    (h : f.strayFor? master key = some stray) :
    f.completion master ((key, default) :: rest) = (f.rename stray key).completion master rest := by
  have htaker : ∀ k, f.takerOf? master ((key, default) :: rest) k =
      if k = stray then some key else (f.rename stray key).takerOf? master rest k :=
    takerOf?_rename hmaster hkey hrest hsub h
  have hsource : ∀ k, f.sourceOf? master ((key, default) :: rest) k =
      if k = key then some stray else (f.rename stray key).sourceOf? master rest k :=
    sourceOf?_rename hmaster hkey hrest hsub h
  obtain ⟨tail, -, hcons⟩ := straysWith_eq_cons hmaster hkey h
  obtain ⟨hstray, hout, -⟩ := mem_straysWith.mp (hcons ▸ List.mem_cons_self)
  have hnew : f.isNew master ((key, default) :: rest) key = false := by
    rw [isNew, hsource, if_pos rfl, Option.isNone_some, Bool.and_false]
  rw [completion, List.filter_cons_of_neg (by simp [hnew]), completion,
    entries_rename_of_not_mem hkey, List.map_map]
  congr 1
  · refine List.map_congr_left fun e he => ?_
    rw [htaker, Function.comp_apply, relabel]
    split
    · rw [Option.getD_some, takerOf?_of_not_stray (isStray_of_mem hmaster), Option.getD_none]
    · rfl
  · refine List.filter_congr fun e he => ?_
    have hne : e.1 ≠ key := ne_of_mem_of_not_mem (List.mem_map_of_mem he) hrest
    have hne' : e.1 ≠ stray := by
      rintro rfl
      rw [isStray_of_mem (hsub e he)] at hout
      cases hout
    rw [isNew, isNew, hsource, if_neg hne, contains_rename_of_ne hkey hstray hne hne']

theorem entries_complete (hsub : ∀ e ∈ rest, e.1 ∈ master.keys)
    (hnodup : (rest.map Prod.fst).Nodup) :
    (complete master rest f).2.entries = f.completion master rest := by
  -- every key changes the fields that the keys after it see, so this is for all fields
  induction rest generalizing f with
  | nil => exact (completion_nil f master).symm
  | cons e rest ih =>
    obtain ⟨key, default⟩ := e
    obtain ⟨hmaster, hsub⟩ := List.forall_mem_cons.mp hsub
    obtain ⟨hrest, hnodup⟩ := List.nodup_cons.mp hnodup
    rw [complete]
    by_cases hkey : key ∈ f.keys
    · rw [if_pos (contains_iff_mem_keys.mpr hkey), ih hsub hnodup, completion_cons_of_mem hkey]
    rw [if_neg fun hcontains => hkey (contains_iff_mem_keys.mp hcontains)]
    dsimp only
    rw [ih hsub hnodup, repair]
    cases hstray : f.strayFor? master key with
    | none => exact (completion_insert hmaster hkey hrest hstray).symm
    | some stray => exact (completion_rename hmaster hkey hrest hsub hstray).symm

/-- The key under which a value is found after reconciling; none if the field is dropped. -/
def movesTo? (f master : Fields) (key : String) : Option String :=
  if isStray master key then f.takerOf? master master.entries key else some key

/-- A stray field that no key takes over is dropped. -/
theorem movesTo?_of_stray (h : isStray master k = true) :
    f.movesTo? master k = f.takerOf? master master.entries k := if_pos h

theorem movesTo?_of_not_stray (h : isStray master k = false) : f.movesTo? master k = some k :=
  if_neg (Bool.eq_false_iff.mp h)

/-- **The entries after reconciling**: the fields that are not dropped in their order, each
under the key that its value moves to, and then the keys that take over none. -/
theorem entries_reconcile (f master : Fields) : (f.reconcile master).2.entries =
    (f.entries.filterMap fun e => (f.movesTo? master e.1).map fun key => (key, e.2)) ++
      master.entries.filter fun e => f.isNew master master.entries e.1 := by
  rw [entries_reconcile_eq_filter, entries_complete (fun e he => List.mem_map_of_mem he)
    master.nodup_keys, completion, List.filter_append]
  congr 1
  · rw [← List.filterMap_eq_filter, List.filterMap_map]
    refine List.filterMap_congr fun e he => ?_
    rw [Function.comp_apply]
    cases hstray : isStray master e.1 with
    | false =>
      rw [movesTo?_of_not_stray hstray, takerOf?_of_not_stray hstray]
      simp [hstray]
    | true =>
      rw [movesTo?_of_stray hstray]
      cases htaker : f.takerOf? master master.entries e.1 with
      | none => simp [hstray]
      | some key =>
        obtain ⟨tail, -, hmem⟩ := mem_of_takerOf? htaker
        -- once taken over it stands under a key of the master, and is not dropped
        have hmaster : key ∈ master.keys := (mem_lackingWith.mp hmem).1
        simp [isStray_of_mem hmaster]
  · refine List.filter_eq_self.mpr fun e he => ?_
    rw [isStray_of_mem (List.mem_map_of_mem (List.mem_of_mem_filter he)), Bool.not_false]

/-! ## Values -/

/-- A field that is not dropped has its value under the key that it moves to. -/
theorem get?_reconcile_of_movesTo? (hk : k ∈ f.keys) (h : f.movesTo? master k = some key) :
    (f.reconcile master).2.get? key = f.get? k := by
  obtain ⟨⟨k, value⟩, hmem, rfl⟩ := List.mem_map.mp hk
  rw [get?_eq_some_iff.mpr hmem, get?_eq_some_iff, entries_reconcile, List.mem_append,
    List.mem_filterMap]
  exact .inl ⟨_, hmem, by rw [h, Option.map_some]⟩

/-- A key that takes over no field has the default of the master. -/
theorem get?_reconcile_of_isNew (hmaster : key ∈ master.keys)
    (h : f.isNew master master.entries key = true) :
    (f.reconcile master).2.get? key = master.get? key := by
  obtain ⟨⟨key, default⟩, hmem, rfl⟩ := List.mem_map.mp hmaster
  rw [get?_eq_some_iff.mpr hmem, get?_eq_some_iff, entries_reconcile, List.mem_append]
  exact .inr (List.mem_filter.mpr ⟨hmem, h⟩)

/-- What stands in the same place among the stray fields and the missing keys belongs together. -/
theorem takerOf?_of_getElem? {j : Nat} (hkey : (f.lackingWith rest tail)[j]? = some key)
    (hstray : (f.straysWith master tail)[j]? = some stray) :
    f.takerOf? master rest stray = some key := by
  have htail := (mem_straysWith.mp (List.mem_of_getElem? hstray)).2.2
  rw [takerOf?, htail, Option.bind_some, pairsWith,
    lookup_zip_of_getElem? (nodup_straysWith f master tail) hstray, hkey]

/-- A missing key is new if there are no more stray fields left for it. -/
theorem isNew_of_length_le (hnodup : (rest.map Prod.fst).Nodup) (hkey : key ∉ f.keys)
    (h : ∀ tail j, (f.lackingWith rest tail)[j]? = some key →
      (f.straysWith master tail).length ≤ j) : f.isNew master rest key = true := by
  rw [isNew, Bool.and_eq_true, Option.isNone_iff_eq_none]
  refine ⟨by simp [contains, hkey], ?_⟩
  cases hsource : f.sourceOf? master rest key with
  | none => rfl
  | some stray =>
    -- the stray field would stand across from the key, but there are too few of them
    obtain ⟨tail, -, hlookup⟩ := Option.bind_eq_some_iff.mp hsource
    rw [pairsWith, List.zip_swap] at hlookup
    obtain ⟨j, hj⟩ := List.getElem?_of_mem (mem_of_lookup_zip hlookup).1
    rw [lookup_zip_of_getElem? (nodup_lackingWith hnodup tail) hj,
      List.getElem?_eq_none (h tail j hj)] at hlookup
    cases hlookup

/-- A stray field that no key takes over is reported with its value. -/
theorem removed_mem_reconcile {value : String} (hvalue : f.get? k = some value)
    (hstray : isStray master k = true) (h : f.takerOf? master master.entries k = none) :
    .removed k value ∈ (f.reconcile master).1 := by
  have hleft : (k, value) ∈ (complete master master.entries f).2.entries := by
    rw [entries_complete (fun e he => List.mem_map_of_mem he) master.nodup_keys, completion,
      List.mem_append, List.mem_map]
    exact .inl ⟨_, get?_eq_some_iff.mp hvalue, by rw [h, Option.getD_none]⟩
  exact List.mem_append_right _ (List.mem_map.mpr ⟨_, List.mem_filter.mpr ⟨hleft, hstray⟩, rfl⟩)

/-- Fields that neither are positional nor belong to the master are as they were. -/
theorem get?_reconcile_of_free (hpositional : FieldKey.isPositional k = false)
    (hmaster : k ∉ master.keys) : (f.reconcile master).2.get? k = f.get? k := by
  have houtside :
      (f.reconcile master).2.outside (fun k => FieldKey.isPositional k || master.contains k) =
        f.outside fun k => FieldKey.isPositional k || master.contains k :=
    outside_reconcile (fun k hk => by simp [hk]) fun k hk => by simp [hk]
  have hfree : ∀ g : Fields, ∀ value, (k, value) ∈ g.entries ↔
      (k, value) ∈ g.outside fun k => FieldKey.isPositional k || master.contains k := by
    intro g value
    rw [outside, List.mem_filter, hpositional, contains]
    simp [hmaster]
  refine Option.ext fun value => ?_
  rw [get?_eq_some_iff, get?_eq_some_iff, hfree, houtside, ← hfree]

/-! ## Reconciled fields -/

/-- Fields `g` that come of reconciling `f` with a master, and the changes that were made. -/
structure Assigned (f master g : Fields) (changes : List FieldChange) : Prop where
  complete : ∀ key ∈ master.keys, key ∈ g.keys
  clean : ∀ key ∈ g.keys, FieldKey.isPositional key = true → key ∈ master.keys
  /-- A key of the master that was there keeps its value. -/
  kept : ∀ key ∈ master.keys, key ∈ f.keys → g.get? key = f.get? key
  /-- The missing key in some place among those with its tail gets the value of the stray field
  in the same place. -/
  taken : ∀ tail (j : Nat) key stray, (f.lackingWith master.entries tail)[j]? = some key →
    (f.straysWith master tail)[j]? = some stray → g.get? key = f.get? stray
  /-- The other missing keys get their defaults. -/
  defaulted : ∀ key ∈ master.keys, key ∉ f.keys →
    (∀ tail (j : Nat), (f.lackingWith master.entries tail)[j]? = some key →
      (f.straysWith master tail).length ≤ j) → g.get? key = master.get? key
  free : ∀ key, FieldKey.isPositional key = false → key ∉ master.keys → g.get? key = f.get? key
  /-- Every value is still there, or it was of a stray field and is reported. -/
  accounted : ∀ key value, f.get? key = some value →
    (∃ key', f.movesTo? master key = some key' ∧ g.get? key' = some value) ∨
      isStray master key = true ∧ .removed key value ∈ changes
  /-- Fields keep their order under their new keys, and new keys follow in that of the master. -/
  order : g.keys = f.keys.filterMap (f.movesTo? master) ++
    master.keys.filter (f.isNew master master.entries)

/-- **Reconciling gives fields the keys of their master and assigns every value**: by its key,
by its tail and its place among the fields with this tail, or else the default. Reconciling
again changes nothing. -/
theorem reconcile_assigns (f master : Fields) :
    Assigned f master (f.reconcile master).2 (f.reconcile master).1 ∧
      (f.reconcile master).2.reconcile master = ([], (f.reconcile master).2) := by
  have hfits := fits_reconcile f master
  refine ⟨?_, reconcile_reconcile f master⟩
  constructor
  case complete =>
    intro key hkey
    obtain ⟨e, he, rfl⟩ := List.mem_map.mp hkey
    exact hfits.complete e he
  case clean =>
    intro key hkey hpositional
    obtain ⟨e, he, rfl⟩ := List.mem_map.mp hkey
    have hclean := hfits.clean e he
    rw [isStray, hpositional, Bool.true_and, Bool.not_eq_false'] at hclean
    exact contains_iff_mem_keys.mp hclean
  case kept =>
    intro key hmaster hkey
    exact get?_reconcile_of_movesTo? hkey (movesTo?_of_not_stray (isStray_of_mem hmaster))
  case taken =>
    intro tail j key stray hkey hstray
    obtain ⟨hmem, hout, -⟩ := mem_straysWith.mp (List.mem_of_getElem? hstray)
    refine get?_reconcile_of_movesTo? hmem ?_
    rw [movesTo?_of_stray hout, takerOf?_of_getElem? hkey hstray]
  case defaulted =>
    intro key hmaster hkey h
    exact get?_reconcile_of_isNew hmaster (isNew_of_length_le master.nodup_keys hkey h)
  case free => exact fun key => get?_reconcile_of_free
  case accounted =>
    intro key value hvalue
    have hkey : key ∈ f.keys := by rw [← get?_isSome_iff, hvalue]; rfl
    cases hmoves : f.movesTo? master key with
    | some key' => exact .inl ⟨key', rfl, (get?_reconcile_of_movesTo? hkey hmoves).trans hvalue⟩
    | none =>
      -- A value that moves nowhere is a stray that was left over, and these are removed.
      have hstray : isStray master key = true := by
        by_contra hnot
        rw [movesTo?_of_not_stray (Bool.eq_false_iff.mpr hnot)] at hmoves
        cases hmoves
      rw [movesTo?_of_stray hstray] at hmoves
      exact .inr ⟨hstray, removed_mem_reconcile hvalue hstray hmoves⟩
  case order =>
    rw [keys, entries_reconcile, List.map_append, List.map_filterMap, keys, List.filterMap_map,
      keys, List.filter_map]
    congr 1
    refine List.filterMap_congr fun e _ => ?_
    rw [Function.comp_apply]
    cases f.movesTo? master e.1 <;> rfl

example : ((ofList [("c05.Flow", "a"), ("Key", "k"), ("c07.Flow", "b"), ("i02.Flow", "c")]).reconcile
    (ofList [("i00.Flow", "0"), ("i01.Flow", "1"), ("i02.Flow", "2"), ("i03.Flow", "3")])).2 =
    ofList [("i00.Flow", "a"), ("Key", "k"), ("i01.Flow", "b"), ("i02.Flow", "c"),
      ("i03.Flow", "3")] := by
  cbv

end Fields

end Netlist
