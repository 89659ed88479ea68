/-!
# Data fields

An element carries named text fields in the order in which they were first
written. Writing a field again overwrites its value in place, erasing one
closes the gap, and renaming one keeps its place. No key occurs twice.
-/

namespace Netlist

/-- Named fields in order, with distinct keys. -/
structure Fields where
  entries : List (String × String)
  nodup_keys : (entries.map Prod.fst).Nodup
deriving DecidableEq

namespace Fields

/-- No fields. -/
def empty : Fields := ⟨[], by simp⟩

instance : Inhabited Fields := ⟨empty⟩

/-- The keys in order. -/
def keys (f : Fields) : List String := f.entries.map Prod.fst

/-- Whether a key is present. -/
def contains (f : Fields) (key : String) : Bool := f.keys.contains key

/-- The value of a key. -/
def get? (f : Fields) (key : String) : Option String :=
  (f.entries.find? fun e => e.1 == key).map Prod.snd

/-- Overwrites the value of `key` in an entry that has this key. -/
def overwrite (key value : String) (e : String × String) : String × String :=
  if e.1 = key then (key, value) else e

theorem map_fst_overwrite (key value : String) (es : List (String × String)) :
    (es.map (overwrite key value)).map Prod.fst = es.map Prod.fst := by
  induction es with
  | nil => rfl
  | cons e es ih =>
    simp only [List.map_cons, ih, List.cons.injEq, and_true]
    by_cases h : e.1 = key <;> simp [overwrite, h]

/-- Sets a field: in place if the key is present, else at the end. -/
def insert (f : Fields) (key value : String) : Fields :=
  if h : key ∈ f.entries.map Prod.fst then
    ⟨f.entries.map (overwrite key value), by rw [map_fst_overwrite]; exact f.nodup_keys⟩
  else
    ⟨f.entries ++ [(key, value)], by
      rw [List.map_append, List.nodup_append]
      refine ⟨f.nodup_keys, by simp, fun a ha b hb hab => h ?_⟩
      simp only [List.map_cons, List.map_nil, List.mem_singleton] at hb
      rw [← hb, ← hab]
      exact ha⟩

/-- Removes a field. -/
def erase (f : Fields) (key : String) : Fields :=
  ⟨f.entries.filter fun e => e.1 != key,
    List.Nodup.sublist (List.Sublist.map _ List.filter_sublist) f.nodup_keys⟩

/-- The entry with its key `source` replaced by `target`. -/
def relabel (source target : String) (e : String × String) : String × String :=
  if e.1 = source then (target, e.2) else e

theorem nodup_map_relabel {source target : String} {es : List (String × String)}
    (hn : (es.map Prod.fst).Nodup) (ht : target ∉ es.map Prod.fst) :
    ((es.map (relabel source target)).map Prod.fst).Nodup := by
  induction es with
  | nil => simp
  | cons e es ih =>
    simp only [List.map_cons, List.nodup_cons, List.mem_cons, not_or] at hn ht ⊢
    refine ⟨?_, ih hn.2 ht.2⟩
    intro hmem
    obtain ⟨x, hx, hxe⟩ := List.mem_map.1 hmem
    obtain ⟨y, hy, rfl⟩ := List.mem_map.1 hx
    have hymem : y.1 ∈ es.map Prod.fst := List.mem_map_of_mem hy
    by_cases h₁ : y.1 = source <;> by_cases h₂ : e.1 = source <;>
      simp only [relabel, h₁, h₂, if_true, if_false] at hxe
    · exact hn.1 (h₂ ▸ h₁ ▸ hymem)
    · exact ht.1 hxe
    · exact ht.2 (hxe ▸ hymem)
    · exact hn.1 (hxe ▸ hymem)

/-- Gives the field `source` the key `target`, keeping its place and value.
Nothing happens if `target` is already present. -/
def rename (f : Fields) (source target : String) : Fields :=
  if h : target ∈ f.entries.map Prod.fst then f
  else ⟨f.entries.map (relabel source target), nodup_map_relabel f.nodup_keys h⟩

/-- Fields from pairs; a repeated key overwrites in place. -/
def ofList (pairs : List (String × String)) : Fields :=
  pairs.foldl (fun f e => f.insert e.1 e.2) empty

/-! ## Keys and entries after an operation -/

theorem entries_insert_of_not_mem {f : Fields} {key value : String} (h : key ∉ f.keys) :
    (f.insert key value).entries = f.entries ++ [(key, value)] := by
  have h' : key ∉ f.entries.map Prod.fst := h
  simp only [insert, h', dite_false]

@[simp] theorem entries_erase (f : Fields) (key : String) :
    (f.erase key).entries = f.entries.filter fun e => e.1 != key := rfl

theorem entries_rename_of_not_mem {f : Fields} {source target : String} (h : target ∉ f.keys) :
    (f.rename source target).entries = f.entries.map (relabel source target) := by
  have h' : target ∉ f.entries.map Prod.fst := h
  simp only [rename, h', dite_false]

theorem contains_iff_mem_keys {f : Fields} {key : String} :
    f.contains key = true ↔ key ∈ f.keys := by
  simp [contains]

end Fields

end Netlist
