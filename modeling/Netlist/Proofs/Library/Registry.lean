import Mathlib
import Netlist.Library.Registry
import Netlist.Proofs.Library.Families

/-!
# The indices keep up with the masters

The two indices of a registry settle conflicts in different ways: a key that is taken refuses
the newcomer, a class that is taken stays with its owner. Either way an index gives the place
at which a search through the masters would stop, whatever was accepted and refused before.

- `Consistent`: each index gives the place of the first match.
- `Consistent.insert`: adding a master keeps this, and so does being refused.
- `Consistent.masterFor`, `Consistent.masterForClass`: looking up is searching.
- `after_refines`: **what a registry answers after any insertions**, and which lists of
  masters make one.
-/

namespace Netlist.Registry

open Netlist.Catalog (FirstToDeclare)

variable {r r' : Registry} {m : Master} {records : List Master} {kind : MasterKind}
  {subtype name : String} {variant : Option String} {place : Nat} {e : DuplicateMaster}
  {classes : AList fun _ : String × Option String => Nat}

/-- The masters without their indices. -/
def catalog (r : Registry) : Catalog := ⟨r.masters⟩

/-- No key is there twice, and each index gives the place of the first match. -/
structure Consistent (r : Registry) : Prop where
  distinct : (r.masters.map Master.key).Nodup
  subtypes : ∀ kind subtype, r.bySubtype.lookup (kind, subtype) =
    r.masters.findIdx? fun m => m.kind == kind && m.subtype == subtype
  classes : ∀ name variant, r.byClass.lookup (name, variant) =
    r.masters.findIdx? fun m => m.className == some name && m.variant == variant

theorem consistent_empty : empty.Consistent := ⟨List.nodup_nil, fun _ _ => rfl, fun _ _ => rfl⟩

/-! ## One insertion -/

/-- Who searches through one more master finds it last. -/
theorem findIdx?_concat {α : Type} (p : α → Bool) (as : List α) (a : α) :
    (as ++ [a]).findIdx? p = (as.findIdx? p).or (if p a then some as.length else none) := by
  rw [List.findIdx?_append, List.findIdx?_singleton]
  cases p a <;> simp

/-- A new key of an index leads to its place, the others lead where they did. -/
theorem lookup_insert_of_notMem {α : Type} [DecidableEq α] {index : AList fun _ : α => Nat}
    {a a' : α} (h : a ∉ index) : (index.insert a place).lookup a' =
      (index.lookup a').or (if a = a' then some place else none) := by
  by_cases heq : a = a'
  · obtain rfl := heq
    rw [AList.lookup_insert, AList.lookup_eq_none.mpr h, Option.none_or, if_pos rfl]
  · rw [AList.lookup_insert_ne (Ne.symm heq), if_neg heq, Option.or_none]

/-- A class goes to a master that declares it, unless it has an owner. -/
theorem lookup_declare : (declare classes m place).lookup (name, variant) =
    (classes.lookup (name, variant)).or
      (if m.className == some name && m.variant == variant then some place else none) := by
  unfold declare
  cases hclass : m.className with
  | none => simp
  | some declared =>
    have htest : (some declared == some name && m.variant == variant) =
        decide ((declared, m.variant) = (name, variant)) := by
      rw [Bool.eq_iff_iff]
      simp
    simp only [htest, decide_eq_true_eq]
    split
    next howned =>
      split
      next hkey =>
        obtain ⟨owner, howner⟩ := Option.isSome_iff_exists.mp (AList.lookup_isSome.mpr howned)
        rw [← hkey, howner, Option.some_or]
      · rw [Option.or_none]
    next hfree => exact lookup_insert_of_notMem hfree

theorem insert_of_taken (h : (m.kind, m.subtype) ∈ r.bySubtype) :
    r.insert m = (.error ⟨m.kind, m.subtype⟩, r) := if_pos h

theorem insert_of_free (h : (m.kind, m.subtype) ∉ r.bySubtype) :
    r.insert m = (.ok (),
      ⟨r.masters ++ [m], r.bySubtype.insert (m.kind, m.subtype) r.masters.length,
        declare r.byClass m r.masters.length⟩) := if_neg h

/-- The place of the first match leads to the first match. -/
theorem mapM_masterAt (p : Master → Bool) :
    (r.masters.findIdx? p).mapM r.masterAt = .ok (r.masters.find? p) := by
  rw [List.find?_eq_bind_findIdx?_getElem?]
  cases hplace : r.masters.findIdx? p with
  | none => rfl
  | some place =>
    obtain ⟨hlt, -⟩ := List.findIdx?_eq_some_iff_getElem.mp hplace
    rw [Option.mapM_some, masterAt, Option.bind_some, List.getElem?_eq_getElem hlt]
    rfl

namespace Consistent

/-- A key is taken iff a master has it. -/
theorem mem_bySubtype (h : r.Consistent) :
    (m.kind, m.subtype) ∈ r.bySubtype ↔ m.key ∈ r.masters.map Master.key := by
  rw [← AList.lookup_isSome, h.subtypes, List.findIdx?_isSome, List.any_eq_true, List.mem_map]
  simp [Master.key]

/-- **Adding a master keeps the indices right**, and so does being refused. -/
theorem insert (h : r.Consistent) (m : Master) : (r.insert m).2.Consistent := by
  by_cases htaken : (m.kind, m.subtype) ∈ r.bySubtype
  · rw [insert_of_taken htaken]
    exact h
  rw [insert_of_free htaken]
  constructor
  · rw [List.map_append, List.map_singleton, ← List.concat_eq_append]
    exact h.distinct.concat (mt h.mem_bySubtype.mpr htaken)
  · intro kind subtype
    have htest : (m.kind == kind && m.subtype == subtype) =
        decide ((m.kind, m.subtype) = (kind, subtype)) := by
      rw [Bool.eq_iff_iff]
      simp
    simp only [findIdx?_concat, ← h.subtypes, htest, decide_eq_true_eq]
    exact lookup_insert_of_notMem htaken
  · -- here the key may have an owner, who comes first in a search as well
    intro name variant
    rw [findIdx?_concat, ← h.classes, lookup_declare]

/-- The index by key finds what a search finds. -/
theorem masterFor (h : r.Consistent) :
    r.masterFor kind subtype = .ok (r.catalog.bySubtype? kind subtype) := by
  rw [Registry.masterFor, h.subtypes]
  exact mapM_masterAt _

/-- The index by class finds what a search finds. -/
theorem masterForClass (h : r.Consistent) :
    r.masterForClass name variant = .ok (r.catalog.byClass? name variant) := by
  rw [Registry.masterForClass, h.classes]
  exact mapM_masterAt _

/-- Adding a master is adding it to the catalog. -/
theorem add (h : r.Consistent) (m : Master) : (r.add m).map catalog = r.catalog.insert m := by
  have hlook : r.catalog.bySubtype? m.kind m.subtype = none ↔ (m.kind, m.subtype) ∉ r.bySubtype := by
    rw [Catalog.bySubtype?, List.find?_eq_none, ← AList.lookup_eq_none, h.subtypes,
      List.findIdx?_eq_none_iff]
    simp only [Bool.not_eq_true, catalog]
  rw [Registry.add, Catalog.insert]
  cases hfound : r.catalog.bySubtype? m.kind m.subtype with
  | none =>
    rw [insert_of_free (hlook.mp hfound)]
    rfl
  | some owner =>
    have htaken : (m.kind, m.subtype) ∈ r.bySubtype := by
      by_contra hfree
      cases (hlook.mpr hfree).symm.trans hfound
    rw [insert_of_taken htaken]
    rfl

end Consistent

/-! ## Insertions one after the other -/

/-- The records that are accepted when some are added one after the other. -/
def accepted (r : Registry) (records : List Master) : List Master :=
  ((records.zip (r.run records).1).filter fun p => p.2.isOk).map Prod.fst

theorem accepted_cons : r.accepted (m :: records) =
    (if (r.insert m).1.isOk then [m] else []) ++ (r.insert m).2.accepted records := by
  rw [accepted, run, List.zip_cons_cons, List.filter_cons]
  split <;> rfl

theorem insert_masters (r : Registry) (m : Master) :
    (r.insert m).2.masters = r.masters ++ if (r.insert m).1.isOk then [m] else [] := by
  by_cases htaken : (m.kind, m.subtype) ∈ r.bySubtype
  · rw [insert_of_taken htaken]
    exact (List.append_nil _).symm
  · rw [insert_of_free htaken]
    rfl

/-- The masters are those that were accepted, in order. -/
theorem run_masters (r : Registry) (records : List Master) :
    (r.run records).2.masters = r.masters ++ r.accepted records := by
  -- on the records to come, for every registry so far
  induction records generalizing r with
  | nil => exact (List.append_nil _).symm
  | cons m records ih => rw [run, ih, insert_masters, accepted_cons, List.append_assoc]

/-- The indices stay right under any insertions. -/
theorem Consistent.run (h : r.Consistent) (records : List Master) :
    (r.run records).2.Consistent := by
  induction records generalizing r with
  | nil => exact h
  | cons m records ih => exact ih (h.insert m)

theorem add_eq_ok : r.add m = .ok r' ↔ r.insert m = (.ok (), r') := by
  by_cases htaken : (m.kind, m.subtype) ∈ r.bySubtype
  · rw [add, insert_of_taken htaken]
    exact ⟨fun h => (by cases h), fun h => (by cases h)⟩
  · rw [add, insert_of_free htaken]
    exact ⟨fun h => (by cases h; rfl), fun h => (by cases h; rfl)⟩

/-- Adding masters until one is refused is adding them to the catalog. -/
theorem Consistent.foldlM_add (h : r.Consistent) :
    (records.foldlM Registry.add r).map catalog = records.foldlM Catalog.insert r.catalog := by
  induction records generalizing r with
  | nil => rfl
  | cons m records ih =>
    rw [List.foldlM_cons, List.foldlM_cons, ← h.add m]
    cases hadd : r.add m with
    | error e => rfl
    | ok r' =>
      have hkept : r'.Consistent := by
        have hinsert := h.insert m
        rwa [add_eq_ok.mp hadd] at hinsert
      exact ih hkept

/-- If none is refused, all are accepted and the registry is the same. -/
theorem run_of_foldlM (h : records.foldlM add r = .ok r') :
    r' = (r.run records).2 ∧ r.accepted records = records := by
  induction records generalizing r with
  | nil =>
    cases h
    exact ⟨rfl, rfl⟩
  | cons m records ih =>
    obtain ⟨r₁, hadd, hrest⟩ := bind_eq_ok.mp h
    obtain ⟨hsame, hall⟩ := ih hrest
    rw [run, accepted_cons, add_eq_ok.mp hadd]
    exact ⟨hsame, congrArg (m :: ·) hall⟩

/-- Records make a registry iff they make a catalog, with the same masters. -/
theorem ofRecords_catalog (records : List Master) :
    (ofRecords records).map catalog = Catalog.ofList records :=
  consistent_empty.foldlM_add

/-- **A list of records makes a registry** iff no two share family and subtype. -/
theorem ofRecords_ok_iff : (∃ r, ofRecords records = .ok r) ↔ (records.map Master.key).Nodup := by
  have hsame := ofRecords_catalog records
  constructor
  · rintro ⟨r, hr⟩
    rw [hr] at hsame
    exact (Catalog.ofList_eq_ok.mp hsame.symm).2
  · intro hnodup
    rw [Catalog.ofList_eq_ok.mpr ⟨rfl, hnodup⟩] at hsame
    cases hr : ofRecords records with
    | ok r => exact ⟨r, rfl⟩
    | error e =>
      rw [hr] at hsame
      cases hsame

/-- The registry that some insertions make of the empty one. -/
def after (records : List Master) : Registry := (empty.run records).2

theorem consistent_after (records : List Master) : (after records).Consistent :=
  consistent_empty.run records

theorem catalog_after (records : List Master) :
    (after records).catalog = ⟨empty.accepted records⟩ :=
  congrArg Catalog.mk (run_masters empty records)

/-- **What a registry answers after any insertions**, accepted or refused. The next one is
refused iff an accepted record has its family and subtype, and then nothing changes. Looking up
a family and subtype finds what a search through the accepted records finds, the one that has
them; looking up a class and variant finds the first that declares them. Records make a registry
iff no two share family and subtype, and then the same as when they are inserted one by one. -/
theorem after_refines_search (records : List Master) :
    (∀ m, (∃ e, ((after records).insert m).1 = .error e) ↔
      ∃ m' ∈ empty.accepted records, m'.kind = m.kind ∧ m'.subtype = m.subtype) ∧
    (∀ m e, ((after records).insert m).1 = .error e →
      e = ⟨m.kind, m.subtype⟩ ∧ ((after records).insert m).2 = after records) ∧
    (∀ kind subtype,
      let found := Catalog.bySubtype? ⟨empty.accepted records⟩ kind subtype
      (after records).masterFor kind subtype = .ok found ∧ ∀ m, found = some m ↔
        m ∈ empty.accepted records ∧ m.kind = kind ∧ m.subtype = subtype) ∧
    (∀ name variant,
      let found := Catalog.byClass? ⟨empty.accepted records⟩ name variant
      (after records).masterForClass name variant = .ok found ∧ ∀ m, found = some m ↔
        FirstToDeclare (empty.accepted records) name variant m) ∧
    ((∃ r, ofRecords records = .ok r) ↔ (records.map Master.key).Nodup) ∧
    (∀ r, ofRecords records = .ok r → r = after records ∧ empty.accepted records = records) := by
  have hright := consistent_after records
  have hmasters : (after records).masters = empty.accepted records :=
    congrArg Catalog.masters (catalog_after records)
  -- The index has exactly the keys of the records that were accepted.
  have htaken : ∀ m : Master, (m.kind, m.subtype) ∈ (after records).bySubtype ↔
      ∃ m' ∈ empty.accepted records, m'.kind = m.kind ∧ m'.subtype = m.subtype := by
    intro m
    rw [hright.mem_bySubtype, hmasters, List.mem_map]
    simp [Master.key]
  refine ⟨fun m => ?_, fun m e he => ?_, fun kind subtype => ⟨?_, fun m => ?_⟩,
    fun name variant => ⟨?_, fun m => Catalog.byClass?_eq_some⟩, ofRecords_ok_iff,
    fun r hr => run_of_foldlM hr⟩
  · rw [← htaken]
    constructor
    · rintro ⟨e, he⟩
      by_contra hfree
      rw [insert_of_free hfree] at he
      cases he
    · intro hmem
      rw [insert_of_taken hmem]
      exact ⟨_, rfl⟩
  · by_cases hmem : (m.kind, m.subtype) ∈ (after records).bySubtype
    · rw [insert_of_taken hmem] at he ⊢
      cases he
      exact ⟨rfl, rfl⟩
    · rw [insert_of_free hmem] at he
      cases he
  · rw [hright.masterFor, catalog_after]
  · have hdistinct := hright.distinct
    rw [hmasters] at hdistinct
    exact Catalog.bySubtype?_eq_some hdistinct
  · rw [hright.masterForClass, catalog_after]

/-- The second pump is refused, and the gauge after it is not. -/
example : (empty.run [{ kind := .link, subtype := "Pump" }, { kind := .link, subtype := "Pump" },
    { kind := .spotter, subtype := "Gauge" }]).1 = [.ok (), .error ⟨.link, "Pump"⟩, .ok ()] := by
  rfl

end Netlist.Registry
