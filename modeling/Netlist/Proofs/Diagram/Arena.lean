import Mathlib.Data.List.Perm.Basic
import Netlist.Diagram.Arena
import Netlist.Proofs.Diagram.Distinct
import Netlist.Proofs.Diagram.Issued
import Netlist.Proofs.Diagram.Sweep

/-!
# The index keeps up with the slots

The slots of an arena and its index are written separately, by calls that can stop early. In
whatever order calls come, and whatever they ask for, index and slots say the same.

- `Consistent`: the index has the identities of the live elements, with their slots.
- `Consistent.perform`: every call keeps this.
- `Consistent.perform_eq`: the index changes no answer.
- `run_new`: **an arena is consistent after any calls, gives no slot out twice, and answers
  as a diagram without an index does.**
-/

namespace Netlist

namespace Diagram

variable {d d' : Diagram} {i j : Slot} {e : Element} {f : Element → Element} {id : String}

/-- The identity of the element in a slot. -/
def idAt? (d : Diagram) (i : Slot) : Option String := (d.get? i).map Element.id

theorem idAt?_eq_some : d.idAt? i = some id ↔ ∃ e, d.get? i = some e ∧ e.id = id :=
  Option.map_eq_some_iff

theorem idAt?_of_get? (h : d.get? i = some e) : d.idAt? i = some e.id := by
  rw [idAt?, h, Option.map_some]

theorem idAt?_modify (hf : ∀ e, (f e).id = e.id) : (d.modify i f).idAt? j = d.idAt? j := by
  rw [idAt?, get?_modify, idAt?]
  split
  · rw [Option.map_map]
    exact congrArg (fun g => (d.get? j).map g) (funext hf)
  · rfl

theorem idAt?_rename :
    (d.modify i fun e => { e with id }).idAt? j =
      if i = j then (d.idAt? j).map fun _ => id else d.idAt? j := by
  rw [idAt?, get?_modify, idAt?]
  split
  · rw [Option.map_map, Option.map_map]
    rfl
  · rfl

theorem idAt?_insert (h : d.insert e = .ok (i, d')) :
    d'.idAt? j = if j = i then some e.id else d.idAt? j := by
  rw [idAt?, get?_insert h, idAt?]
  split <;> rfl

theorem idAt?_remove (h : d.removable? i = some e) :
    (d.remove i).idAt? j = if j = i then none else d.idAt? j := by
  rw [idAt?, get?_remove (by rw [h]; rfl), idAt?]
  split
  · rfl
  · rw [Option.map_map]
    rfl

theorem rename_of_taken {owner : Slot} (h : d.find? id = some owner) (hne : owner ≠ i) :
    d.rename i id = .error ⟨id⟩ := by
  unfold rename
  rw [h]
  exact if_neg hne

theorem rename_of_free (h : ∀ owner, d.find? id = some owner → owner = i) :
    d.rename i id = .ok (d.modify i fun e => { e with id }) := by
  unfold rename
  cases howner : d.find? id with
  | none => rfl
  | some owner => exact if_pos (h owner howner)

theorem rename_cases (d : Diagram) (i : Slot) (id : String) :
    d.rename i id = .ok (d.modify i fun e => { e with id }) ∨ d.rename i id = .error ⟨id⟩ := by
  by_cases hother : ∃ owner, d.find? id = some owner ∧ owner ≠ i
  · obtain ⟨owner, howner, hne⟩ := hother
    exact .inr (rename_of_taken howner hne)
  · refine .inl (rename_of_free fun owner howner => ?_)
    by_contra hne
    exact hother ⟨owner, howner, hne⟩

theorem get?_of_removable? (h : d.removable? i = some e) : i ≠ root ∧ d.get? i = some e := by
  unfold removable? at h
  split at h
  · cases h
  · exact ⟨by assumption, h⟩

/-- Removing an element leaves the others removable. -/
theorem isSome_removable?_remove (h : j ≠ i) :
    ((d.remove i).removable? j).isSome = (d.removable? j).isSome := by
  by_cases hj : j = root
  · simp only [removable?, hj, if_true]
  rw [removable?_eq _ hj, removable?_eq _ hj]
  cases hi : d.removable? i with
  | none => rw [remove, hi]
  | some e => rw [get?_remove (by rw [hi]; rfl), if_neg h, Option.isSome_map]

theorem map_fst_elements (d : Diagram) : d.elements.map Prod.fst = d.select fun _ => true := by
  simp only [elements, List.map_filterMap, Option.map_map, select]
  rw [← List.filterMap_eq_filter]
  refine List.filterMap_congr fun i _ => ?_
  cases hi : d.get? i <;> simp [hi, Option.guard]

theorem find?_eq_some (h : d.find? id = some i) : d.idAt? i = some id := by
  have := List.find?_some h
  simpa [idAt?, Option.any_eq_true] using this

end Diagram

namespace Arena

open Diagram (root idAt?_eq_some idAt?_of_get? get?_of_removable?)

variable {a a' : Arena} {i j : Slot} {e : Element} {id : String} {calls : List Call}

/-- The index has the identities of the live elements, with their slots. -/
def Consistent (a : Arena) : Prop := ∀ id i, a.find? id = some i ↔ a.diagram.idAt? i = some id

theorem consistent_new : new.Consistent := by
  intro id i
  have hroot : new.diagram.get? i = if i = root then some { id := Diagram.rootId, role := .root } else none := by
    cases i with
    | zero => rfl
    | succ i => simp [new, Diagram.get?, Diagram.empty, Diagram.root]
  rw [Diagram.idAt?, hroot, find?, new, AList.lookup, AList.singleton_entries]
  by_cases hid : id = Diagram.rootId
  · subst hid
    by_cases hi : i = root
    · simp [hi]
    · simp [hi, Ne.symm hi]
  · rw [List.dlookup_cons_ne _ _ hid]
    by_cases hi : i = root
    · simp [hi, Ne.symm hid]
    · simp [hi]

namespace Consistent

/-! ## What consistency says -/

theorem found (h : a.Consistent) : a.find? id = some i ↔ ∃ e, a.diagram.get? i = some e ∧ e.id = id := by
  rw [h, idAt?_eq_some]

/-- Identities tell live elements apart. -/
theorem distinct (h : a.Consistent) : a.diagram.Distinct := by
  intro i j e e' he he' hid
  have hi := (h e.id i).mpr (idAt?_of_get? he)
  have hj := (h e.id j).mpr (by rw [hid]; exact idAt?_of_get? he')
  rw [hi] at hj
  exact Option.some.inj hj

/-- The index finds what a search of the slots finds. -/
theorem find?_eq (h : a.Consistent) (id : String) : a.find? id = a.diagram.find? id := by
  cases hfind : a.diagram.find? id with
  | some i => exact (h id i).mpr (Diagram.find?_eq_some hfind)
  | none =>
    cases hindex : a.find? id with
    | none => rfl
    | some i => exact absurd ⟨i, h.found.mp hindex⟩ (Diagram.find?_eq_none_iff.mp hfind)

theorem mem_index (h : a.Consistent) : id ∈ a.index ↔ a.diagram.Taken id := by
  rw [← AList.lookup_isSome, Option.isSome_iff_exists]
  exact exists_congr fun i => h.found

/-- The index has as many identities as there are live elements. -/
theorem size (h : a.Consistent) : a.size = a.diagram.size := by
  let ids := a.diagram.elements.map fun x => x.2.id
  have hmem : ∀ id, id ∈ a.index.keys ↔ id ∈ ids := by
    intro id
    rw [← AList.mem_keys, h.mem_index, List.mem_map, Prod.exists]
    simp only [Diagram.mem_elements, Diagram.Taken]
  have hslots : (a.diagram.elements.map Prod.fst).Nodup := by
    rw [Diagram.map_fst_elements]
    exact Diagram.nodup_select _ _
  have hids : ids.Nodup := by
    refine List.Nodup.map_on (fun x hx y hy hid => ?_) (List.Nodup.of_map Prod.fst hslots)
    have hi := Diagram.mem_elements.mp hx
    have hj := Diagram.mem_elements.mp hy
    have hij := h.distinct _ _ _ _ hi hj hid
    rw [hij, hj] at hi
    exact Prod.ext hij (Option.some.inj hi).symm
  have hperm : a.index.keys.Perm ids :=
    (List.perm_ext_iff_of_nodup a.index.keys_nodup hids).mpr hmem
  rw [Arena.size, hperm.length_eq, List.length_map, Diagram.size]

/-! ## What calls do to it -/

/-- Putting an element in keeps the index right, and goes as it does without an index. -/
theorem insert (h : a.Consistent) (e : Element) :
    (∃ a', a.insert e = .ok (a.diagram.bound, a') ∧ a'.Consistent ∧
        a.diagram.insert e = .ok (a.diagram.bound, a'.diagram)) ∨
      a.insert e = .error ⟨e.id⟩ ∧ a.diagram.insert e = .error ⟨e.id⟩ := by
  unfold Arena.insert Diagram.insert
  rw [← h.find?_eq]
  by_cases hmem : e.id ∈ a.index
  · obtain ⟨i, hi⟩ := Option.isSome_iff_exists.mp (AList.lookup_isSome.mpr hmem)
    rw [if_pos hmem, find?, hi]
    exact .inr ⟨rfl, rfl⟩
  · have hnone : a.find? e.id = none := AList.lookup_eq_none.mpr hmem
    rw [if_neg hmem, hnone]
    refine .inl ⟨_, rfl, fun id j => ?_, rfl⟩
    have hinsert : a.diagram.insert e = .ok (a.diagram.bound,
        ⟨a.diagram.slots.push (some { e with parent := some (e.parent.getD root) })⟩) := by
      rw [Diagram.insert, ← h.find?_eq, hnone]
    rw [Diagram.idAt?_insert hinsert, find?]
    -- The new slot answers to the new identity, and nothing else answers differently.
    by_cases hid : id = e.id
    · subst hid
      rw [AList.lookup_insert]
      by_cases hj : j = a.diagram.bound
      · simp [hj]
      · rw [if_neg hj, ← h, hnone]
        simp [Ne.symm hj]
    · rw [AList.lookup_insert_ne hid]
      by_cases hj : j = a.diagram.bound
      · subst hj
        rw [if_pos rfl]
        constructor
        · intro hfound
          obtain ⟨x, hx, -⟩ := h.found.mp hfound
          exact absurd (Diagram.lt_bound_of_get? hx) (Nat.lt_irrefl _)
        · intro heq
          exact absurd (Option.some.inj heq).symm hid
      · rw [if_neg hj]
        exact h id j

/-- The identities after a live element got one that no other element has. -/
theorem renamed (h : a.Consistent) (he : a.diagram.get? i = some e)
    (hfree : ∀ owner, a.find? id = some owner → owner = i) :
    Consistent ⟨a.diagram.modify i fun e => { e with id }, (a.index.erase e.id).insert id i⟩ := by
  intro k j
  have hi := idAt?_of_get? he
  show ((a.index.erase e.id).insert id i).lookup k = some j ↔
    (a.diagram.modify i fun e => { e with id }).idAt? j = some k
  rw [Diagram.idAt?_rename]
  by_cases hk : k = id
  · subst hk
    rw [AList.lookup_insert]
    by_cases hj : i = j
    · simp [← hj, hi]
    · rw [if_neg hj, ← h]
      exact iff_of_false (fun heq => hj (Option.some.inj heq)) fun hfound => hj (hfree j hfound).symm
  rw [AList.lookup_insert_ne hk]
  by_cases hj : i = j
  · -- The slot has the new identity, so nothing may lead to it but that.
    rw [if_pos hj, ← hj, hi]
    refine iff_of_false (fun hfound => ?_) fun heq => hk (Option.some.inj heq).symm
    by_cases hold : k = e.id
    · rw [hold, AList.lookup_erase] at hfound
      cases hfound
    · rw [AList.lookup_erase_ne hold] at hfound
      have := (h k i).mp hfound
      rw [hi] at this
      exact hold (Option.some.inj this).symm
  · rw [if_neg hj]
    by_cases hold : k = e.id
    · rw [hold, AList.lookup_erase]
      refine iff_of_false (fun hnone => nomatch hnone) fun hfound => hj ?_
      have hthere := (h e.id i).mpr hi
      rw [(h e.id j).mpr hfound] at hthere
      exact (Option.some.inj hthere).symm
    · rw [AList.lookup_erase_ne hold]
      exact h k j

/-- Renaming keeps the index right, and goes as it does without an index. -/
theorem rename (h : a.Consistent) (i : Slot) (id : String) :
    (∃ a', a.rename i id = .ok a' ∧ a'.Consistent ∧ a.diagram.rename i id = .ok a'.diagram) ∨
      a.rename i id = .error ⟨id⟩ ∧ a.diagram.rename i id = .error ⟨id⟩ := by
  by_cases hother : ∃ owner, a.find? id = some owner ∧ owner ≠ i
  · obtain ⟨owner, howner, hne⟩ := hother
    refine .inr ⟨?_, Diagram.rename_of_taken (by rw [← h.find?_eq]; exact howner) hne⟩
    rw [Arena.rename, howner, if_pos (by simpa using hne)]
  · have hfree : ∀ owner, a.find? id = some owner → owner = i := fun owner howner => by
      by_contra hne
      exact hother ⟨owner, howner, hne⟩
    have hdiagram := Diagram.rename_of_free (i := i) (d := a.diagram) (by rw [← h.find?_eq]; exact hfree)
    rw [Arena.rename, if_neg (by simpa [Option.any_eq_true] using hfree), hdiagram]
    left
    cases he : a.diagram.get? i with
    | some e => exact ⟨_, rfl, h.renamed he hfree, rfl⟩
    | none =>
      refine ⟨a, rfl, h, congrArg Except.ok (Diagram.modify_of_eq fun e hget => ?_)⟩
      rw [he] at hget
      cases hget

/-- Removing an element keeps the index right. -/
theorem remove (h : a.Consistent) (i : Slot) : (a.remove i).2.Consistent := by
  unfold Arena.remove
  cases hi : a.diagram.removable? i with
  | none => exact h
  | some e =>
    obtain ⟨-, he⟩ := get?_of_removable? hi
    intro id j
    show (a.index.erase e.id).lookup id = some j ↔ (a.diagram.remove i).idAt? j = some id
    rw [Diagram.idAt?_remove hi]
    by_cases hid : id = e.id
    · subst hid
      rw [AList.lookup_erase]
      by_cases hj : j = i
      · simp [hj]
      · rw [if_neg hj, ← h, (h e.id i).mpr (idAt?_of_get? he)]
        simp [Ne.symm hj]
    · rw [AList.lookup_erase_ne hid]
      by_cases hj : j = i
      · rw [if_pos hj, hj]
        refine iff_of_false (fun hfound => hid ?_) (fun hnone => nomatch hnone)
        rw [← find?, h, idAt?_of_get? he] at hfound
        exact (Option.some.inj hfound).symm
      · rw [if_neg hj]
        exact h id j

theorem removeAll (h : a.Consistent) (slots : List Slot) : (a.removeAll slots).2.Consistent := by
  induction slots generalizing a with
  | nil => exact h
  | cons i slots ih => exact ih (h.remove i)

/-- A change that leaves the identity alone needs no change of the index. -/
theorem edit (h : a.Consistent) (i : Slot) (change : Change) : (a.edit i change).Consistent := by
  intro id j
  show a.find? id = some j ↔ (a.diagram.modify i change.apply).idAt? j = some id
  rw [Diagram.idAt?_modify change.id_apply]
  exact h id j

end Consistent

/-! ## Removals with and without an index -/

theorem fst_remove (a : Arena) (i : Slot) : (a.remove i).1 = a.diagram.removable? i := by
  unfold remove
  cases a.diagram.removable? i <;> rfl

theorem diagram_remove (a : Arena) (i : Slot) : (a.remove i).2.diagram = a.diagram.remove i := by
  unfold remove
  cases hi : a.diagram.removable? i with
  | none =>
    rw [Diagram.remove, hi]
  | some e => rfl

theorem diagram_removeAll (a : Arena) (slots : List Slot) :
    (a.removeAll slots).2.diagram = slots.foldl Diagram.remove a.diagram := by
  induction slots generalizing a with
  | nil => rfl
  | cons i slots ih =>
    show ((a.remove i).2.removeAll slots).2.diagram = _
    rw [ih, diagram_remove, List.foldl_cons]

/-- None of the slots is emptied before its turn. -/
theorem fst_removeAll {slots : List Slot} (hnodup : slots.Nodup) :
    (a.removeAll slots).1 = slots.countP fun j => (a.diagram.removable? j).isSome := by
  induction slots generalizing a with
  | nil => rfl
  | cons i slots ih =>
    obtain ⟨hi, hslots⟩ := List.nodup_cons.mp hnodup
    show ((a.remove i).2.removeAll slots).1 + (a.remove i).1.toList.length = _
    rw [ih hslots, diagram_remove, fst_remove, List.countP_cons]
    have hsame : ∀ j ∈ slots, ((a.diagram.remove i).removable? j).isSome = true ↔
        (a.diagram.removable? j).isSome = true := by
      intro j hj
      rw [Diagram.isSome_removable?_remove (ne_of_mem_of_not_mem hj hi)]
    rw [List.countP_congr hsame]
    cases a.diagram.removable? i <;> rfl

/-- Removing a subtree goes as it does without an index, unless a mark is missing. -/
theorem removeSubtree_cases (a : Arena) (i : Slot) :
    (∃ slots, a.removeSubtree i = .ok (a.removeAll slots) ∧
        ((a.removeAll slots).1, (a.removeAll slots).2.diagram) = a.diagram.removeSubtree i) ∨
      ∃ fault, a.removeSubtree i = .error fault ∧ ¬ a.diagram.Issued := by
  unfold removeSubtree Diagram.removeSubtree
  cases hi : a.diagram.removable? i with
  | none => exact .inl ⟨[], rfl, rfl⟩
  | some e =>
    obtain ⟨-, he⟩ := get?_of_removable? hi
    cases hdoomed : a.diagram.doomed i with
    | error fault =>
      refine .inr ⟨fault, rfl, fun hissued => ?_⟩
      rw [Diagram.doomed_eq_ok hissued he] at hdoomed
      cases hdoomed
    | ok slots =>
      have hslots := Diagram.eq_subtree_of_doomed he hdoomed
      have hnodup : slots.Nodup := by
        rw [hslots]
        exact List.nodup_range.filter _
      refine .inl ⟨slots, rfl, ?_⟩
      rw [fst_removeAll hnodup, diagram_removeAll, hslots]

/-! ## Calls -/

/-- **Every call keeps the index right.** -/
theorem Consistent.perform (h : a.Consistent) (c : Call) : (a.perform c).2.Consistent := by
  cases c with
  | insert e =>
    rw [Arena.perform]
    rcases h.insert e with ⟨a', hok, hkept, -⟩ | ⟨hfail, -⟩
    · rw [hok]
      exact hkept
    · rw [hfail]
      exact h
  | rename i id =>
    rw [Arena.perform]
    rcases h.rename i id with ⟨a', hok, hkept, -⟩ | ⟨hfail, -⟩
    · rw [hok]
      exact hkept
    · rw [hfail]
      exact h
  | remove i => exact h.remove i
  | removeSubtree i =>
    rw [Arena.perform]
    rcases a.removeSubtree_cases i with ⟨slots, hok, -⟩ | ⟨fault, hfail, -⟩
    · rw [hok]
      exact h.removeAll slots
    · rw [hfail]
      exact h
  | edit i change => exact h.edit i change

/-- **The index changes no answer**: a call goes as it does without one, unless it looks up
a mark that is not there, which changes nothing. -/
theorem Consistent.perform_cases (h : a.Consistent) (c : Call) :
    ((a.perform c).1, (a.perform c).2.diagram) = a.diagram.perform c ∨
      (∃ fault, a.perform c = (.lost fault, a)) ∧ ¬ a.diagram.Issued := by
  cases c with
  | insert e =>
    left
    rw [Arena.perform, Diagram.perform]
    rcases h.insert e with ⟨a', hok, -, hok'⟩ | ⟨hfail, hfail'⟩
    · rw [hok, hok']
    · rw [hfail, hfail']
  | rename i id =>
    left
    rw [Arena.perform, Diagram.perform]
    rcases h.rename i id with ⟨a', hok, -, hok'⟩ | ⟨hfail, hfail'⟩
    · rw [hok, hok']
    · rw [hfail, hfail']
  | remove i =>
    left
    rw [Arena.perform, Diagram.perform]
    rw [fst_remove, diagram_remove]
  | removeSubtree i =>
    rw [Arena.perform, Diagram.perform]
    rcases a.removeSubtree_cases i with ⟨slots, hok, hsame⟩ | ⟨fault, hfail, hnot⟩
    · left
      rw [hok, ← hsame]
    · right
      rw [hfail]
      exact ⟨⟨fault, rfl⟩, hnot⟩
  | edit i change => exact .inl rfl

end Arena

namespace Diagram

variable {d : Diagram} {c : Call}

/-- A call issues the next slot or none. -/
theorem bound_perform (d : Diagram) (c : Call) :
    ((d.perform c).1.issued? = some d.bound ∧ (d.perform c).2.bound = d.bound + 1) ∨
      (d.perform c).1.issued? = none ∧ (d.perform c).2.bound = d.bound := by
  cases c with
  | insert e =>
    rw [perform]
    cases hinsert : d.insert e with
    | error e => exact .inr ⟨rfl, rfl⟩
    | ok r =>
      obtain ⟨hslot, hbound⟩ := slot_insert hinsert
      exact .inl ⟨congrArg some hslot, hbound⟩
  | rename i id =>
    right
    rw [perform]
    rcases d.rename_cases i id with hok | hfail
    · rw [hok]
      exact ⟨rfl, bound_modify d i _⟩
    · rw [hfail]
      exact ⟨rfl, rfl⟩
  | remove i => exact .inr ⟨rfl, bound_remove d i⟩
  | removeSubtree i => exact .inr ⟨rfl, bound_removeSubtree d i⟩
  | edit i change => exact .inr ⟨rfl, bound_modify d i _⟩

/-- No call takes the root out. -/
theorem isLive_root_perform (h : d.isLive root = true) (c : Call) :
    (d.perform c).2.isLive root = true := by
  cases c with
  | insert e =>
    rw [perform]
    cases hinsert : d.insert e with
    | error e => exact h
    | ok r =>
      show r.2.isLive root = true
      rw [isLive, get?_insert hinsert]
      split
      · rfl
      · exact h
  | rename i id =>
    rw [perform]
    rcases d.rename_cases i id with hok | hfail
    · rw [hok]
      exact isLive_modify.trans h
    · rw [hfail]
      exact h
  | remove i => exact isLive_root_remove h
  | removeSubtree i => exact isLive_root_removeSubtree h
  | edit i change => exact isLive_modify.trans h

/-- Parents stay issued if a call gives an element an issued parent. -/
theorem Issued.perform (h : d.Issued) (hparent : ∀ p ∈ c.parent?, p < d.bound) :
    (d.perform c).2.Issued := by
  cases c with
  | insert e =>
    rw [Diagram.perform]
    cases hinsert : d.insert e with
    | error e => exact h
    | ok r => exact h.insert hparent hinsert
  | rename i id =>
    rw [Diagram.perform]
    rcases d.rename_cases i id with hok | hfail
    · rw [hok]
      exact h.modify fun e p he hp => h i p ⟨e, he, hp⟩
    · rw [hfail]
      exact h
  | remove i => exact h.of_hasParent (bound_remove d i).ge fun _ _ => hasParent_remove
  | removeSubtree i =>
    exact h.of_hasParent (bound_removeSubtree d i).ge fun _ _ => hasParent_removeSubtree
  | edit i change =>
    refine h.modify fun e p he hp => ?_
    cases change with
    | parent q => exact hparent p hp
    | _ => exact h i p ⟨e, he, hp⟩

/-- Without an index no mark is looked up. -/
theorem lost_not_mem_run (d : Diagram) (calls : List Call) (fault : Fault) :
    .lost fault ∉ (d.run calls).1 := by
  induction calls generalizing d with
  | nil => exact List.not_mem_nil
  | cons c calls ih =>
    refine List.not_mem_cons_of_ne_of_not_mem ?_ (ih (d.perform c).2)
    cases c with
    | insert e =>
      rw [perform]
      cases d.insert e <;> exact fun heq => nomatch heq
    | rename i id =>
      rw [perform]
      cases d.rename i id <;> exact fun heq => nomatch heq
    | remove i => exact fun heq => nomatch heq
    | removeSubtree i => exact fun heq => nomatch heq
    | edit i change => exact fun heq => nomatch heq

end Diagram

namespace Arena

variable {a : Arena} {calls : List Call}

theorem Consistent.bound_perform (h : a.Consistent) (c : Call) :
    ((a.perform c).1.issued? = some a.diagram.bound ∧
        (a.perform c).2.diagram.bound = a.diagram.bound + 1) ∨
      (a.perform c).1.issued? = none ∧ (a.perform c).2.diagram.bound = a.diagram.bound := by
  rcases h.perform_cases c with hsame | ⟨⟨fault, hlost⟩, -⟩
  · have := a.diagram.bound_perform c
    rw [← hsame] at this
    exact this
  · rw [hlost]
    exact .inr ⟨rfl, rfl⟩

theorem Consistent.isLive_root_perform (h : a.Consistent)
    (hroot : a.diagram.isLive Diagram.root = true) (c : Call) :
    (a.perform c).2.diagram.isLive Diagram.root = true := by
  rcases h.perform_cases c with hsame | ⟨⟨fault, hlost⟩, -⟩
  · have := Diagram.isLive_root_perform hroot c
    rw [← hsame] at this
    exact this
  · rw [hlost]
    exact hroot

/-! ## Runs -/

theorem Consistent.run (h : a.Consistent) (calls : List Call) : (a.run calls).2.Consistent := by
  induction calls generalizing a with
  | nil => exact h
  | cons c calls ih => exact ih (h.perform c)

theorem Consistent.isLive_root_run (h : a.Consistent)
    (hroot : a.diagram.isLive Diagram.root = true) (calls : List Call) :
    (a.run calls).2.diagram.isLive Diagram.root = true := by
  induction calls generalizing a with
  | nil => exact hroot
  | cons c calls ih => exact ih (h.perform c) (h.isLive_root_perform hroot c)

/-- The slots that a run gives out are new, and each is given out once. -/
theorem Consistent.issued_run (h : a.Consistent) (calls : List Call) :
    ((a.run calls).1.filterMap Answer.issued?).Pairwise (· < ·) ∧
      ∀ i ∈ (a.run calls).1.filterMap Answer.issued?, a.diagram.bound ≤ i := by
  induction calls generalizing a with
  | nil => exact ⟨.nil, fun _ hi => nomatch hi⟩
  | cons c calls ih =>
    obtain ⟨hpairwise, hfresh⟩ := ih (h.perform c)
    rw [Arena.run, List.filterMap_cons]
    rcases h.bound_perform c with ⟨hissued, hbound⟩ | ⟨hissued, hbound⟩
    · rw [hissued]
      have hlater : ∀ i ∈ ((a.perform c).2.run calls).1.filterMap Answer.issued?,
          a.diagram.bound < i := fun i hi => by
        have := hfresh i hi
        rw [hbound] at this
        exact this
      exact ⟨List.pairwise_cons.mpr ⟨hlater, hpairwise⟩,
        List.forall_mem_cons.mpr ⟨Nat.le_refl _, fun i hi => (hlater i hi).le⟩⟩
    · rw [hissued]
      refine ⟨hpairwise, fun i hi => ?_⟩
      rw [← hbound]
      exact hfresh i hi

/-- With issued parents a run goes as it does without an index. -/
theorem Consistent.run_eq (h : a.Consistent) (hissued : a.diagram.Issued)
    (hnames : a.diagram.NamesIssued calls) :
    ((a.run calls).1, (a.run calls).2.diagram) = a.diagram.run calls := by
  induction calls generalizing a with
  | nil => rfl
  | cons c calls ih =>
    obtain ⟨hparent, hrest⟩ := hnames
    rcases h.perform_cases c with hsame | ⟨-, hnot⟩
    · have hissued' := hissued.perform hparent
      rw [← hsame] at hissued' hrest
      have := ih (h.perform c) hissued' hrest
      rw [Arena.run, Diagram.run, ← hsame, ← this]
    · exact absurd hissued hnot

/-- A call that is refused because of a taken identity changes nothing. -/
theorem perform_of_duplicate {c : Call} {e : DuplicateIdentity}
    (h : (a.perform c).1 = .duplicate e) : (a.perform c).2 = a := by
  cases c with
  | insert e =>
    rw [perform] at h ⊢
    cases hinsert : a.insert e with
    | error e => rfl
    | ok r =>
      rw [hinsert] at h
      cases h
  | rename i id =>
    rw [perform] at h ⊢
    cases hrename : a.rename i id with
    | error e => rfl
    | ok a' =>
      rw [hrename] at h
      cases h
  | remove i => cases h
  | removeSubtree i =>
    rw [perform] at h ⊢
    cases hremove : a.removeSubtree i with
    | error fault => rfl
    | ok r =>
      rw [hremove] at h
      cases h
  | edit i change => cases h

/-- Renaming an empty slot changes nothing. -/
theorem perform_rename_of_empty {i : Slot} (h : a.diagram.isLive i = false) (id : String) :
    (a.perform (.rename i id)).2 = a := by
  have hnone : a.diagram.get? i = none := by simpa [Diagram.isLive] using h
  rw [perform, rename, hnone]
  split_ifs <;> rfl

/-- **An arena is consistent after any calls.** The index finds exactly the live elements by
their identities, which tell them apart, and counts them; the root is live, and no slot is
given out twice. A call that meets a taken identity changes nothing, nor does renaming an
empty slot. As long as elements get parents that were issued, every mark is found, and
index or not makes no difference. -/
theorem run_new (calls : List Call) :
    let answers := (new.run calls).1
    let a := (new.run calls).2
    (∀ id i, a.find? id = some i ↔ ∃ e, a.diagram.get? i = some e ∧ e.id = id) ∧
      a.diagram.Distinct ∧
      a.size = (a.diagram.select fun _ => true).length ∧
      a.diagram.isLive Diagram.root = true ∧
      (Diagram.root :: answers.filterMap Answer.issued?).Pairwise (· < ·) ∧
      (∀ c e, (a.perform c).1 = .duplicate e → (a.perform c).2 = a) ∧
      (∀ i id, a.diagram.isLive i = false → (a.perform (.rename i id)).2 = a) ∧
      (Diagram.empty.NamesIssued calls →
        (∀ fault, .lost fault ∉ answers) ∧ (answers, a.diagram) = Diagram.empty.run calls) := by
  have hconsistent := consistent_new.run calls
  obtain ⟨hpairwise, hfresh⟩ := consistent_new.issued_run calls
  refine ⟨fun id i => hconsistent.found, hconsistent.distinct, ?_,
    consistent_new.isLive_root_run rfl calls, List.pairwise_cons.mpr ⟨fun i hi => ?_, hpairwise⟩,
    fun c e => perform_of_duplicate, fun i id hi => perform_rename_of_empty hi id, fun hnames => ?_⟩
  · rw [hconsistent.size, Diagram.size, ← Diagram.map_fst_elements, List.length_map]
  · exact hfresh i hi
  · have hissued : new.diagram.Issued := Diagram.pristine_empty.issued
    have hrun := consistent_new.run_eq hissued hnames
    refine ⟨fun fault => ?_, hrun⟩
    have := Diagram.lost_not_mem_run Diagram.empty calls fault
    rw [show Diagram.empty = new.diagram from rfl, ← hrun] at this
    exact this

/-- A group with a node in it and an edge to the node, and what is asked of them. -/
def errands : List Call :=
  [.insert { id := "g", role := .plain }, .insert { id := "n", role := .node .basic, parent := some 1 },
    .insert { id := "e", role := .port }, .edit 3 (.ends (some 2) none), .rename 2 "g",
    .insert { id := "n", role := .plain }, .removeSubtree 1, .rename 2 "m",
    .insert { id := "n", role := .plain }, .edit 3 (.parent (some 2))]

/-- Identities that are taken are refused, until the element that has them is removed. -/
theorem run_new_errands :
    Diagram.empty.NamesIssued errands ∧
      ((new.run errands).1, (new.run errands).2.diagram) = Diagram.empty.run errands ∧
      (Diagram.empty.run errands).1 = [.issued 1, .issued 2, .issued 3, .done, .duplicate ⟨"g"⟩,
        .duplicate ⟨"n"⟩, .count 2, .done, .issued 4, .done] := by
  have hnames : Diagram.empty.NamesIssued errands := of_decide_eq_true (by cbv)
  exact ⟨hnames, ((run_new errands).2.2.2.2.2.2.2 hnames).2, by cbv⟩

end Arena

end Netlist
