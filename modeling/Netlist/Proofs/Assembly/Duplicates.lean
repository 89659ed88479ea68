import Netlist.Assembly.Duplicates
import Netlist.Proofs.Diagram.Children
import Netlist.Proofs.Element.Role

/-!
# What duplicates have in common

An interface is marked with an earlier one of the same signature. Here it is
said which interfaces those are, and what of a signature survives when other
parts of the diagram change.

- `mem_duplicates`: a duplicate and the interface it is marked with are from the
  list and have one signature.
- `members_congr`: the nodes of a signature are read off the children alone.
- `markDuplicates_frame`, `pick_markDuplicates`: marking changes nothing but marks,
  and no signature.
-/

namespace Netlist.Assembly

variable {d d' : Diagram} {i c first : Slot}

/-- A duplicate and the interface that stands for it have the same signature. -/
theorem mem_pairDuplicates {firsts interfaces : List Slot}
    (h : (i, first) ∈ pairDuplicates d firsts interfaces) :
    i ∈ interfaces ∧ (first ∈ firsts ∨ first ∈ interfaces) ∧ signature d first = signature d i := by
  induction interfaces generalizing firsts with
  | nil => cases h
  | cons j interfaces ih =>
    rw [pairDuplicates] at h
    split at h
    · rename_i found hfind
      rcases List.mem_cons.mp h with heq | h
      · cases heq
        have hsign := List.find?_some hfind
        rw [beq_iff_eq] at hsign
        exact ⟨List.mem_cons_self, .inl (List.mem_of_find?_eq_some hfind), hsign⟩
      · obtain ⟨hi, hfirst, hsign⟩ := ih h
        refine ⟨List.mem_cons_of_mem j hi, ?_, hsign⟩
        exact hfirst.imp id (List.mem_cons_of_mem j)
    · obtain ⟨hi, hfirst, hsign⟩ := ih h
      refine ⟨List.mem_cons_of_mem j hi, ?_, hsign⟩
      rcases hfirst with hfirst | hfirst
      · rcases List.mem_append.mp hfirst with hfirst | hfirst
        · exact .inl hfirst
        · rw [List.mem_singleton.mp hfirst]
          exact .inr List.mem_cons_self
      · exact .inr (List.mem_cons_of_mem j hfirst)

theorem mem_duplicates {interfaces : List Slot} (h : (i, first) ∈ duplicates d interfaces) :
    i ∈ interfaces ∧ first ∈ interfaces ∧ signature d first = signature d i := by
  obtain ⟨hi, hfirst, hsign⟩ := mem_pairDuplicates h
  refine ⟨hi, hfirst.resolve_left ?_, hsign⟩
  exact fun hmem => nomatch hmem

/-! ## Signatures -/

/-- What a signature reads off a child. -/
def memberAt (_ : Slot) (e : Element) : Option MemberSign := memberSign? e

theorem members_signature (d : Diagram) (c : Slot) :
    (signature d c).members =
      ((d.children c).filterMap fun i => (d.get? i).bind (memberAt i)).mergeSort MemberSign.le :=
  rfl

/-- **The nodes of a signature are read off the children alone.** -/
theorem members_congr (h : ∀ i, d'.pick c memberAt i = d.pick c memberAt i) :
    (signature d' c).members = (signature d c).members := by
  rw [members_signature, members_signature, Diagram.filterMap_children_congr h]

/-- A sign is read off the role and the fields, but not off the ends. -/
theorem memberSign?_congr {e e' : Element} (hkind : e'.nodeKind? = e.nodeKind?)
    (hlabel : e'.label = e.label) (hfields : e'.fields = e.fields) :
    memberSign? e' = memberSign? e := by
  rw [memberSign?, memberSign?, Element.key?, Element.key?, hkind, hlabel, hfields]

/-- A sign does not look at ends. -/
theorem pick_memberAt (d : Diagram) (c i : Slot) : d.pick c memberAt i =
    (d.core? i).bind fun x => if x.parent = some c ∧ i ≠ c then memberSign? x else none := by
  rw [Diagram.pick, Diagram.core?, Option.bind_map]
  rfl

theorem pick_memberAt_congr (h : d'.core? i = d.core? i) :
    d'.pick c memberAt i = d.pick c memberAt i := by
  rw [pick_memberAt, pick_memberAt, h]

/-- **Signatures are the same if the children are**, in whatever slots. -/
theorem signature_congr {f : Slot → Slot} {a : Slot}
    (hchildren : d'.children (f a) = (d.children a).map f)
    (hlabel : (d'.get? (f a)).map Element.label = (d.get? a).map Element.label)
    (hsign : ∀ i ∈ d.children a, (d'.get? (f i)).bind memberSign? = (d.get? i).bind memberSign?) :
    signature d' (f a) = signature d a := by
  simp only [signature, Signature.mk.injEq, hchildren, List.length_map, hlabel, true_and]
  congr 1
  rw [List.filterMap_map]
  exact List.filterMap_congr fun i hi => hsign i hi

/-! ## Pairs -/

/-- Every interface is paired once at most. -/
theorem keys_pairDuplicates (d : Diagram) (firsts interfaces : List Slot) :
    ((pairDuplicates d firsts interfaces).map Prod.fst).Sublist interfaces := by
  induction interfaces generalizing firsts with
  | nil => exact .slnil
  | cons i interfaces ih =>
    rw [pairDuplicates]
    split
    · exact (ih firsts).cons_cons i
    · exact (ih (firsts ++ [i])).cons i

theorem nodup_keys_duplicates {interfaces : List Slot} (h : interfaces.Nodup) :
    ((duplicates d interfaces).map Prod.fst).Nodup :=
  h.sublist (keys_pairDuplicates d [] interfaces)

/-- The same interfaces are paired if signatures are the same, in whatever slots. -/
theorem pairDuplicates_map {f : Slot → Slot} {firsts interfaces : List Slot}
    (h : ∀ i, i ∈ firsts ∨ i ∈ interfaces → signature d' (f i) = signature d i) :
    pairDuplicates d' (firsts.map f) (interfaces.map f) =
      (pairDuplicates d firsts interfaces).map (Prod.map f f) := by
  induction interfaces generalizing firsts with
  | nil => rfl
  | cons i interfaces ih =>
    have hfind : ((firsts.map f).find? fun first => signature d' first == signature d' (f i)) =
        (firsts.find? fun first => signature d first == signature d i).map f := by
      rw [List.find?_map]
      congr 1
      refine List.find?_congr fun first hfirst => ?_
      rw [Function.comp_apply, h first (.inl hfirst), h i (.inr List.mem_cons_self)]
    rw [List.map_cons, pairDuplicates, pairDuplicates, hfind]
    cases firsts.find? fun first => signature d first == signature d i with
    | some first =>
      simp only [Option.map_some, List.map_cons]
      rw [ih fun j hj => h j (hj.imp id (List.mem_cons_of_mem i))]
      rfl
    | none =>
      simp only [Option.map_none]
      rw [← ih fun j hj => h j ?_, List.map_append]
      · rfl
      · rcases hj with hj | hj
        · rcases List.mem_append.mp hj with hj | hj
          · exact .inl hj
          · rw [List.mem_singleton.mp hj]
            exact .inr List.mem_cons_self
        · exact .inr (List.mem_cons_of_mem i hj)

theorem duplicates_map {f : Slot → Slot} {interfaces : List Slot}
    (h : ∀ i ∈ interfaces, signature d' (f i) = signature d i) :
    duplicates d' (interfaces.map f) = (duplicates d interfaces).map (Prod.map f f) :=
  @pairDuplicates_map d d' f [] interfaces fun i hi => h i (hi.resolve_left List.not_mem_nil)

/-! ## Marking -/

/-- The element with a mark, if it is an interface. -/
def mark (first : Slot) (e : Element) : Element := { e with role := e.role.setDuplicateOf first }

theorem bound_markDuplicates (pairs : List (Slot × Slot)) (d : Diagram) :
    (markDuplicates pairs d).bound = d.bound := by
  rw [markDuplicates]
  induction pairs generalizing d with
  | nil => rfl
  | cons p pairs ih => rw [List.foldl_cons, ih, Diagram.bound_modify]

/-- **Marking changes nothing but marks**: an element stays as it is, or gets the
mark of one of the pairs. -/
theorem markDuplicates_frame (pairs : List (Slot × Slot)) (d : Diagram) (i : Slot) :
    (markDuplicates pairs d).get? i = d.get? i ∨
      ∃ first, (i, first) ∈ pairs ∧ (markDuplicates pairs d).get? i = (d.get? i).map (mark first) := by
  induction pairs generalizing d with
  | nil => exact .inl rfl
  | cons p pairs ih =>
    obtain ⟨j, a⟩ := p
    have hstep : (d.modify j (mark a)).get? i = if j = i then (d.get? i).map (mark a) else d.get? i :=
      Diagram.get?_modify d j i (mark a)
    have hcons : markDuplicates ((j, a) :: pairs) d = markDuplicates pairs (d.modify j (mark a)) := rfl
    rw [hcons]
    rcases ih (d.modify j (mark a)) with hsame | ⟨first, hfirst, hmark⟩
    · by_cases hji : j = i
      · subst hji
        exact .inr ⟨a, List.mem_cons_self, by rw [hsame, hstep, if_pos rfl]⟩
      · exact .inl (by rw [hsame, hstep, if_neg hji])
    · refine .inr ⟨first, List.mem_cons_of_mem _ hfirst, ?_⟩
      rw [hmark, hstep]
      by_cases hji : j = i
      · rw [if_pos hji, Option.map_map]
        congr 1
        funext e
        show { e with role := (e.role.setDuplicateOf a).setDuplicateOf first } = mark first e
        rw [Role.setDuplicateOf_setDuplicateOf]
        rfl
      · rw [if_neg hji]

/-- What marking does to an element without its ends. -/
theorem core?_markDuplicates (pairs : List (Slot × Slot)) (d : Diagram) (j : Slot) :
    (markDuplicates pairs d).core? j = d.core? j ∨
      ∃ first, (j, first) ∈ pairs ∧
        (markDuplicates pairs d).core? j = (d.core? j).map (mark first) := by
  rcases markDuplicates_frame pairs d j with hsame | ⟨first, hfirst, hmark⟩
  · exact .inl (by rw [Diagram.core?, hsame, Diagram.core?])
  · refine .inr ⟨first, hfirst, ?_⟩
    rw [Diagram.core?, hmark, Diagram.core?, Option.map_map, Option.map_map]
    rfl

/-- Marks do not change what a signature reads off a slot. -/
theorem pick_markDuplicates (pairs : List (Slot × Slot)) (d : Diagram) (c i : Slot) :
    (markDuplicates pairs d).pick c memberAt i = d.pick c memberAt i := by
  rcases markDuplicates_frame pairs d i with hsame | ⟨first, -, hmark⟩
  · exact pick_memberAt_congr (by rw [Diagram.core?, hsame, Diagram.core?])
  · rw [Diagram.pick, hmark, Option.bind_map, Diagram.pick]
    cases d.get? i with
    | none => rfl
    | some e =>
      have hsign : memberSign? (mark first e) = memberSign? e :=
        memberSign?_congr (Role.nodeKind?_setDuplicateOf first e.role) rfl rfl
      show (if e.parent = some c ∧ i ≠ c then memberSign? (mark first e) else none) = _
      rw [hsign]
      rfl

theorem hasParent_markDuplicates {pairs : List (Slot × Slot)} {p : Slot} :
    (markDuplicates pairs d).HasParent i p ↔ d.HasParent i p := by
  rcases markDuplicates_frame pairs d i with hsame | ⟨first, -, hmark⟩
  · rw [Diagram.HasParent, hsame, Diagram.HasParent]
  · rw [Diagram.HasParent, hmark, Diagram.HasParent]
    constructor
    · rintro ⟨e, he, hp⟩
      obtain ⟨e₀, he₀, rfl⟩ := Option.map_eq_some_iff.mp he
      exact ⟨e₀, he₀, hp⟩
    · rintro ⟨e, he, hp⟩
      exact ⟨mark first e, by rw [he, Option.map_some], hp⟩

theorem inside_markDuplicates {pairs : List (Slot × Slot)} :
    (markDuplicates pairs d).Inside i c ↔ d.Inside i c := by
  constructor
  · exact Relation.TransGen.mono (fun _ _ hp => hasParent_markDuplicates.mp hp) i c
  · exact Relation.TransGen.mono (fun _ _ hp => hasParent_markDuplicates.mpr hp) i c

end Netlist.Assembly
