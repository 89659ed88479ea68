import Mathlib.Data.List.NodupEquivFin
import Mathlib.Data.Prod.Lex
import Mathlib.Data.String.Basic
import Netlist.Proofs.Assembly.Nested

/-!
# Matching up to the order of members

A signature sorts the signs of the nodes of an interface, so that interfaces can be compared
whatever the order of their nodes. Here it is said what equal signatures come to, and which
interfaces of a list are kept and which are paired when duplicates are looked for.

- `MemberSign.le_iff`: member signs are in the order of triples of strings.
- `map_perm_map_iff_equiv`: lists that show the same things, and bijections between them.
- `signature_eq_iff`: **signatures are equal iff the nodes can be matched**, one for one.
- `FirstOf`: the first listed interface with a signature.
- `mem_duplicates_iff`, `mem_distinct_iff`: which interfaces are paired, and which are kept.
- `signatures_match`: both together.
-/

namespace Netlist.Assembly

variable {d : Diagram} {a b i j first : Slot} {e e' : Element} {interfaces : List Slot}

/-! ## The order of members -/

/-- A member sign as a triple. Triples are compared from left to right. -/
def MemberSign.triple (s : MemberSign) : String ×ₗ String ×ₗ String :=
  toLex (s.key, toLex (s.kind, s.label))

theorem MemberSign.triple_injective : Function.Injective MemberSign.triple := by
  rintro ⟨key, kind, label⟩ ⟨key', kind', label'⟩ h
  simpa [MemberSign.triple] using h

/-- **Member signs are in the order of their triples.** -/
theorem MemberSign.le_iff {s s' : MemberSign} : s.le s' = true ↔ s.triple ≤ s'.triple := by
  simp only [MemberSign.triple, Prod.Lex.toLex_le_toLex]
  rw [MemberSign.le]
  by_cases hkey : s.key = s'.key
  · by_cases hkind : s.kind = s'.kind
    · simp [hkey, hkind]
    · simp [hkey, hkind, lt_iff_le_and_ne]
  · simp [hkey, lt_iff_le_and_ne]

/-- **Members come out in the same order iff they are the same**, each as often. -/
theorem mergeSort_members_eq_iff {ss ss' : List MemberSign} :
    ss.mergeSort MemberSign.le = ss'.mergeSort MemberSign.le ↔ ss.Perm ss' := by
  have htrans : ∀ s₁ s₂ s₃ : MemberSign, s₁.le s₂ = true → s₂.le s₃ = true → s₁.le s₃ = true := by
    intro s₁ s₂ s₃
    simp only [MemberSign.le_iff]
    exact le_trans
  have htotal : ∀ s₁ s₂ : MemberSign, (s₁.le s₂ || s₂.le s₁) = true := by
    intro s₁ s₂
    rw [Bool.or_eq_true, MemberSign.le_iff, MemberSign.le_iff]
    exact le_total s₁.triple s₂.triple
  constructor
  · intro h
    exact (List.mergeSort_perm ss _).symm.trans (h ▸ List.mergeSort_perm ss' _)
  · intro h
    refine List.Perm.eq_of_pairwise (fun s s' _ _ hle hle' => ?_)
      (List.pairwise_mergeSort htrans htotal ss) (List.pairwise_mergeSort htrans htotal ss')
      ((List.mergeSort_perm ss _).trans (h.trans (List.mergeSort_perm ss' _).symm))
    exact MemberSign.triple_injective
      (le_antisymm (MemberSign.le_iff.mp hle) (MemberSign.le_iff.mp hle'))

/-! ## Bijections -/

/-- **Lists without repetitions show the same things, each as often, iff there is a bijection
between their items that keeps what they show.** -/
theorem map_perm_map_iff_equiv {α β γ : Type} [DecidableEq α] [DecidableEq β] {as : List α}
    {bs : List β} (has : as.Nodup) (hbs : bs.Nodup) (f : α → γ) (g : β → γ) :
    (as.map f).Perm (bs.map g) ↔
      ∃ φ : {a // a ∈ as} ≃ {b // b ∈ bs}, ∀ a, g (φ a).1 = f a.1 := by
  constructor
  · intro h
    -- put the second list into an order that shows the same things in the same places
    obtain ⟨cs, hsame, hperm⟩ : ∃ cs : List β, as.map f = cs.map g ∧ cs.Perm bs := by
      have hcomp := congrFun (congrFun (List.eq_map_comp_perm g) (as.map f)) bs
      exact hcomp.mpr h
    have hlength : as.length = cs.length := by simpa using congrArg List.length hsame
    have hcs : cs.Nodup := hperm.nodup_iff.mpr hbs
    refine ⟨(List.Nodup.getEquiv as has).symm.trans ((finCongr hlength).trans
      ((List.Nodup.getEquiv cs hcs).trans (Equiv.subtypeEquivRight fun b => hperm.mem_iff))),
      fun a => ?_⟩
    obtain ⟨k, rfl⟩ := (List.Nodup.getEquiv as has).surjective a
    have hlt : k.1 < cs.length := k.2.trans_eq hlength
    have hplace : (as.map f)[k.1]? = (cs.map g)[k.1]? := by rw [hsame]
    rw [List.getElem?_map, List.getElem?_map, List.getElem?_eq_getElem k.2,
      List.getElem?_eq_getElem hlt, Option.map_some, Option.map_some, Option.some.injEq] at hplace
    simpa using hplace.symm
  · rintro ⟨φ, hφ⟩
    -- the images are all of the second list, in another order
    have hperm : (as.attach.map fun a => (φ a).1).Perm bs := by
      refine (List.perm_ext_iff_of_nodup ?_ hbs).mpr fun b => ?_
      · exact (List.nodup_attach.mpr has).map (Subtype.val_injective.comp φ.injective)
      · rw [List.mem_map]
        constructor
        · rintro ⟨a, -, rfl⟩
          exact (φ a).2
        · exact fun hb => ⟨φ.symm ⟨b, hb⟩, List.mem_attach _ _, by rw [φ.apply_symm_apply]⟩
    have hsame : as.map f = (as.attach.map fun a => (φ a).1).map g := by
      rw [List.map_map, ← List.attach_map_val]
      exact List.map_congr_left fun a _ => (hφ a).symm
    rw [hsame]
    exact hperm.map g

/-! ## Nodes that match -/

/-- Two nodes have the same key, or none or an empty one, the same subtype and the same label. -/
structure SameMember (e e' : Element) : Prop where
  key : e'.key?.getD "" = e.key?.getD ""
  kind : e'.nodeKind? = e.nodeKind?
  label : e'.label = e.label

theorem injective_nodeKindName : Function.Injective NodeKind.name := by
  intro k k' h
  have hback := congrArg NodeKind.ofName? h
  rwa [NodeKind.ofName?_name, NodeKind.ofName?_name, Option.some.injEq] at hback

/-- Nodes match iff they have the same sign. -/
theorem memberSign?_eq_iff (hnode : e.nodeKind?.isSome = true) (hnode' : e'.nodeKind?.isSome = true) :
    memberSign? e' = memberSign? e ↔ SameMember e e' := by
  obtain ⟨kind, hkind⟩ := Option.isSome_iff_exists.mp hnode
  obtain ⟨kind', hkind'⟩ := Option.isSome_iff_exists.mp hnode'
  rw [memberSign?, memberSign?, hkind, hkind', Option.map_some, Option.map_some, Option.some.injEq,
    MemberSign.mk.injEq]
  constructor
  · rintro ⟨hkey, hname, hlabel⟩
    exact ⟨hkey, by rw [hkind, hkind', injective_nodeKindName hname], hlabel⟩
  · rintro ⟨hkey, hsame, hlabel⟩
    rw [hkind, hkind', Option.some.injEq] at hsame
    exact ⟨hkey, by rw [hsame], hlabel⟩

theorem nodup_nodesOf (d : Diagram) (a : Slot) : (nodesOf d a).Nodup :=
  List.Nodup.of_map Prod.fst ((sorted_nodesOf d a).imp Nat.ne_of_lt)

/-- The signs of the nodes of an interface, before they are sorted. -/
def signsOf (d : Diagram) (a : Slot) : List MemberSign :=
  (d.children a).filterMap fun i => (d.get? i).bind memberSign?

theorem map_some_signsOf (d : Diagram) (a : Slot) :
    (signsOf d a).map some = (nodesOf d a).map fun n => memberSign? n.2 := by
  rw [signsOf, nodesOf, List.map_filterMap, List.map_filterMap]
  refine List.filterMap_congr fun i _ => ?_
  cases he : d.get? i with
  | none => rfl
  | some e => cases hkind : e.nodeKind? <;> simp [Option.filter, memberSign?, hkind]

/-- Two interfaces have the same label and equally many children, and their nodes can be
matched one for one. -/
structure Matching (d : Diagram) (a b : Slot) : Prop where
  label : (d.get? b).map Element.label = (d.get? a).map Element.label
  children : (d.children b).length = (d.children a).length
  nodes : ∃ φ : {n // n ∈ nodesOf d a} ≃ {n // n ∈ nodesOf d b}, ∀ n, SameMember n.1.2 (φ n).1.2

/-- **Signatures are equal iff the nodes can be matched.** -/
theorem signature_eq_iff (ha : d.get? a = some e) (hb : d.get? b = some e') :
    signature d a = signature d b ↔ Matching d a b := by
  have hmembers : (signature d a).members = (signature d b).members ↔
      ∃ φ : {n // n ∈ nodesOf d a} ≃ {n // n ∈ nodesOf d b}, ∀ n, SameMember n.1.2 (φ n).1.2 := by
    show (signsOf d a).mergeSort MemberSign.le = (signsOf d b).mergeSort MemberSign.le ↔ _
    rw [mergeSort_members_eq_iff, ← List.map_perm_map_iff (Option.some_injective MemberSign),
      map_some_signsOf, map_some_signsOf,
      map_perm_map_iff_equiv (nodup_nodesOf d a) (nodup_nodesOf d b)]
    refine exists_congr fun φ => forall_congr' fun n => ?_
    obtain ⟨-, -, -, hnode⟩ := mem_nodesOf.mp n.2
    obtain ⟨-, -, -, hnode'⟩ := mem_nodesOf.mp (φ n).2
    exact memberSign?_eq_iff hnode hnode'
  have hlabel : (signature d a).label = (signature d b).label ↔
      (d.get? b).map Element.label = (d.get? a).map Element.label := by
    rw [signature, signature, ha, hb]
    simp only [Option.map_some, Option.getD_some, Option.some.injEq]
    exact eq_comm
  constructor
  · intro h
    exact ⟨hlabel.mp (congrArg Signature.label h), (congrArg Signature.children h).symm,
      hmembers.mp (congrArg Signature.members h)⟩
  · rintro ⟨hsame, hchildren, hnodes⟩
    have hlabels := hlabel.mpr hsame
    have hsorted := hmembers.mpr hnodes
    rw [signature, signature, Signature.mk.injEq]
    exact ⟨hlabels, hchildren.symm, hsorted⟩

/-! ## The first of a signature -/

/-- The first interface of a list with the signature of `i`. -/
def FirstOf (d : Diagram) (interfaces : List Slot) (i first : Slot) : Prop :=
  signature d first = signature d i ∧
    ∃ before after, interfaces = before ++ first :: after ∧
      ∀ j ∈ before, signature d j ≠ signature d i

/-- The search for the first interface with the signature of `i`. -/
def first? (d : Diagram) (interfaces : List Slot) (i : Slot) : Option Slot :=
  interfaces.find? fun j => signature d j == signature d i

theorem first?_eq_some : first? d interfaces i = some first ↔ FirstOf d interfaces i first := by
  rw [first?, List.find?_eq_some_iff_append]
  simp [FirstOf]

theorem first?_append (d : Diagram) (l l' : List Slot) (i : Slot) :
    first? d (l ++ l') i = (first? d l i).or (first? d l' i) :=
  List.find?_append

/-- An interface in front of a list is the first of its own signature. -/
theorem first?_cons_self (d : Diagram) (i : Slot) (l : List Slot) : first? d (i :: l) i = some i := by
  rw [first?, List.find?_cons, beq_self_eq_true]

theorem FirstOf.mem (h : FirstOf d interfaces i first) : first ∈ interfaces := by
  obtain ⟨-, before, after, rfl, -⟩ := h
  exact List.mem_append_right _ List.mem_cons_self

theorem FirstOf.unique {first' : Slot} (h : FirstOf d interfaces i first)
    (h' : FirstOf d interfaces i first') : first = first' :=
  Option.some.inj ((first?_eq_some.mpr h).symm.trans (first?_eq_some.mpr h'))

/-- What is the first of a signature is so of its own. -/
theorem FirstOf.self (h : FirstOf d interfaces i first) : FirstOf d interfaces first first := by
  obtain ⟨hsame, before, after, heq, hbefore⟩ := h
  exact ⟨rfl, before, after, heq, fun j hj => hsame ▸ hbefore j hj⟩

theorem exists_firstOf (hi : i ∈ interfaces) : ∃ first, FirstOf d interfaces i first := by
  obtain ⟨before, after, rfl⟩ := List.append_of_mem hi
  cases hfound : first? d before i with
  | some first => exact ⟨first, first?_eq_some.mp (by rw [first?_append, hfound, Option.some_or])⟩
  | none =>
    exact ⟨i, first?_eq_some.mp (by rw [first?_append, hfound, Option.none_or, first?_cons_self])⟩

/-! ## Keeping and pairing -/

/-- **An interface is paired with the first of its signature in front of it.** The first ones
so far stand for all interfaces so far. -/
theorem mem_pairDuplicates_iff {firsts : List Slot} (seen : List Slot)
    (hseen : ∀ k, first? d firsts k = first? d seen k) :
    (i, first) ∈ pairDuplicates d firsts interfaces ↔ ∃ before after,
      interfaces = before ++ i :: after ∧ first? d (seen ++ before) i = some first := by
  -- on the interfaces to come; every one of them moves to those so far
  induction interfaces generalizing firsts seen with
  | nil => simp [pairDuplicates]
  | cons j rest ih =>
    -- the interface in question is the next one, or comes later
    have hstep : (∃ before after, j :: rest = before ++ i :: after ∧
        first? d (seen ++ before) i = some first) ↔
          (i = j ∧ first? d seen i = some first) ∨ ∃ before after, rest = before ++ i :: after ∧
            first? d ((seen ++ [j]) ++ before) i = some first := by
      constructor
      · rintro ⟨before, after, heq, hfound⟩
        rcases List.cons_eq_append_iff.mp heq with ⟨rfl, hhead⟩ | ⟨before', rfl, hrest⟩
        · cases hhead
          exact .inl ⟨rfl, by rwa [List.append_nil] at hfound⟩
        · exact .inr ⟨before', after, hrest, by rwa [List.append_assoc, List.singleton_append]⟩
      · rintro (⟨rfl, hfound⟩ | ⟨before, after, rfl, hfound⟩)
        · exact ⟨[], rest, rfl, by rwa [List.append_nil]⟩
        · exact ⟨j :: before, after, rfl, by rwa [List.append_assoc, List.singleton_append] at hfound⟩
    rw [hstep, pairDuplicates]
    cases hfind : first? d firsts j with
    | some stand =>
      -- the next one has a first already, so searches go on as before
      have hkeep : ∀ k, first? d firsts k = first? d (seen ++ [j]) k := by
        intro k
        rw [hseen, first?_append]
        by_cases hsame : signature d j = signature d k
        · have hk : first? d seen k = some stand := by
            rw [← hfind, hseen, first?, first?, hsame]
          rw [hk, Option.some_or]
        · have hnot : first? d [j] k = none := by simp [first?, hsame]
          rw [hnot, Option.or_none]
      rw [first?] at hfind
      rw [hfind]
      simp only [List.mem_cons, Prod.mk.injEq, ih (seen ++ [j]) hkeep]
      refine or_congr_left (and_congr_right fun hij => ?_)
      rw [← hseen, hij, first?, hfind, Option.some.injEq, eq_comm]
    | none =>
      -- the next one is a first itself, and is paired with nothing
      have hkeep : ∀ k, first? d (firsts ++ [j]) k = first? d (seen ++ [j]) k := by
        intro k
        rw [first?_append, first?_append, hseen]
      have hnot : ¬ (i = j ∧ first? d seen i = some first) := by
        rintro ⟨rfl, hfound⟩
        rw [← hseen, hfind] at hfound
        cases hfound
      rw [first?] at hfind
      rw [hfind, or_iff_right hnot]
      exact ih (seen ++ [j]) hkeep

/-- **Which interfaces are paired**: those that are not the first of their signature, each with
the first one. -/
theorem mem_duplicates_iff (hnodup : interfaces.Nodup) : (i, first) ∈ duplicates d interfaces ↔
    i ∈ interfaces ∧ FirstOf d interfaces i first ∧ i ≠ first := by
  have hpair : (i, first) ∈ duplicates d interfaces ↔ ∃ before after,
      interfaces = before ++ i :: after ∧ first? d before i = some first :=
    mem_pairDuplicates_iff [] fun k => rfl
  rw [hpair]
  constructor
  · rintro ⟨before, after, rfl, hfound⟩
    have hfirst : first ∈ before := (first?_eq_some.mp hfound).mem
    refine ⟨List.mem_append_right _ List.mem_cons_self, first?_eq_some.mp ?_, ?_⟩
    · rw [first?_append, hfound, Option.some_or]
    · rintro rfl
      exact (List.nodup_append.mp hnodup).2.2 i hfirst i List.mem_cons_self rfl
  · rintro ⟨hi, hfirst, hne⟩
    obtain ⟨before, after, rfl⟩ := List.append_of_mem hi
    refine ⟨before, after, rfl, ?_⟩
    -- were nothing found before `i`, it would be its own first
    have hfound := first?_eq_some.mpr hfirst
    rw [first?_append, first?_cons_self] at hfound
    cases hbefore : first? d before i with
    | some found => rwa [hbefore] at hfound
    | none =>
      rw [hbefore, Option.none_or, Option.some.injEq] at hfound
      exact absurd hfound hne

theorem mem_distinct : i ∈ distinct d interfaces ↔
    i ∈ interfaces ∧ i ∉ (duplicates d interfaces).map Prod.fst := by
  rw [distinct, List.mem_filter, Bool.not_eq_true', ← Bool.not_eq_true, List.contains_iff_mem]

/-- **Which interfaces are kept**: the first ones of their signatures. -/
theorem mem_distinct_iff (hnodup : interfaces.Nodup) :
    i ∈ distinct d interfaces ↔ FirstOf d interfaces i i := by
  rw [mem_distinct]
  constructor
  · rintro ⟨hi, hnot⟩
    obtain ⟨first, hfirst⟩ := exists_firstOf (d := d) hi
    by_cases hne : i = first
    · exact hne ▸ hfirst
    · have hpair := (mem_duplicates_iff hnodup).mpr ⟨hi, hfirst, hne⟩
      exact absurd (List.mem_map_of_mem hpair) hnot
  · intro hself
    refine ⟨hself.mem, fun hkey => ?_⟩
    obtain ⟨⟨k, first⟩, hmem, rfl⟩ := List.mem_map.mp hkey
    obtain ⟨-, hfirst, hne⟩ := (mem_duplicates_iff hnodup).mp hmem
    exact hne (hself.unique hfirst)

/-- What becomes of the interfaces of a list: some are kept, and the others are paired. -/
structure Split (d : Diagram) (interfaces kept : List Slot) (pairs : List (Slot × Slot)) :
    Prop where
  /-- What is kept is in the order of the list. -/
  keptInOrder : kept.Sublist interfaces
  /-- What is paired is in the order of the list. -/
  pairedInOrder : (pairs.map Prod.fst).Sublist interfaces
  /-- The first interface of every signature is kept. -/
  firsts : ∀ i, i ∈ kept ↔ FirstOf d interfaces i i
  /-- Every other one is paired with the first of its signature. -/
  others : ∀ i first, (i, first) ∈ pairs ↔
    i ∈ interfaces ∧ FirstOf d interfaces i first ∧ i ≠ first
  /-- Every interface is kept or paired, and only once. -/
  once : (kept ++ pairs.map Prod.fst).Perm interfaces

theorem split_interfaces (hnodup : interfaces.Nodup) :
    Split d interfaces (distinct d interfaces) (duplicates d interfaces) where
  keptInOrder := List.filter_sublist
  pairedInOrder := keys_pairDuplicates d [] interfaces
  firsts := fun _ => mem_distinct_iff hnodup
  others := fun _ _ => mem_duplicates_iff hnodup
  once := by
    have hdisjoint : (distinct d interfaces).Disjoint ((duplicates d interfaces).map Prod.fst) :=
      List.disjoint_left.mpr fun _ hi => (mem_distinct.mp hi).2
    have hboth : (distinct d interfaces ++ (duplicates d interfaces).map Prod.fst).Nodup :=
      List.nodup_append'.mpr ⟨hnodup.filter _, nodup_keys_duplicates hnodup, hdisjoint⟩
    refine (List.perm_ext_iff_of_nodup hboth hnodup).mpr fun i => ?_
    rw [List.mem_append, mem_distinct]
    constructor
    · rintro (⟨hi, -⟩ | hi)
      · exact hi
      · exact (keys_pairDuplicates d [] interfaces).subset hi
    · intro hi
      by_cases hkey : i ∈ (duplicates d interfaces).map Prod.fst
      · exact .inr hkey
      · exact .inl ⟨hi, hkey⟩

/-- **Duplicates match up to the order of their nodes.** Two live interfaces have one signature
iff they have the same label, equally many children, and nodes that can be matched one for one;
and of every list without repetitions the first of each signature is kept, in order, and every
other one is paired with it. -/
theorem signatures_match (d : Diagram) :
    (∀ a b e e', d.get? a = some e → d.get? b = some e' →
      (signature d a = signature d b ↔ Matching d a b)) ∧
    ∀ interfaces : List Slot, interfaces.Nodup →
      Split d interfaces (distinct d interfaces) (duplicates d interfaces) :=
  ⟨fun _ _ _ _ ha hb => signature_eq_iff ha hb, fun _ hnodup => split_interfaces hnodup⟩

/-- Three interfaces with one label, of which the first two have the same nodes in another
order, and the third has a node with another key. -/
def terrace : Diagram :=
  let node (key : String) (parent : Slot) : Element :=
    { id := "node", role := .node .basic, label := "0", parent := some parent,
      fields := Fields.ofList [(Element.keyField, key)] }
  diagramOf
    [{ id := "root", role := .root },
      { id := "i", role := .interface ⟨none, none⟩, label := "East", parent := some 0 },
      { id := "j", role := .interface ⟨none, none⟩, label := "East", parent := some 0 },
      { id := "k", role := .interface ⟨none, none⟩, label := "East", parent := some 0 },
      node "in" 1, node "out" 1, node "out" 2, node "in" 2, node "in" 3, node "off" 3]

/-- The second interface is paired with the first one, and the third one is kept. -/
theorem signatures_match_terrace : Matching terrace 1 2 ∧ ¬ Matching terrace 1 3 ∧
    Split terrace [1, 2, 3] [1, 3] [(2, 1)] := by
  obtain ⟨hmatch, hsplit⟩ := signatures_match terrace
  have hsame : signature terrace 1 = signature terrace 2 := by cbv
  have hother : (signature terrace 1 == signature terrace 3) = false := by cbv
  have hkept : distinct terrace [1, 2, 3] = [1, 3] := by cbv
  have hpaired : duplicates terrace [1, 2, 3] = [(2, 1)] := by cbv
  have hlist := hsplit [1, 2, 3] (by decide)
  rw [hkept, hpaired] at hlist
  refine ⟨(hmatch 1 2 _ _ rfl rfl).mp hsame, fun h => ?_, hlist⟩
  exact beq_eq_false_iff_ne.mp hother ((hmatch 1 3 _ _ rfl rfl).mpr h)

end Netlist.Assembly
