import Netlist.Proofs.Assembly.Reproducing
import Netlist.Proofs.Assembly.Signatures

/-!
# Who stands for an interface

Marking gives every interface that duplicates an earlier one of its list the mark of the first
one. It takes no mark away: an interface that has become the first of its signature since it
was marked keeps the old mark, and another one still stands for it.

- `signature_markDuplicates`: marks play no part in signatures.
- `canonical_of_mem`, `canonical_of_notMem`: who stands for an interface after marking.
- `standins_of_marking`: **the first of a signature stands for all of it iff it stood for
  itself before.**
- `mark_outlives_match`: it need not have done so.
-/

namespace Netlist.Assembly

variable {d : Diagram} {i first : Slot} {interfaces : List Slot} {pairs : List (Slot × Slot)}

/-! ## What marking leaves as it is -/

theorem isLive_markDuplicates (hkeys : (pairs.map Prod.fst).Nodup) (i : Slot) :
    (markDuplicates pairs d).isLive i = d.isLive i := by
  rw [Diagram.isLive, get?_markDuplicates hkeys, Option.isSome_map, Diagram.isLive]

/-- **Marks play no part in signatures.** -/
theorem signature_markDuplicates (hkeys : (pairs.map Prod.fst).Nodup) (d : Diagram) (i : Slot) :
    signature (markDuplicates pairs d) i = signature d i := by
  have hmembers := members_congr fun j => pick_markDuplicates pairs d i j
  have hchildren : (markDuplicates pairs d).children i = d.children i := by
    refine List.Pairwise.eq_of_mem_iff (Diagram.sorted_children _ i) (Diagram.sorted_children d i)
      fun j => ?_
    rw [Diagram.mem_children, Diagram.mem_children, hasParent_markDuplicates]
  have hlabel : ((markDuplicates pairs d).get? i).map Element.label =
      (d.get? i).map Element.label := by
    rw [get?_markDuplicates hkeys, Option.map_map]
    exact congrArg (Option.map · (d.get? i)) (funext fun e => label_tag _ e)
  rw [members_signature, members_signature] at hmembers
  simp only [signature, Signature.mk.injEq, hchildren, hlabel, true_and]
  rwa [hchildren] at hmembers

/-! ## Standing in -/

/-- A marked duplicate has its mark. -/
theorem canonical_of_mem (hkeys : (pairs.map Prod.fst).Nodup) (hmem : (i, first) ∈ pairs)
    (hinterface : isInterface d i = true) (hlive : d.isLive first = true) :
    canonical (markDuplicates pairs d) i = first := by
  obtain ⟨e, he, hrole⟩ := Option.any_eq_true _ _ |>.mp hinterface
  have hmark : (tag (some first) e).role.mark? = some first := by
    rw [mark?_tag _ hrole, Option.some_or]
  rw [canonical_eq, get?_markDuplicates hkeys, lookup_of_mem hkeys hmem, he, Option.map_some,
    Option.bind_some, hmark, Option.filter_some, isLive_markDuplicates hkeys, if_pos hlive,
    Option.getD_some]

/-- Whoever is not marked keeps the mark there was. -/
theorem canonical_of_notMem (hkeys : (pairs.map Prod.fst).Nodup)
    (hnot : i ∉ pairs.map Prod.fst) : canonical (markDuplicates pairs d) i = canonical d i := by
  have hlive : (markDuplicates pairs d).isLive = d.isLive :=
    funext fun j => isLive_markDuplicates hkeys j
  rw [canonical_eq, get?_markDuplicates hkeys, lookup_of_notMem hnot, hlive, canonical_eq,
    Option.bind_map]
  rfl

/-- Who stands for whom when the duplicates of a list have been marked. -/
structure Marking (d : Diagram) (interfaces : List Slot) (d' : Diagram) : Prop where
  /-- Every interface has the signature that it had. -/
  signs : ∀ i, signature d' i = signature d i
  /-- The first of a signature stands for the others. -/
  others : ∀ i ∈ interfaces, ∀ first, FirstOf d interfaces i first → i ≠ first →
    canonical d' i = first
  /-- For the first of a signature, as for what is not in the list, stands whoever did. -/
  rest : ∀ i, i ∉ interfaces ∨ FirstOf d interfaces i i → canonical d' i = canonical d i
  /-- The first of every signature stands for all of it iff it stood for itself before. -/
  right : (∀ i ∈ interfaces, ∀ first, FirstOf d interfaces i first → canonical d' i = first) ↔
    ∀ i, FirstOf d interfaces i i → canonical d i = i
  /-- If so, nobody stands for whoever stands for an interface. -/
  idempotent : (∀ i, FirstOf d interfaces i i → canonical d i = i) →
    ∀ i ∈ interfaces, canonical d' (canonical d' i) = canonical d' i

/-- **After marking, the first of a signature stands for the other interfaces**, and for itself
unless it has an old mark. -/
theorem standins_of_marking (hnodup : interfaces.Nodup)
    (hinterface : ∀ i ∈ interfaces, isInterface d i = true) :
    Marking d interfaces (markDuplicates (duplicates d interfaces) d) := by
  have hkeys : ((duplicates d interfaces).map Prod.fst).Nodup := nodup_keys_duplicates hnodup
  have hlive : ∀ i ∈ interfaces, d.isLive i = true := by
    intro i hi
    obtain ⟨e, he, -⟩ := Option.any_eq_true _ _ |>.mp (hinterface i hi)
    exact Diagram.isLive_iff.mpr ⟨e, he⟩
  have hothers : ∀ i ∈ interfaces, ∀ first, FirstOf d interfaces i first → i ≠ first →
      canonical (markDuplicates (duplicates d interfaces) d) i = first := by
    intro i hi first hfirst hne
    exact canonical_of_mem hkeys ((mem_duplicates_iff hnodup).mpr ⟨hi, hfirst, hne⟩)
      (hinterface i hi) (hlive first hfirst.mem)
  have hrest : ∀ i, i ∉ interfaces ∨ FirstOf d interfaces i i →
      canonical (markDuplicates (duplicates d interfaces) d) i = canonical d i := by
    refine fun i hi => canonical_of_notMem hkeys fun hkey => ?_
    rcases hi with hi | hself
    · exact hi ((keys_pairDuplicates d [] interfaces).subset hkey)
    · exact (mem_distinct.mp ((mem_distinct_iff hnodup).mpr hself)).2 hkey
  have hright : (∀ i, FirstOf d interfaces i i → canonical d i = i) → ∀ i ∈ interfaces, ∀ first,
      FirstOf d interfaces i first →
        canonical (markDuplicates (duplicates d interfaces) d) i = first := by
    intro hself i hi first hfirst
    by_cases hne : i = first
    · -- the first one gets no mark, so the one it had decides
      subst hne
      rw [hrest i (.inr hfirst), hself i hfirst]
    · exact hothers i hi first hfirst hne
  refine ⟨signature_markDuplicates hkeys d, hothers, hrest, ⟨fun h i hself => ?_, hright⟩,
    fun hself i hi => ?_⟩
  · rw [← hrest i (.inr hself), h i hself.mem i hself]
  · obtain ⟨first, hfirst⟩ := exists_firstOf (d := d) hi
    rw [hright hself i hi first hfirst]
    exact hright hself first hfirst.mem first hfirst.self

/-- In a row without marks the first interface stands for the second one. -/
theorem standins_of_marking_terrace :
    canonical (markDuplicates (duplicates terrace [1, 2, 3]) terrace) 2 = 1 ∧
      ∀ i ∈ [1, 2, 3], ∀ first, FirstOf terrace [1, 2, 3] i first →
        canonical (markDuplicates (duplicates terrace [1, 2, 3]) terrace) i = first := by
  have hmarking : Marking terrace [1, 2, 3] (markDuplicates (duplicates terrace [1, 2, 3]) terrace) :=
    standins_of_marking (by decide) (by decide)
  have hfirst : FirstOf terrace [1, 2, 3] 2 1 := first?_eq_some.mp (by cbv)
  refine ⟨hmarking.others 2 (by decide) 1 hfirst (by decide), hmarking.right.mpr fun i hself => ?_⟩
  have hcases : i = 1 ∨ i = 2 ∨ i = 3 := by simpa using hself.mem
  rcases hcases with rfl | rfl | rfl <;> cbv

/-- The row after its duplicate was marked, and got another key. -/
def reworked : Diagram :=
  (markDuplicates (duplicates terrace [1, 2]) terrace).modify 7 fun e =>
    e.withField Element.keyField "off"

/-- A mark outlives what it was made for: the second interface has no duplicate any more, but
the first one still stands for it. -/
theorem mark_outlives_match : ¬ ∀ (d : Diagram) (interfaces : List Slot), interfaces.Nodup →
    (∀ i ∈ interfaces, isInterface d i = true) → ∀ i ∈ interfaces, ∀ first,
      FirstOf d interfaces i first →
        canonical (markDuplicates (duplicates d interfaces) d) i = first := by
  intro hall
  have hself : FirstOf reworked [1, 2] 2 2 := first?_eq_some.mp (by cbv)
  have hold : canonical (markDuplicates (duplicates reworked [1, 2]) reworked) 2 = 1 := by cbv
  have hboth : [1, 2].all (isInterface reworked) = true := by cbv
  have hnew := hall reworked [1, 2] (by decide) (List.all_eq_true.mp hboth) 2 (by decide) 2 hself
  rw [hold] at hnew
  exact absurd hnew (by decide)

end Netlist.Assembly
