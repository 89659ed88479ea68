import Netlist.Proofs.Assembly.InPlace
import Netlist.Proofs.Assembly.SuperPorts
import Netlist.Proofs.Compilation.Numbers

/-!
# The numbers in an assembled super-network

Every instance owns a block of numbers: the blocks follow each other in document order,
each as long as the instance has nodes. The nodes of a refreshed instance have the numbers
that compiling its drawing gave them, moved to the block, and those of an instance that was
kept have the place in the block that they had in the block before.

- `Chained.offset_eq`, `Chained.apart`: the blocks are running sums, and are disjoint.
- `NumberedFrom`, `KeepsPlaces`: the numbers of a refreshed instance, and of one that was
  kept.
- `assemble_numbers`: **instances own disjoint blocks of numbers**, and the numbers in them
  are these.
-/

namespace Netlist.Assembly

open Netlist.Topology (numberAt numberAt_eq_some)

variable {x : Context} {d d₁ d' : Diagram} {c c' o o' : Slot} {p q : Placed} {placed : List Placed}
  {offset : Nat} {delta n : Int} {e e' : Element} {m : Import}

/-! ## Blocks -/

/-- If all nodes can be counted, the next block starts where the first one ends. -/
theorem Chained.cons_of_lt (h : Chained offset (p :: placed))
    (hcount : offset + total (p :: placed) < UInt64.size) :
    p.subnet.offset = offset ∧ Chained (offset + p.subnet.nodeCount) placed ∧
      offset + p.subnet.nodeCount + total placed < UInt64.size := by
  rw [total_cons, ← Nat.add_assoc] at hcount
  obtain ⟨hp, h⟩ := h
  rw [Word.count_of_lt (Nat.lt_of_le_of_lt (Nat.le_add_right _ _) hcount)] at h
  exact ⟨hp, h, hcount⟩

/-- **A block starts where the blocks before it end.** -/
theorem Chained.offset_eq (h : Chained offset placed) (hcount : offset + total placed < UInt64.size)
    {k : Nat} (hk : placed[k]? = some p) : p.subnet.offset = offset + total (placed.take k) := by
  induction placed generalizing offset k with
  | nil => cases hk
  | cons q placed ih =>
    obtain ⟨hq, h, hcount⟩ := h.cons_of_lt hcount
    cases k with
    | zero =>
      cases hk
      exact hq
    | succ k =>
      rw [List.getElem?_cons_succ] at hk
      rw [ih h hcount hk, List.take_succ_cons, total_cons, Nat.add_assoc]

/-- Every block is within the sum of all. -/
theorem Chained.within (h : Chained offset placed) (hcount : offset + total placed < UInt64.size)
    (hp : p ∈ placed) : offset ≤ p.subnet.offset ∧
      p.subnet.offset + p.subnet.nodeCount ≤ offset + total placed := by
  induction placed generalizing offset with
  | nil => cases hp
  | cons q placed ih =>
    obtain ⟨hq, h, hcount⟩ := h.cons_of_lt hcount
    rw [total_cons]
    rcases List.mem_cons.mp hp with rfl | hp
    · omega
    · have := ih h hcount hp
      omega

/-- **No two blocks overlap.** -/
theorem Chained.apart (h : Chained offset placed) (hcount : offset + total placed < UInt64.size)
    (hp : p ∈ placed) (hq : q ∈ placed) (hne : p ≠ q) :
    p.subnet.offset + p.subnet.nodeCount ≤ q.subnet.offset ∨
      q.subnet.offset + q.subnet.nodeCount ≤ p.subnet.offset := by
  induction placed generalizing offset with
  | nil => cases hp
  | cons r placed ih =>
    obtain ⟨hr, h, hcount⟩ := h.cons_of_lt hcount
    rcases List.mem_cons.mp hp with rfl | hp' <;> rcases List.mem_cons.mp hq with rfl | hq'
    · exact absurd rfl hne
    · have := h.within hcount hq'
      omega
    · have := h.within hcount hp'
      omega
    · exact ih h hcount hp' hq'

/-! ## The nodes of one instance -/

/-- A node that is no ground. -/
def IsPlainNode (d : Diagram) (c : Slot) : Prop :=
  ∃ e, d.get? c = some e ∧ e.nodeKind?.isSome = true ∧ e.isGround = false

/-- The nodes of a refreshed instance are numbered as in its compiled drawing, in the block
of the instance. Without interfaces no two of them have the same number. -/
structure NumberedFrom (m : Import) (p : Placed) (d : Diagram) : Prop where
  drawn : ∀ c, d.Inside c p.slot → IsPlainNode d c → ∃ (o : Slot) (n : Nat), (o, c) ∈ m.copies ∧
    numberAt m.diagram o = some (n : Int) ∧ n < p.subnet.nodeCount ∧
    numberAt d c = some (p.subnet.offset + n : Int)
  distinct : m.compiled.topology.interfaces = [] → ∀ c c' e e', d.Inside c p.slot →
    d.Inside c' p.slot → d.get? c = some e → d.get? c' = some e' → e.isNumberedNode = true →
    e'.isNumberedNode = true → numberAt d c' = numberAt d c → c' = c

/-- The nodes of an instance that was kept have the places in its block that they had in
the block before, and none was lost. -/
structure KeepsPlaces (p : Placed) (start : Int) (d d' : Diagram) : Prop where
  back : ∀ c, d'.Inside c p.slot → IsPlainNode d' c → d.Inside c p.slot ∧ IsPlainNode d c
  forth : ∀ c, InsideFreely d c p.slot → IsPlainNode d c → d'.Inside c p.slot ∧ IsPlainNode d' c
  moved : ∀ c n, d'.Inside c p.slot → IsPlainNode d' c → numberAt d c = some n →
    Text.Fits (n + (p.subnet.offset - start)) →
    ∃ n', numberAt d' c = some n' ∧ n' - p.subnet.offset = n - start

theorem isPlainNode_iff_core? : IsPlainNode d c ↔
    ∃ e, d.core? c = some e ∧ e.nodeKind?.isSome = true ∧ e.isGround = false := by
  constructor
  · rintro ⟨e, he, hnode⟩
    exact ⟨e.core, Diagram.core?_of_get? he, hnode⟩
  · rintro ⟨e, he, hnode⟩
    obtain ⟨e₀, he₀, rfl⟩ := Diagram.core?_eq_some.mp he
    exact ⟨e₀, he₀, hnode⟩

theorem numberAt_of_core? (he : d.core? c = some e) : numberAt d c = e.labelNumber? := by
  obtain ⟨e₀, he₀, rfl⟩ := Diagram.core?_eq_some.mp he
  have hlabel : e₀.core.label = e₀.label := rfl
  rw [numberAt, he₀, Option.bind_some, Element.labelNumber?_congr hlabel]

theorem isPlainNode_of_isNumberedNode (he : d.get? c = some e) (h : e.isNumberedNode = true) :
    IsPlainNode d c := by
  rw [Element.isNumberedNode, Option.any_eq_true] at h
  obtain ⟨kind, hkind, hnumbered⟩ := h
  refine ⟨e, he, by rw [hkind]; rfl, ?_⟩
  rw [Element.isGround, Topology.nodeKind?_eq_some.mp hkind]
  cases kind <;> first | rfl | cases hnumbered

/-- **A copy of a node has the number of its original**, in the block of the instance. -/
theorem IsCopy.numberAt {s : Slot} {i : Subnet} (h : IsCopy m s offset d o c)
    (himports : Imports x i m) (hlimit : offset + i.nodeCount ≤ Text.integerLimit)
    (he : d.core? c = some e) (hkind : e.nodeKind?.isSome = true) (hground : e.isGround = false) :
    ∃ (drawn : Element) (kind : NodeKind) (n : Nat), m.diagram.get? o = some drawn ∧
      drawn.role = .node kind ∧ e.nodeKind? = some kind ∧ drawn.label = toString n ∧
      n < i.nodeCount ∧ e.labelNumber? = some (offset + n : Int) := by
  obtain ⟨drawn, kind, n, hdrawn, hmirrors, hekind, hnode, hne, hlabel, hlt⟩ :=
    h.numbered himports he hkind hground
  have hread : drawn.labelNumber? = some (n : Int) := by
    rw [Element.labelNumber?_toString hlabel, if_pos (by omega)]
  have hplain : drawn.nodeKind?.isSome = true ∧ drawn.isGround = false := by
    rw [Element.nodeKind?, Element.isGround, hnode]
    cases kind <;> first | exact ⟨rfl, rfl⟩ | exact absurd rfl hne
  have hmoved : e.label = toString (Word.signed (offset + n : Int)) := by
    rw [hmirrors.label, label_shift hplain.1 hplain.2 hread, Word.signed_add_signed, Int.add_comm]
  refine ⟨drawn, kind, n, hdrawn, hnode, hekind, hlabel, hlt, ?_⟩
  rw [Element.labelNumber?_toString_int hmoved (Word.fits_signed _), Word.signed_of_fits]
  constructor <;> omega

/-- Every element of a drawing is copied once. -/
theorem Imports.copy_unique {i : Subnet} (h : Imports x i m) (hc : (o, c) ∈ m.copies)
    (hc' : (o, c') ∈ m.copies) : c' = c := by
  have hnodup : (m.copies.map Prod.fst).Nodup := by
    rw [h.originals]
    exact List.nodup_range.filter _
  exact congrArg Prod.snd (List.inj_on_of_nodup_map hnodup hc' hc rfl)

/-- **The nodes of a refreshed instance are numbered as in its drawing.** -/
theorem InPlace.numberedFrom (h : InPlace x p d d') (hwas : p.wasRefreshed = true)
    (hlimit : p.subnet.offset + p.subnet.nodeCount ≤ Text.integerLimit) :
    ∃ m, Imports x p.subnet m ∧ NumberedFrom m p d' := by
  obtain ⟨m, himports, hcopies⟩ := h.copied hwas
  refine ⟨m, himports, ?_, ?_⟩
  · intro c hin hnode
    obtain ⟨e, he, hkind, hground⟩ := isPlainNode_iff_core?.mp hnode
    obtain ⟨o, hcopy⟩ := hcopies c e hin he (Role.isSuperPort_of_nodeKind? hkind)
    obtain ⟨drawn, kind, n, hdrawn, -, -, hlabel, hlt, hnumber⟩ :=
      hcopy.numberAt himports hlimit he hkind hground
    refine ⟨o, n, hcopy.pair, numberAt_eq_some.mpr ⟨drawn, hdrawn, ?_⟩, hlt, ?_⟩
    · rw [Element.labelNumber?_toString hlabel, if_pos (by omega)]
    · rw [numberAt_of_core? he, hnumber]
  · intro hnone c c' e e' hin hin' he he' hnumbered hnumbered' hsame
    obtain ⟨_, _, _, _, hstages⟩ := Compilation.compile_runs himports.compiles
    have hvalid := Compilation.compile_validates himports.compiles
    -- Both originals are numbered nodes of the network of the drawing.
    have horiginal : ∀ {c e}, d'.Inside c p.slot → d'.get? c = some e → e.isNumberedNode = true →
        ∃ o drawn kind n, (o, c) ∈ m.copies ∧ m.drawing.diagram.Inside o m.compiled.topology.network ∧
          m.diagram.get? o = some drawn ∧ drawn.role = .node kind ∧ kind.isNumbered = true ∧
          drawn.label = toString n ∧ numberAt d' c = some (p.subnet.offset + n : Int) := by
      intro c e hin he hnumbered
      obtain ⟨_, he₀, hkind, hground⟩ := isPlainNode_of_isNumberedNode he hnumbered
      rw [he] at he₀
      cases he₀
      have hcore := Diagram.core?_of_get? he
      obtain ⟨o, hcopy⟩ := hcopies c e.core hin hcore (Role.isSuperPort_of_nodeKind? hkind)
      obtain ⟨drawn, kind, n, hdrawn, hnode, hekind, hlabel, -, hnumber⟩ :=
        hcopy.numberAt himports hlimit hcore hkind hground
      have hkind' : kind.isNumbered = true := by
        rw [Element.isNumberedNode, show e.nodeKind? = some kind from hekind] at hnumbered
        exact hnumbered
      obtain ⟨-, -, hnetwork⟩ := hstages.of_member hvalid (himports.member hcopy.pair) hdrawn
      refine ⟨o, drawn, kind, n, hcopy.pair, hnetwork ?_, hdrawn, hnode, hkind', hlabel, ?_⟩
      · rw [hnode]
        rfl
      · rw [numberAt_of_core? hcore, hnumber]
    obtain ⟨o, drawn, kind, n, hc, ho, hdrawn, hnode, hkind, hlabel, hnumber⟩ :=
      horiginal hin he hnumbered
    obtain ⟨o', drawn', kind', n', hc', ho', hdrawn', hnode', hkind', hlabel', hnumber'⟩ :=
      horiginal hin' he' hnumbered'
    rw [hnumber, hnumber', Option.some.injEq] at hsame
    obtain rfl : n' = n := by omega
    obtain rfl := hstages.label_injective hvalid hnone ho hdrawn hnode hkind ho' hdrawn' hnode'
      hkind' (hlabel'.trans hlabel.symm)
    exact himports.copy_unique hc hc'

/-- **A node that was moved has its old number, moved** as far as a word goes. -/
theorem MovedBy.number (h : MovedBy delta e e') (hkind : e.nodeKind?.isSome = true)
    (hground : e.isGround = false) (hn : e.labelNumber? = some n) :
    e'.labelNumber? = some (Word.signed (n + delta)) := by
  have hlabel := h.label
  by_cases hdelta : delta = 0
  · rw [if_pos hdelta] at hlabel
    rw [Element.labelNumber?_congr hlabel, hn, hdelta, Int.add_zero,
      Word.signed_of_fits (Element.fits_of_labelNumber? hn)]
  · rw [if_neg hdelta, label_shift hkind hground hn] at hlabel
    exact Element.labelNumber?_toString_int hlabel (Word.fits_signed _)

theorem MovedBy.plain (h : MovedBy delta e e') :
    e'.nodeKind? = e.nodeKind? ∧ e'.isGround = e.isGround := by
  have hkind : e'.nodeKind? = e.nodeKind? :=
    Role.congr_of_unmarked Role.nodeKind?_unmarked h.role
  refine ⟨hkind, ?_⟩
  rw [Bool.eq_iff_iff, Element.isGround, Element.isGround, beq_iff_eq, beq_iff_eq,
    ← Topology.nodeKind?_eq_some, ← Topology.nodeKind?_eq_some, hkind]

/-- **The nodes of an instance that was kept keep their places.** -/
theorem InPlace.keepsPlaces (h : InPlace x p d d') (hwas : p.wasRefreshed = false) :
    ∃ e start, d.get? p.slot = some e ∧ integerField e offsetField = .ok start ∧
      KeepsPlaces p (start.getD 0) d d' := by
  obtain ⟨_, start, recorded, hcore, hstart, -, -, hmoved⟩ := h.kept hwas
  obtain ⟨e, he, rfl⟩ := Diagram.core?_eq_some.mp hcore
  have hback : ∀ {c}, d'.Inside c p.slot → IsPlainNode d' c → d.Inside c p.slot ∧
      ∃ e e', d.core? c = some e ∧ d'.core? c = some e' ∧ e.nodeKind?.isSome = true ∧
        e.isGround = false ∧ MovedBy (displacement p.subnet.offset (start.getD 0)) e e' := by
    intro c hin hnode
    obtain ⟨e', he', hkind, hground⟩ := isPlainNode_iff_core?.mp hnode
    obtain ⟨hin₀, e₀, he₀, hby⟩ := hmoved.back c e' hin he' (Role.isSuperPort_of_nodeKind? hkind)
    obtain ⟨hkind', hground'⟩ := hby.plain
    exact ⟨hin₀, e₀, e', he₀, he', hkind' ▸ hkind, hground' ▸ hground, hby⟩
  rw [integerField_core] at hstart
  refine ⟨e, start, he, hstart, fun c hin hnode => ?_, fun c hin hnode => ?_,
    fun c n hin hnode hn hfits => ?_⟩
  · obtain ⟨hin₀, e₀, -, he₀, -, hkind, hground, -⟩ := hback hin hnode
    exact ⟨hin₀, isPlainNode_iff_core?.mpr ⟨e₀, he₀, hkind, hground⟩⟩
  · obtain ⟨e₀, he₀, hkind, hground⟩ := isPlainNode_iff_core?.mp hnode
    obtain ⟨e', he', hby⟩ := hmoved.forth c e₀ hin he₀
    obtain ⟨hkind', hground'⟩ := hby.plain
    exact ⟨hmoved.inside hin,
      isPlainNode_iff_core?.mpr ⟨e', he', hkind'.symm ▸ hkind, hground'.symm ▸ hground⟩⟩
  · obtain ⟨-, e₀, e', he₀, he', hkind, hground, hby⟩ := hback hin hnode
    rw [numberAt_of_core? he₀] at hn
    refine ⟨n + (p.subnet.offset - start.getD 0), ?_, by omega⟩
    rw [numberAt_of_core? he', hby.number hkind hground hn, displacement_eq,
      Word.signed_add_signed, Word.signed_of_fits hfits]

/-! ## All instances -/

/-- **Instances own disjoint blocks of numbers.** The blocks follow each other in document
order, and every one is as long as its instance has nodes. Under a refreshed instance every
node but the grounds has the number that compiling its drawing gave it, moved to the block,
so no number is used under two refreshed instances; if the network of the drawing has no
interfaces, no number is used twice. Under an instance that was kept every such node with a
number keeps its place in the block. -/
theorem assemble_numbers {A : Assembly} (hrooted : d.Rooted) (hissued : d.Issued)
    (h : Edit.Runs (assemble x) d A d')
    (hlimit : (A.network.subnets.map Subnet.nodeCount).sum ≤ Text.integerLimit) :
    ∃ top placed d₁, findSuperNetwork d = .ok top ∧
      findInstances d top = .ok (placed.map Placed.slot) ∧
      Edit.Runs (placeAll x 0 (placed.map Placed.slot)) d placed d₁ ∧
      (placed.map Placed.slot).Pairwise (· < ·) ∧
      A.network.subnets = placed.map Placed.subnet ∧
      A.network.nodeCount = (A.network.subnets.map Subnet.nodeCount).sum ∧
      (∀ (k : Nat) i, A.network.subnets[k]? = some i →
        i.offset = ((A.network.subnets.take k).map Subnet.nodeCount).sum) ∧
      (∀ p ∈ placed, p.wasRefreshed = true → ∃ m, Imports x p.subnet m ∧ NumberedFrom m p d') ∧
      (∀ p ∈ placed, ∀ q ∈ placed, p.wasRefreshed = true → q.wasRefreshed = true → p ≠ q →
        ∀ c c', d'.Inside c p.slot → d'.Inside c' q.slot → IsPlainNode d' c → IsPlainNode d' c' →
          numberAt d' c ≠ numberAt d' c') ∧
      ∀ p ∈ placed, p.wasRefreshed = false → ∃ e start, d.get? p.slot = some e ∧
        integerField e offsetField = .ok start ∧ KeepsPlaces p (start.getD 0) d d' := by
  obtain ⟨hvalid, top, e, instances, placed, d₁, stitching, hsuper, -, hinstances, hplace, hstitch,
    hnetwork⟩ := assemble_runs_iff.mp ⟨A, h, rfl⟩
  obtain ⟨hflat, hnodup, hlive⟩ := flat_of_findInstances hvalid hinstances
  obtain ⟨hall, hissued₁, -⟩ := inPlace_of_placeAll hrooted hissued hlive hflat hnodup hplace
  obtain ⟨d₂, hdiscards, hdraws, -⟩ := stitch_runs hstitch
  have hkeeps := hdiscards.keeps hdraws hissued₁
  have hchained := chained_of_placeAll hplace
  obtain rfl := slots_of_placeAll hplace
  have hat : ∀ p ∈ placed, InPlace x p d d' := fun p hp =>
    (hall p hp).keeps hkeeps fun e he =>
      plain_of_findInstances hinstances (List.mem_map_of_mem hp) he
  have hsum : ∀ placed : List Placed,
      total placed = ((placed.map Placed.subnet).map Subnet.nodeCount).sum := fun placed => by
    rw [total, List.map_map]
    rfl
  rw [← hnetwork] at hlimit ⊢
  replace hlimit : 0 + total placed ≤ Text.integerLimit := by
    rw [Nat.zero_add, hsum]
    exact hlimit
  have hcount : 0 + total placed < UInt64.size := Nat.lt_of_le_of_lt hlimit (by decide)
  -- The blocks follow each other, so each of them ends before the whole does.
  have hwithin : ∀ p ∈ placed, p.subnet.offset + p.subnet.nodeCount ≤ Text.integerLimit :=
    fun p hp => Nat.le_trans (hchained.within hcount hp).2 hlimit
  have hnumbered : ∀ p ∈ placed, p.wasRefreshed = true →
      ∃ m, Imports x p.subnet m ∧ NumberedFrom m p d' := fun p hp hwas =>
    (hat p hp).numberedFrom hwas (hwithin p hp)
  refine ⟨top, placed, d₁, hsuper, hinstances, hplace,
    (Diagram.sorted_descendants d top).sublist (mem_directInstances hinstances).1, rfl,
    ?_, fun k i hk => ?_, hnumbered, ?_,
    fun p hp hwas => (hat p hp).keepsPlaces hwas⟩
  · rw [Nat.zero_add] at hcount
    show Word.count (total placed) = _
    rw [Word.count_of_lt hcount, hsum]
    rfl
  · rw [networkOf, List.getElem?_map, Option.map_eq_some_iff] at hk
    obtain ⟨p, hk, rfl⟩ := hk
    rw [networkOf, ← List.map_take, ← hsum, hchained.offset_eq hcount hk, Nat.zero_add]
  · intro p hp q hq hwas hwas' hne c c' hin hin' hnode hnode' hsame
    obtain ⟨m, -, hm⟩ := hnumbered p hp hwas
    obtain ⟨m', -, hm'⟩ := hnumbered q hq hwas'
    obtain ⟨_, n, -, -, hlt, hc⟩ := hm.drawn c hin hnode
    obtain ⟨_, n', -, -, hlt', hc'⟩ := hm'.drawn c' hin' hnode'
    rw [hc, hc', Option.some.injEq] at hsame
    -- Both numbers are in the blocks of their instances, and these are apart.
    have := hchained.apart hcount hp hq hne
    omega

/-! ## A lane -/

/-- A valve between the nodes `3` and `8`, and no interface. -/
def well : Diagram :=
  diagramOf
    [{ id := "root", role := .root },
      { id := "net", role := .network .sub, parent := some 0 },
      { id := "a", role := .node .basic, label := "3", parent := some 1 },
      { id := "b", role := .node .basic, label := "8", parent := some 1 },
      { id := "v", role := .link ⟨"Valve", none⟩, label := "V1", parent := some 1 },
      { id := "p", role := .port, label := "0", parent := some 1, source := some 4, target := some 2 },
      { id := "q", role := .port, label := "1", parent := some 1, source := some 4, target := some 3 }]

/-- An instance without a drawing, whose numbers started at `10`, and an empty one with a
drawing. -/
def lane : Diagram :=
  diagramOf
    [{ id := "root", role := .root },
      { id := "all", role := .network .super, parent := some 0 },
      { id := "k", role := .network .sub, label := "K", parent := some 1,
        fields := Fields.ofList [(offsetField, "10"), (Connections.nodeCountField, "2")] },
      { id := "n", role := .node .basic, label := "11", parent := some 2 },
      { id := "w", role := .network .sub, label := "W", parent := some 1,
        fields := Fields.ofList [(drawingField, "well")] }]

/-- The one drawing, and a library of valves. -/
def laneContext : Context :=
  { streetContext with shelf := fun name => .ok (if name = "well" then some ⟨well, ""⟩ else none) }

/-- What comes of the two instances: the first is kept, the second refreshed. -/
def lanePlaced : List Placed :=
  [⟨2, ⟨"K", none, 0, 2⟩, false, 0, 0⟩, ⟨4, ⟨"W", some "well", 2, 2⟩, true, 0, 0⟩]

/-- The number `11` keeps its place as `1`, and the nodes of the drawing are `2` and `3`. -/
theorem assemble_numbers_lane : ∃ A d' m, Edit.Runs (assemble laneContext) lane A d' ∧
    KeepsPlaces ⟨2, ⟨"K", none, 0, 2⟩, false, 0, 0⟩ 10 lane d' ∧
    numberAt d' 3 = some 1 ∧
    Imports laneContext ⟨"W", some "well", 2, 2⟩ m ∧
    NumberedFrom m ⟨4, ⟨"W", some "well", 2, 2⟩, true, 0, 0⟩ d' ∧
    m.compiled.topology.interfaces = [] ∧ numberAt d' 5 = some 2 ∧ numberAt d' 6 = some 3 := by
  have hpristine : lane.Pristine := by decide
  have hrun : ((assemble laneContext).run lane).result.toOption.any
      (fun A => (A.network.subnets.map Subnet.nodeCount).sum == 4) = true := by cbv
  simp only [Option.any_eq_true, toOption_eq_some, beq_iff_eq] at hrun
  obtain ⟨A, hA, hcount⟩ := hrun
  have hplaces : ((placeAll laneContext 0 [2, 4]).run lane).result.toOption = some lanePlaced := by
    cbv
  obtain ⟨top, placed, d₁, hsuper, hinstances, hplace, -, -, -, -, hrefreshed, -, hkept⟩ :=
    assemble_numbers hpristine.rooted hpristine.issued ⟨hA, rfl⟩
      (by rw [hcount]; decide)
  obtain rfl : 1 = top :=
    Except.ok.inj ((show findSuperNetwork lane = .ok 1 by cbv).symm.trans hsuper)
  have hslots : placed.map Placed.slot = [2, 4] :=
    (Except.ok.inj ((show findInstances lane 1 = .ok [2, 4] by cbv).symm.trans hinstances)).symm
  rw [hslots] at hplace
  obtain rfl : lanePlaced = placed :=
    Except.ok.inj ((toOption_eq_some.mp hplaces).symm.trans hplace.1)
  obtain ⟨e, start, he, hstart, hkeeps⟩ := hkept _ List.mem_cons_self rfl
  have hread : ((lane.get? 2).map fun e => integerField e offsetField) = some (.ok (some 10)) := by
    cbv
  rw [show lane.get? 2 = some e from he, Option.map_some, Option.some.injEq, hstart,
    Except.ok.injEq] at hread
  rw [hread] at hkeeps
  obtain ⟨m, himports, hnumbered⟩ :=
    hrefreshed _ (List.mem_cons_of_mem _ (List.mem_singleton_self _)) rfl
  have hdrawing : m.drawing = ⟨well, ""⟩ := by
    obtain ⟨name, hname, hfound⟩ := himports.drawing
    cases hname
    exact (Option.some.inj (Except.ok.inj hfound)).symm
  have hnone : ((compile Recording.valves {} Diagram.root).run well).result.toOption.any
      (fun r => r.topology.interfaces.isEmpty) = true := by cbv
  have hcompiled : ((compile Recording.valves {} Diagram.root).run well).result = .ok m.compiled := by
    have hruns := himports.compiles.1
    rw [hdrawing] at hruns
    exact hruns
  rw [toOption_eq_some.mpr hcompiled, Option.any_some, List.isEmpty_iff] at hnone
  have hnumbers : [3, 5, 6].map (numberAt ((assemble laneContext).run lane).diagram) =
      [some 1, some 2, some 3] := by cbv
  simp only [List.map_cons, List.map_nil, List.cons.injEq, and_true] at hnumbers
  obtain ⟨hkept, hfirst, hsecond⟩ := hnumbers
  exact ⟨A, _, m, ⟨hA, rfl⟩, hkeeps, hkept, himports, hnumbered, hnone, hfirst, hsecond⟩

end Netlist.Assembly
