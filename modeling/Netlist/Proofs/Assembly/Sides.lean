import Netlist.Proofs.Assembly.Stitching
import Netlist.Proofs.Word

/-!
# Sides at refreshed instances

A connector has a side at each of the two interfaces that it joins. When such an
interface is in a refreshed instance, everything that stitching reads there was
copied from a compiled drawing: the record, the nodes with their keys, and the
numbers, which were moved to the block of the instance.

- `Keeps`: stitching leaves everything but super-ports as it was placed.
- `Holds.canonical`: the interface that stands for an interface of an instance is
  in the same instance and has the same nodes.
- `IsCopy.record`, `IsCopy.numbered`: the record of a copied interface and the number
  of a copied node.
- `labelNatural?_shift`: a moved number reads as the drawn one, moved in words.
-/

namespace Netlist.Assembly

variable {x : Context} {d d₂ d' : Diagram} {s t a c j k o first : Slot} {offset : Nat} {m : Import}
  {i : Subnet}

/-! ## What stitching keeps -/

/-- A diagram in which nothing but super-ports was removed or added. -/
structure Keeps (d d' : Diagram) : Prop where
  below : ∀ j < d.bound, ∀ e, d'.core? j = some e → d.core? j = some e
  above : ∀ j e, d.bound ≤ j → d'.core? j = some e → e.role.isSuperPort = true
  kept : ∀ j e, d.core? j = some e → e.role.isSuperPort = false → d'.core? j = some e
  inside : ∀ i j, i < d.bound → d'.Inside i j → d.Inside i j

/-- Nothing is put into old slots, whatever the parents are. -/
theorem Discards.below (h : Discards d d₂) (h' : Draws d₂ d') {e : Element} (hj : j < d.bound)
    (he : d'.core? j = some e) : d.core? j = some e := by
  rw [Diagram.core?, h'.grows.same j (h.bound ▸ hj)] at he
  exact h.left j e he

/-- Whatever is no super-port stays, whatever the parents are. -/
theorem Discards.survives (h : Discards d d₂) (h' : Draws d₂ d') {e : Element}
    (he : d.core? j = some e) (hrole : e.role.isSuperPort = false) : d'.core? j = some e := by
  obtain ⟨e₂, he₂, rfl⟩ := Diagram.core?_eq_some.mp (h.kept j e he hrole)
  exact Diagram.core?_of_get? (h'.of_get? he₂)

/-- **Discarding and drawing super-ports keeps everything else.** -/
theorem Discards.keeps (h : Discards d d₂) (h' : Draws d₂ d') (hissued : d.Issued) :
    Keeps d d' where
  below := fun _ hj _ he => h.below h' hj he
  above := by
    intro j e hj he
    obtain ⟨e₀, he₀, rfl⟩ := Diagram.core?_eq_some.mp he
    exact (h'.new j e₀ (h.bound ▸ hj) he₀).1
  kept := fun _ _ he hrole => h.survives h' he hrole
  inside := by
    intro i j hi hin
    exact h.inside ((h'.inside_old (h.issued hissued) (h.bound ▸ hi)).mp hin)

/-- Whatever is no super-port was placed as it is. -/
theorem Keeps.old (h : Keeps d d') {e : Element} (he : d'.core? j = some e)
    (hrole : e.role.isSuperPort = false) : d.core? j = some e := by
  by_cases hj : j < d.bound
  · exact h.below j hj e he
  · rw [h.above j e (Nat.le_of_not_lt hj) he] at hrole
    cases hrole

theorem Keeps.isInterface (h : Keeps d d') : isInterface d' a = true ↔ isInterface d a = true := by
  rw [isInterface_iff, isInterface_iff]
  constructor
  · rintro ⟨e, he, hrole⟩
    exact ⟨e, h.old he (Role.isSuperPort_of_isInterface hrole), hrole⟩
  · rintro ⟨e, he, hrole⟩
    exact ⟨e, h.kept a e he (Role.isSuperPort_of_isInterface hrole), hrole⟩

/-- An interface is the same after stitching. -/
theorem Keeps.interface (h : Keeps d d') (ha : Assembly.isInterface d a = true) :
    d'.core? a = d.core? a := by
  obtain ⟨e, he, hrole⟩ := isInterface_iff.mp ha
  rw [h.kept a e he (Role.isSuperPort_of_isInterface hrole), he]

/-- Only nodes have signs. -/
theorem memberSign?_of_isSuperPort {e : Element} (h : e.role.isSuperPort = true) :
    memberSign? e = none := by
  rw [memberSign?, Element.nodeKind?, Role.nodeKind?_of_isSuperPort h, Option.map_none]

/-- **No signature is changed by stitching.** -/
theorem Keeps.members (h : Keeps d d') : (signature d' c).members = (signature d c).members := by
  refine members_congr fun j => ?_
  rw [pick_memberAt, pick_memberAt]
  have hport : ∀ e : Element, e.role.isSuperPort = true →
      (if e.parent = some c ∧ j ≠ c then memberSign? e else none) = none := by
    intro e he
    rw [memberSign?_of_isSuperPort he, ite_self]
  cases he : d.core? j with
  | some e =>
    cases hrole : e.role.isSuperPort with
    | false => rw [h.kept j e he hrole]
    | true =>
      rw [Option.bind_some, hport e hrole]
      cases he' : d'.core? j with
      | none => rfl
      | some e' =>
        rw [h.below j (Diagram.lt_bound_of_core? he) e' he'] at he
        cases he
        exact hport e hrole
  | none =>
    rw [Option.bind_none]
    cases he' : d'.core? j with
    | none => rfl
    | some e' =>
      -- What is there now and was not there before is a super-port.
      refine hport e' (h.above j e' ?_ he')
      by_contra hj
      rw [h.below j (Nat.lt_of_not_le hj) e' he'] at he
      cases he

/-! ## The interface that stands for an interface -/

/-- **The interface that stands for an interface of an instance is in the same
instance and has the same nodes**, and stitching does not change which one it is. -/
theorem Holds.canonical (h : Holds m s offset d) (hin : d.Inside a s)
    (ha : Assembly.isInterface d a = true) :
    ∃ first, (∀ d', Keeps d d' → Assembly.canonical d' a = first) ∧ d.Inside first s ∧
      Assembly.isInterface d first = true ∧ (first = a ∨ MarkedWith d a first) ∧
      (signature d first).members = (signature d a).members := by
  obtain ⟨e, he, hrole⟩ := isInterface_iff.mp ha
  obtain ⟨payload, hpayload⟩ := Role.isInterface_iff.mp hrole
  have hrole' : ∀ d', Keeps d d' → (d'.get? a).map Element.role = some (.interface payload) := by
    intro d' hkeeps
    obtain ⟨e', he', heq⟩ := Diagram.core?_eq_some.mp
      (hkeeps.kept a e he (Role.isSuperPort_of_isInterface hrole))
    rw [he', Option.map_some, ← hpayload, ← heq]
    rfl
  cases hmark : payload.duplicateOf with
  | none =>
    refine ⟨a, fun d' hkeeps => ?_, hin, ha, .inl rfl, rfl⟩
    rw [Assembly.canonical, hrole' d' hkeeps]
    dsimp only
    rw [hmark]
    rfl
  | some first =>
    have hmarked : MarkedWith d a first := ⟨e, payload, he, hpayload, hmark⟩
    obtain ⟨hfirst, hinterface, hmembers⟩ := h.marked a first hin hmarked
    refine ⟨first, fun d' hkeeps => ?_, hfirst, hinterface, .inr hmarked, hmembers⟩
    obtain ⟨e', he', -⟩ := isInterface_iff.mp (hkeeps.isInterface.mpr hinterface)
    obtain ⟨e₀, he₀, -⟩ := Diagram.core?_eq_some.mp he'
    rw [Assembly.canonical, hrole' d' hkeeps]
    dsimp only
    rw [hmark, Option.filter_some, if_pos (Diagram.isLive_iff.mpr ⟨e₀, he₀⟩)]
    rfl

/-! ## What was copied -/

/-- A node of an interface that has a key and a number, and is no ground. -/
def NumberedIn (d : Diagram) (interface : Slot) (key : Option String) (n : Nat) : Prop :=
  ∃ o e kind, d.get? o = some e ∧ e.parent = some interface ∧ e.role = .node kind ∧
    kind ≠ .ground ∧ e.key? = key ∧ e.label = toString n

/-- **A moved number reads as the number that was drawn, in the block of the instance.** -/
theorem labelNatural?_shift {drawn e : Element} {kind : NodeKind} {n limit number : Nat}
    (hkind : drawn.role = .node kind) (hground : kind ≠ .ground) (hdrawn : drawn.label = toString n)
    (he : e.label = (shift (Word.signed offset) drawn).label)
    (hnumber : e.labelNatural? limit = some number) :
    n ≤ Text.integerLimit ∧ number = Word.count (offset + n) := by
  have hnode : drawn.nodeKind?.isSome = true ∧ drawn.isGround = false := by
    rw [Element.nodeKind?, Element.isGround, hkind]
    cases kind <;> first | exact ⟨rfl, rfl⟩ | exact absurd rfl hground
  by_cases hn : n ≤ Text.integerLimit
  · have hread : drawn.labelNumber? = some (n : Int) := by
      rw [Element.labelNumber?_toString hdrawn, if_pos hn]
    have hlabel : e.label = toString (Word.signed (n + offset)) := by
      rw [he, label_shift hnode.1 hnode.2 hread, Word.signed_add_signed]
    have hmoved := Element.labelNumber?_toString_int hlabel (Word.fits_signed _)
    rw [(Element.labelNatural?_eq_some.mp hnumber).1, Option.some.injEq] at hmoved
    refine ⟨hn, ?_⟩
    rw [Nat.add_comm]
    exact Word.eq_count_of_signed (by rw [Nat.cast_add]; exact hmoved.symm)
  · -- Such a label was not moved, and it is out of range for a super-port.
    have hread : drawn.labelNumber? = none := by
      rw [Element.labelNumber?_toString hdrawn, if_neg hn]
    rw [shift, hread, ite_self] at he
    rw [Element.labelNatural?, Element.labelNumber?_toString (he.trans hdrawn), if_neg hn] at hnumber
    cases hnumber

/-- What is copied has been compiled. -/
theorem Imports.member (h : Imports x i m) (ho : (o, c) ∈ m.copies) :
    o ∈ members m.diagram m.compiled.topology
      (distinct m.diagram m.compiled.topology.interfaces) := by
  rw [← h.originals]
  exact List.mem_map_of_mem (f := Prod.fst) ho

/-- A test of roles that does not look at marks is the same for a copy. -/
theorem IsCopy.role (h : IsCopy m s offset d o c) {β : Type} {f : Role → β}
    (hf : ∀ first role, f (role.setDuplicateOf first) = f role) {e : Element}
    (he : d.core? c = some e) : ∃ drawn, m.diagram.get? o = some drawn ∧
      Mirrors m.copies s offset drawn e ∧ f e.role = f drawn.role := by
  obtain ⟨drawn, e', hdrawn, he', hmirrors, hrole⟩ := h.alike
  rw [he] at he'
  cases he'
  refine ⟨drawn, hdrawn, hmirrors, ?_⟩
  rcases hrole with hrole | ⟨first, hrole⟩
  · rw [hrole]
  · rw [hrole, hf]

/-- **The record of a copied interface** is the one that compiling its drawing made,
and it holds the node count of the instance. -/
theorem IsCopy.record (h : IsCopy m s offset d o c) (himports : Imports x i m)
    (hc : Assembly.isInterface d c = true) : ∃ e drawn record, d.core? c = some e ∧
      e.role.record? = some record ∧ m.diagram.get? o = some drawn ∧
      drawn.role.record? = some record ∧ record.nodeCount = i.nodeCount := by
  obtain ⟨e, he, hrole⟩ := isInterface_iff.mp hc
  obtain ⟨drawn, hdrawn, -, hinterface⟩ := h.role Role.isInterface_setDuplicateOf he
  obtain ⟨drawn', hdrawn', -, hrecord⟩ := h.role Role.record?_setDuplicateOf he
  rw [hdrawn] at hdrawn'
  cases hdrawn'
  obtain ⟨_, _, _, _, hstages⟩ := Compilation.compile_runs himports.compiles
  have hvalid := Compilation.compile_validates himports.compiles
  obtain ⟨-, hrecorded, -⟩ := hstages.of_member hvalid (himports.member h.pair) hdrawn
  obtain ⟨drawn', record, hdrawn', hfound, hcount⟩ :=
    hstages.record (hrecorded (hinterface ▸ hrole))
  rw [hdrawn] at hdrawn'
  cases hdrawn'
  exact ⟨e, drawn, record, he, hrecord.trans hfound, hdrawn, hfound,
    hcount.trans himports.nodeCount.symm⟩

/-- What is copied is no network container. -/
theorem IsCopy.not_isSubNetwork (h : IsCopy m s offset d o c) (himports : Imports x i m)
    {e : Element} (he : d.core? c = some e) : e.role.isSubNetwork = false := by
  obtain ⟨drawn, hdrawn, -, hrole⟩ := h.role Role.isSubNetwork_setDuplicateOf he
  obtain ⟨_, _, _, _, hstages⟩ := Compilation.compile_runs himports.compiles
  have hvalid := Compilation.compile_validates himports.compiles
  exact hrole.trans (hstages.of_member hvalid (himports.member h.pair) hdrawn).1

/-- **The number of a copied node**: compiling the drawing gave it one of the network. -/
theorem IsCopy.numbered (h : IsCopy m s offset d o c) (himports : Imports x i m) {e : Element}
    (he : d.core? c = some e) (hkind : e.nodeKind?.isSome = true) (hground : e.isGround = false) :
    ∃ drawn kind n, m.diagram.get? o = some drawn ∧ Mirrors m.copies s offset drawn e ∧
      e.nodeKind? = some kind ∧ drawn.role = .node kind ∧ kind ≠ .ground ∧
      drawn.label = toString n ∧ n < i.nodeCount := by
  obtain ⟨drawn, hdrawn, hmirrors, hsame⟩ := h.role Role.nodeKind?_setDuplicateOf he
  obtain ⟨kind, hkind'⟩ := Option.isSome_iff_exists.mp hkind
  have hnode : drawn.role = .node kind :=
    Topology.nodeKind?_eq_some.mp (hsame.symm.trans hkind')
  have hne : kind ≠ .ground := by
    rintro rfl
    rw [Element.isGround, Topology.nodeKind?_eq_some.mp hkind'] at hground
    cases hground
  obtain ⟨_, _, _, _, hstages⟩ := Compilation.compile_runs himports.compiles
  have hvalid := Compilation.compile_validates himports.compiles
  obtain ⟨-, -, hin⟩ := hstages.of_member hvalid (himports.member h.pair) hdrawn
  obtain ⟨n, hlabel, hlt⟩ := hstages.label hvalid (hin (hsame ▸ hkind)) hdrawn hnode hne
  exact ⟨drawn, kind, n, hdrawn, hmirrors, hkind', hnode, hne, hlabel, himports.nodeCount ▸ hlt⟩

/-- **The number of a node directly inside a copied interface**: the original is directly
inside the original of the interface, and whatever is read off the label of the copy is the
number of the original in the block of the instance. -/
theorem IsCopy.number (h : IsCopy m s offset d k j) (himports : Imports x i m)
    (hinterface : IsCopy m s offset d o c) (hne : c ≠ s) {e : Element} (he : d.get? j = some e)
    (hparent : e.parent = some c) (hkind : e.nodeKind?.isSome = true) (hground : e.isGround = false) :
    ∃ n, NumberedIn m.diagram o e.key? n ∧ n < i.nodeCount ∧
      ∀ number limit, e.labelNatural? limit = some number →
        n ≤ Text.integerLimit ∧ number = Word.count (offset + n) := by
  obtain ⟨drawn, kind, n, hdrawn, hmirrors, -, hnode, hkind', hlabel, hlt⟩ :=
    h.numbered himports (Diagram.core?_of_get? he) hkind hground
  have hup : drawn.parent = some o := by
    have hcopy := hmirrors.parent
    rw [show e.core.parent = some c from hparent, parentAmong, Option.some.injEq] at hcopy
    cases hof : copyOf? m.copies drawn.parent with
    | none =>
      rw [hof] at hcopy
      exact absurd hcopy hne
    | some c' =>
      rw [hof, Option.getD_some] at hcopy
      subst hcopy
      obtain ⟨o', ho', hmem⟩ := copyOf?_eq_some hof
      have hpair := List.inj_on_of_nodup_map himports.nodup hmem hinterface.pair rfl
      rw [Prod.mk.injEq] at hpair
      rw [ho', hpair.1]
  have hmoved : e.label = (shift (Word.signed offset) drawn).label := hmirrors.label
  have hfields : e.fields = drawn.fields := hmirrors.fields
  refine ⟨n, ⟨k, drawn, kind, hdrawn, hup, hnode, hkind', ?_, hlabel⟩, hlt,
    fun number limit hnumber => labelNatural?_shift hnode hkind' hlabel hmoved hnumber⟩
  rw [Element.key?, Element.key?, hfields]

end Netlist.Assembly
