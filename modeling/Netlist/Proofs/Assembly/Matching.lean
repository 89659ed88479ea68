import Netlist.Document.Cell
import Netlist.Proofs.Assembly.Carrying
import Netlist.Proofs.Assembly.Names
import Netlist.Proofs.Identity

/-!
# Super-ports are the matched connections

A connection recorded at one side of a connector is matched by the node with its key at
the other side. Stitching reads this off a diagram from which the old super-ports are
removed, and in which new ones are drawn meanwhile. Here the findings are described by the
diagram before, and the super-ports are followed from the list into the new diagram.

- `Offers`, `Wires`, `FindsAt`: what the two sides of a connector have for each other.
- `Redrawn`: two diagrams that differ in super-ports, and in ends at old ones.
- `SameEnd`: an end of a connector that is read in every redrawn diagram as before.
- `findsAt_of_wiresAt`: **at whatever point a connector is looked at, it has the same to
  find.**
- `Readable`: a super-network whose connectors are read alike whatever is drawn.
- `Adds`: a diagram with given super-ports in new slots, in order.
- `superPort_reads_back`: the fields of a super-port are read as that super-port.
- `stitch_finds`: what is in the list was there to find, and is drawn.
- `stitch_matches`: **the super-ports are the matched connections without repetitions, and
  exactly these are drawn**, in order.
- `mark_astray`: a mark that names a slot yet to be issued leads to a super-port.
-/

namespace Netlist.Assembly

open Diagram (root)

variable {d d₁ d' dk : Diagram} {a b c i j superNetwork : Slot} {naming : Naming}
  {placements : Placements} {ports ports' found : List SuperPort} {p : SuperPort} {e : Element}

/-! ## What is matched -/

/-- A node directly inside an interface offers its number for its key, if it is no ground. -/
def Offers (d : Diagram) (interface : Slot) (key : String) (number : Nat) : Prop :=
  ∃ j e, d.get? j = some e ∧ e.parent = some interface ∧ j ≠ interface ∧
    e.nodeKind?.isSome = true ∧ e.isGround = false ∧ e.key? = some key ∧
    e.labelNatural? Text.nodeLimit = some number

/-- The connections recorded at an interface. -/
def recordedAt (d : Diagram) (interface : Slot) : List Connection :=
  (((d.get? interface).bind fun e => e.role.record?).map InterfaceRecord.connections).getD []

/-- The super-ports of the side `a` of a connector: its connections in order, as far as
the side `b` offers a number for their keys. Both sides are the interfaces that stand for
the ends, and the name is the one of the instance around the own side. -/
def Wires (d : Diagram) (placements : Placements) (a b : Slot) (ports : List SuperPort) : Prop :=
  ∃ (s : Slot) (number? : String → Option Nat),
    d.Nearest (fun _ e => e.role.isSubNetwork) (canonical d a) s ∧
    (∀ key number, number? key = some number ↔ Offers d (canonical d b) key number) ∧
    ports = (recordedAt d (canonical d a)).filterMap fun c =>
      (number? c.key).map fun number => ⟨nameAt placements s, c.link, c.port, number⟩

/-- What there is to find at a connector: nothing if it does not join two interfaces, and
else the super-ports of the source side, and then those of the target side. -/
def FindsAt (d : Diagram) (placements : Placements) (c : Slot) (found : List SuperPort) : Prop :=
  match joined? d c with
  | none => found = []
  | some (a, b) => ∃ one two, Wires d placements a b one ∧ Wires d placements b a two ∧
    found = one ++ two

/-! ## Diagrams that differ in super-ports -/

/-- The root is no super-port. -/
def PlainRoot (d : Diagram) : Prop := ∀ e, d.get? root = some e → e.role.isSuperPort = false

/-- The mark of an element names an issued slot, and no super-port is there. -/
def LastingMark (d : Diagram) (a : Slot) : Prop :=
  ∀ e first, d.get? a = some e → e.role.mark? = some first →
    first < d.bound ∧ ∀ x, d.get? first = some x → x.role.isSuperPort = false

/-- Slots that a diagram refers to by parents and marks were issued, and neither the root
nor what a mark leads to is a super-port. -/
structure Sound (d : Diagram) : Prop where
  root : ∀ e, d.get? root = some e → e.role.isSuperPort = false
  issued : d.Issued
  marks : ∀ a e first, d.get? a = some e → e.role.mark? = some first →
    first < d.bound ∧ ∀ x, d.get? first = some x → x.role.isSuperPort = false

theorem sound_iff : Sound d ↔ ∀ q ∈ d.elements,
    (q.1 = root → q.2.role.isSuperPort = false) ∧ (∀ p ∈ q.2.parent, p < d.bound) ∧
      ∀ first ∈ q.2.role.mark?,
        first < d.bound ∧ ∀ x ∈ d.get? first, x.role.isSuperPort = false := by
  constructor
  · rintro h ⟨a, e⟩ hmem
    have he := Diagram.mem_elements.mp hmem
    exact ⟨fun hroot => h.root e (hroot ▸ he), fun p hp => h.issued a p ⟨e, he, hp⟩,
      fun first hmark => h.marks a e first he hmark⟩
  · exact fun h => ⟨fun e he => (h _ (Diagram.mem_elements.mpr he)).1 rfl,
      fun a p ⟨e, he, hp⟩ => (h _ (Diagram.mem_elements.mpr he)).2.1 p hp,
      fun a e first he hmark => (h _ (Diagram.mem_elements.mpr he)).2.2 first hmark⟩

instance (d : Diagram) : Decidable (Sound d) := decidable_of_iff' _ sound_iff

/-- Two diagrams that differ in super-ports, and in ends at old ones: the super-ports of
the later one are in new slots. -/
structure Redrawn (d d' : Diagram) : Prop where
  kept : ∀ j e, d.get? j = some e → e.role.isSuperPort = false →
    d'.get? j = some (e.detachAll (oldPorts d))
  back : ∀ j e', d'.get? j = some e' → e'.role.isSuperPort = false →
    ∃ e, d.get? j = some e ∧ e.role.isSuperPort = false ∧ e' = e.detachAll (oldPorts d)
  new : ∀ j e', d'.get? j = some e' → e'.role.isSuperPort = true → d.bound ≤ j

theorem get?_withoutSuperPorts_eq_some (hroot : PlainRoot d)
    (h : (withoutSuperPorts d).get? j = some e) : ∃ e₀, d.get? j = some e₀ ∧
      e₀.role.isSuperPort = false ∧ e = e₀.detachAll (oldPorts d) := by
  obtain ⟨e₀, he₀, hold, rfl⟩ := get?_of_withoutSuperPorts h
  refine ⟨e₀, he₀, ?_, rfl⟩
  cases hport : e₀.role.isSuperPort with
  | false => rfl
  | true =>
    obtain rfl : j = root := by
      by_contra hroot
      exact hold (mem_oldPorts.mpr ⟨⟨e₀, he₀, hport⟩, hroot⟩)
    rw [hroot e₀ he₀] at hport
    cases hport

/-- **Stitching redraws**: first all super-ports go, and then new ones come. -/
theorem redrawn_of_draws (hroot : PlainRoot d) (h : Draws (withoutSuperPorts d) d') :
    Redrawn d d' where
  kept j e he hport := h.of_get? (get?_withoutSuperPorts_of_role he hport)
  back j e' he' hport := get?_withoutSuperPorts_eq_some hroot (h.old he' hport).2
  new j e' he' hport := by
    rw [← bound_withoutSuperPorts d]
    by_contra hlt
    have hold : (withoutSuperPorts d).get? j = some e' := by
      rw [← h.grows.same j (Nat.lt_of_not_le hlt), he']
    obtain ⟨e, -, hrole, rfl⟩ := get?_withoutSuperPorts_eq_some hroot hold
    rw [Element.role_detachAll, hrole] at hport
    cases hport

theorem Redrawn.isInterface (h : Redrawn d d') (a : Slot) : isInterface d' a = isInterface d a := by
  rw [Bool.eq_iff_iff, Assembly.isInterface, Assembly.isInterface, Option.any_eq_true,
    Option.any_eq_true]
  constructor
  · rintro ⟨e', he', hrole⟩
    obtain ⟨e, he, -, rfl⟩ := h.back a e' he' (Role.isSuperPort_of_isInterface hrole)
    exact ⟨e, he, by rwa [Element.role_detachAll] at hrole⟩
  · rintro ⟨e, he, hrole⟩
    exact ⟨_, h.kept a e he (Role.isSuperPort_of_isInterface hrole), by
      rwa [Element.role_detachAll]⟩

/-- What a mark leads to is there as before. -/
theorem Redrawn.isLive_mark (h : Redrawn d d') (hlasting : LastingMark d a)
    (he : d.get? a = some e) (hmark : e.role.mark? = some i) : d'.isLive i = d.isLive i := by
  obtain ⟨hlt, hnotPort⟩ := hlasting e i he hmark
  rw [Bool.eq_iff_iff, Diagram.isLive_iff, Diagram.isLive_iff]
  constructor
  · rintro ⟨x', hx'⟩
    cases hport : x'.role.isSuperPort with
    | true => exact absurd (h.new i x' hx' hport) (Nat.not_le.mpr hlt)
    | false =>
      obtain ⟨x, hx, -⟩ := h.back i x' hx' hport
      exact ⟨x, hx⟩
  · rintro ⟨x, hx⟩
    exact ⟨_, h.kept i x hx (hnotPort x hx)⟩

/-- **The same interface stands for an interface.** -/
theorem Redrawn.canonical (h : Redrawn d d') (hlasting : LastingMark d a)
    (ha : Assembly.isInterface d a = true) : canonical d' a = canonical d a := by
  obtain ⟨e, he, hrole⟩ := Option.any_eq_true _ _ |>.mp ha
  have he' := h.kept a e he (Role.isSuperPort_of_isInterface hrole)
  rw [Assembly.canonical, Assembly.canonical, he, he', Option.map_some, Option.map_some,
    Element.role_detachAll]
  cases hpayload : e.role with
  | interface payload =>
    dsimp only
    cases hmark : payload.duplicateOf with
    | none => rfl
    | some first =>
      have hlive := h.isLive_mark hlasting he (by rw [hpayload]; exact hmark)
      rw [Option.filter_some, Option.filter_some, hlive]
  | _ => rfl

/-- What stands for an interface is there, and no super-port. -/
theorem get?_canonical (hlasting : LastingMark d a) (ha : isInterface d a = true) :
    ∃ e, d.get? (canonical d a) = some e ∧ e.role.isSuperPort = false := by
  obtain ⟨e, he, hrole⟩ := Option.any_eq_true _ _ |>.mp ha
  have hown : ∃ e, d.get? a = some e ∧ e.role.isSuperPort = false :=
    ⟨e, he, Role.isSuperPort_of_isInterface hrole⟩
  rw [canonical, he, Option.map_some]
  cases hpayload : e.role with
  | interface payload =>
    dsimp only
    cases hmark : payload.duplicateOf with
    | none => exact hown
    | some first =>
      rw [Option.filter_some]
      split
      · rename_i hlive
        obtain ⟨x, hx⟩ := Diagram.isLive_iff.mp hlive
        exact ⟨x, hx, (hlasting e first he (by rw [hpayload]; exact hmark)).2 x hx⟩
      · exact hown
  | _ => exact hown

/-- **What was found above something old was there before.** -/
theorem Redrawn.nearest (h : Redrawn d d') (hissued : d.Issued) {t : Slot → Element → Bool}
    (ht : ∀ a e, t a (e.detachAll (oldPorts d)) = t a e) (he : d.get? i = some e)
    (hport : e.role.isSuperPort = false) (hnear : d'.Nearest t i j) : d.Nearest t i j := by
  have hup : ∀ {i e p x'}, d.get? i = some e → e.role.isSuperPort = false → d'.HasParent i p →
      d'.get? p = some x' → d.HasParent i p ∧ ∃ x, d.get? p = some x ∧
        x.role.isSuperPort = false ∧ x' = x.detachAll (oldPorts d) := by
    intro i e p x' he hport hp hx'
    obtain ⟨e', he', hparent⟩ := hp
    rw [h.kept i e he hport] at he'
    cases he'
    rw [Element.parent_detachAll] at hparent
    have hp : d.HasParent i p := ⟨e, he, hparent⟩
    refine ⟨hp, h.back p x' hx' ?_⟩
    cases hnew : x'.role.isSuperPort with
    | false => rfl
    | true => exact absurd (h.new p x' hx' hnew) (Nat.not_le.mpr (hissued i p hp))
  induction hnear generalizing e with
  | hit parent here passes =>
    obtain ⟨hp, x, hx, -, rfl⟩ := hup he hport parent here
    exact .hit hp hx ((ht _ x).symm.trans passes)
  | skip parent here fails above ih =>
    obtain ⟨hp, x, hx, hrole, rfl⟩ := hup he hport parent here
    exact .skip hp hx ((ht _ x).symm.trans fails) (ih hx hrole)

/-- **What is above something old is above it still**, if super-ports contain nothing. -/
theorem Redrawn.nearest_kept (h : Redrawn d d')
    (hleaves : d.BarePorts)
    {t : Slot → Element → Bool} (ht : ∀ a e, t a (e.detachAll (oldPorts d)) = t a e)
    (he : d.get? i = some e) (hport : e.role.isSuperPort = false) (hnear : d.Nearest t i j) :
    d'.Nearest t i j := by
  have hup : ∀ {i p e}, d.get? i = some e → e.role.isSuperPort = false → d.HasParent i p →
      d'.HasParent i p := by
    rintro i p e he hport ⟨x, hx, hp⟩
    rw [he] at hx
    cases hx
    exact ⟨_, h.kept i e he hport, by rwa [Element.parent_detachAll]⟩
  induction hnear generalizing e with
  | hit parent here passes =>
    have hx := h.kept _ _ here (hleaves _ _ _ parent here)
    exact .hit (hup he hport parent) hx ((ht _ _).trans passes)
  | skip parent here fails above ih =>
    have hport' := hleaves _ _ _ parent here
    exact .skip (hup he hport parent) (h.kept _ _ here hport') ((ht _ _).trans fails)
      (ih here hport')

theorem Redrawn.offers (h : Redrawn d d') (interface : Slot) (key : String) (number : Nat) :
    Offers d' interface key number ↔ Offers d interface key number := by
  constructor
  · rintro ⟨j, e', he', hp, hne, hkind, hground, hkey, hnumber⟩
    obtain ⟨e, he, -, rfl⟩ := h.back j e' he' (Role.isSuperPort_of_nodeKind? hkind)
    refine ⟨j, e, he, by simpa using hp, hne, ?_, ?_, ?_, ?_⟩
    · simpa [Element.nodeKind?] using hkind
    · simpa [Element.isGround] using hground
    · simpa [Element.key?] using hkey
    · rwa [Element.labelNatural?_congr _ (Element.label_detachAll _ e)] at hnumber
  · rintro ⟨j, e, he, hp, hne, hkind, hground, hkey, hnumber⟩
    refine ⟨j, _, h.kept j e he (Role.isSuperPort_of_nodeKind? hkind), by simpa using hp, hne,
      ?_, ?_, ?_, ?_⟩
    · simpa [Element.nodeKind?] using hkind
    · simpa [Element.isGround] using hground
    · simpa [Element.key?] using hkey
    · rwa [Element.labelNatural?_congr _ (Element.label_detachAll _ e)]

/-! ## What is found at a connector -/

theorem Redrawn.recordedAt (h : Redrawn d d') (he : d.get? i = some e)
    (hport : e.role.isSuperPort = false) : recordedAt d' i = recordedAt d i := by
  rw [Assembly.recordedAt, Assembly.recordedAt, he, h.kept i e he hport, Option.bind_some,
    Option.bind_some, Element.role_detachAll]

/-- A side that binds no key twice offers what it is bound to. -/
theorem bound_lookup_iff {around : Side} (hside : side d a = .ok around)
    (hnodup : (around.bound.map Prod.fst).Nodup) {key : String} {number : Nat} :
    ((around.bound.reverse.lookup key).bind fun node => node.labelNatural? Text.nodeLimit) =
      some number ↔ Offers d (canonical d a) key number := by
  obtain ⟨-, hnodes, -⟩ := side_eq_ok.mp hside
  rw [Option.bind_eq_some_iff]
  constructor
  · rintro ⟨e, hlookup, hnumber⟩
    obtain ⟨before, after, heq, -⟩ := List.lookup_eq_some_iff.mp hlookup
    have hbound : (key, e) ∈ around.bound := by
      rw [← List.mem_reverse, heq]
      exact List.mem_append_right _ List.mem_cons_self
    obtain ⟨j, hmem, hground, hkey⟩ := mem_bound.mp hbound
    rw [hnodes] at hmem
    obtain ⟨he, hparent, hne, hkind⟩ := mem_nodesOf.mp hmem
    exact ⟨j, e, he, hparent, hne, hkind, hground, hkey, hnumber⟩
  · rintro ⟨j, e, he, hparent, hne, hkind, hground, hkey, hnumber⟩
    refine ⟨e, lookup_of_mem ?_ ?_, hnumber⟩
    · rw [List.map_reverse]
      exact List.nodup_reverse.mpr hnodup
    · rw [List.mem_reverse, mem_bound]
      exact ⟨j, hnodes ▸ mem_nodesOf.mpr ⟨he, hparent, hne, hkind⟩, hground, hkey⟩

/-- **The super-ports of a side are its wires**, if the other side binds no key twice. -/
theorem wires_of_sides {own other : Side} (hown : side d a = .ok own)
    (hother : side d b = .ok other)
    (hnodup : (other.bound.map Prod.fst).Nodup) :
    Wires d placements a b (superPortsOf d placements own other) := by
  obtain ⟨hinterface, -, hnear⟩ := side_eq_ok.mp hown
  refine ⟨own.subnet, _, Diagram.nearestAncestor_eq_some hnear,
    fun key number => bound_lookup_iff hother hnodup, ?_⟩
  rw [superPortsOf, Side.record?, hinterface]
  refine List.filterMap_congr fun connection _ => ?_
  rw [superPort?, Option.map_bind]
  rfl

theorem findsAt_of_bindSides (hab : joined? d c = some (a, b))
    (h : bindSides d placements c a b = .ok found) : FindsAt d placements c found := by
  obtain ⟨one, two, hone, htwo, hcompatible, rfl⟩ := bindSides_eq_ok h
  have hnodup := nodup_of_checkCompatible hcompatible
  rw [List.map_append, List.nodup_append'] at hnodup
  rw [FindsAt, hab]
  exact ⟨_, _, wires_of_sides hone htwo hnodup.2.1, wires_of_sides htwo hone hnodup.1, rfl⟩

/-- An end of a connector that is read in every redrawn diagram as it is to be read before. -/
structure SameEnd (d : Diagram) (a : Slot) : Prop where
  lasting : LastingMark d a
  home : ∀ {d' s}, Redrawn d d' → d'.Nearest (fun _ e => e.role.isSubNetwork) (canonical d a) s →
    d.Nearest (fun _ e => e.role.isSubNetwork) (canonical d a) s

/-- Above what stands for an end, nothing was drawn: all parents were issued. -/
theorem Sound.sameEnds (hsound : Sound d) (hab : joined? d c = some (a, b)) :
    SameEnd d a ∧ SameEnd d b := by
  have hend : ∀ {a}, isInterface d a = true → SameEnd d a := fun {a} ha => by
    refine ⟨hsound.marks a, fun hredrawn hnear => ?_⟩
    obtain ⟨e, he, hport⟩ := get?_canonical (hsound.marks a) ha
    exact hredrawn.nearest hsound.issued (fun _ e => by rw [Element.role_detachAll]) he hport hnear
  obtain ⟨-, ha, hb⟩ := joined?_eq_some hab
  exact ⟨hend ha, hend hb⟩

/-- A super-network whose connectors are read alike whatever is drawn: super-ports contain
nothing, the marks of the interfaces that are joined last, and what stands for these
interfaces is inside network containers. -/
structure Readable (d : Diagram) (top : Slot) : Prop where
  root : PlainRoot d
  leaves : d.BarePorts
  lasting : ∀ c ∈ connectorsIn d top, ∀ a b, joined? d c = some (a, b) →
    LastingMark d a ∧ LastingMark d b
  homes : ∀ c ∈ connectorsIn d top, ∀ a b, joined? d c = some (a, b) →
    (∃ s, d.Nearest (fun _ e => e.role.isSubNetwork) (canonical d a) s) ∧
      ∃ s, d.Nearest (fun _ e => e.role.isSubNetwork) (canonical d b) s

/-- A parent that was not issued may hold a super-port later, but not one on the way from
an interface to the network container around it. -/
theorem Readable.sameEnds {top : Slot} (hread : Readable d top) (hc : c ∈ connectorsIn d top)
    (hab : joined? d c = some (a, b)) : SameEnd d a ∧ SameEnd d b := by
  have hend : ∀ {a}, isInterface d a = true → LastingMark d a →
      (∃ s, d.Nearest (fun _ e => e.role.isSubNetwork) (canonical d a) s) → SameEnd d a := by
    rintro a ha hlasting ⟨s₀, hnear₀⟩
    refine ⟨hlasting, fun hredrawn hnear => ?_⟩
    obtain ⟨e, he, hport⟩ := get?_canonical hlasting ha
    have hkept := hredrawn.nearest_kept hread.leaves (fun _ e => by rw [Element.role_detachAll]) he
      hport hnear₀
    rw [hnear.unique hkept]
    exact hnear₀
  obtain ⟨-, ha, hb⟩ := joined?_eq_some hab
  obtain ⟨hlasting, hlasting'⟩ := hread.lasting c hc a b hab
  obtain ⟨hhome, hhome'⟩ := hread.homes c hc a b hab
  exact ⟨hend ha hlasting hhome, hend hb hlasting' hhome'⟩

theorem Redrawn.wires (h : Redrawn d d') (ha : Assembly.isInterface d a = true)
    (hb : Assembly.isInterface d b = true) (hown : SameEnd d a) (hother : SameEnd d b)
    (hwires : Wires d' placements a b ports) : Wires d placements a b ports := by
  obtain ⟨s, number?, hnear, hnumber, rfl⟩ := hwires
  rw [h.canonical hown.lasting ha] at hnear ⊢
  rw [h.canonical hother.lasting hb] at hnumber
  obtain ⟨e, he, hport⟩ := get?_canonical hown.lasting ha
  rw [h.recordedAt he hport]
  exact ⟨s, number?, hown.home h hnear, fun key number => by rw [hnumber, h.offers], rfl⟩

/-- **A connector has the same to find at whatever point it is looked at**, if its ends are
read alike. -/
theorem findsAt_of_wiresAt (hroot : PlainRoot d) (hk : Draws (withoutSuperPorts d) dk)
    (hc : c < d.bound) (hends : ∀ a b, joined? d c = some (a, b) → SameEnd d a ∧ SameEnd d b)
    (h : wiresAt dk placements c = .ok found) : FindsAt d placements c found := by
  have hredrawn := redrawn_of_draws hroot hk
  have hjoined : joined? dk c = joined? d c :=
    (hk.joined? (by rwa [bound_withoutSuperPorts])).trans (joined?_withoutSuperPorts d c)
  rw [FindsAt, ← hjoined]
  cases hab : joined? dk c with
  | none =>
    rw [wiresAt, hab] at h
    cases h
    rfl
  | some ends =>
    obtain ⟨a, b⟩ := ends
    rw [wiresAt, hab] at h
    obtain ⟨-, ha, hb⟩ := joined?_eq_some hab
    rw [hredrawn.isInterface] at ha hb
    have hfinds := findsAt_of_bindSides hab h
    rw [FindsAt, hab] at hfinds
    obtain ⟨one, two, hone, htwo, rfl⟩ := hfinds
    obtain ⟨hown, hother⟩ := hends a b (hjoined ▸ hab)
    exact ⟨one, two, hredrawn.wires ha hb hown hother hone, hredrawn.wires hb ha hother hown htwo,
      rfl⟩

/-! ## What is drawn -/

/-- A diagram with the given super-ports in new slots, in order, each at its connector. -/
structure Adds (d d' : Diagram) (drawn : List (SuperPort × Slot)) : Prop where
  bound : d'.bound = d.bound + drawn.length
  same : ∀ j < d.bound, d'.get? j = d.get? j
  new : ∀ k p c, drawn[k]? = some (p, c) →
    ∃ id, d'.get? (d.bound + k) = some (superPortElement id c p)

theorem Adds.refl (d : Diagram) : Adds d d [] := ⟨rfl, fun _ _ => rfl, fun _ _ _ h => nomatch h⟩

theorem Adds.trans {drawn later : List (SuperPort × Slot)} (h : Adds d d₁ drawn)
    (h' : Adds d₁ d' later) : Adds d d' (drawn ++ later) where
  bound := by rw [h'.bound, h.bound, List.length_append, Nat.add_assoc]
  same j hj := by
    rw [h'.same j (h.bound ▸ Nat.lt_of_lt_of_le hj (Nat.le_add_right _ _)), h.same j hj]
  new k p c hk := by
    rcases Nat.lt_or_ge k drawn.length with hlt | hle
    · rw [List.getElem?_append_left hlt] at hk
      obtain ⟨id, hget⟩ := h.new k p c hk
      have hold : d.bound + k < d₁.bound := h.bound ▸ Nat.add_lt_add_left hlt d.bound
      exact ⟨id, by rw [h'.same _ hold, hget]⟩
    · rw [List.getElem?_append_right hle] at hk
      obtain ⟨id, hget⟩ := h'.new _ p c hk
      rw [h.bound, Nat.add_assoc, Nat.add_sub_cancel' hle] at hget
      exact ⟨id, hget⟩

theorem drawSuperPort_adds {u : Unit} (h : Edit.Runs (drawSuperPort naming c p) d u d') :
    Adds d d' [(p, c)] := by
  rw [drawSuperPort] at h
  obtain ⟨e, -, h⟩ := Edit.runs_check_bind.mp h
  rw [Edit.runs_read_bind, Edit.runs_bind] at h
  obtain ⟨slot, d₁, hchange, h⟩ := h
  obtain ⟨-, rfl⟩ := Edit.runs_pure.mp h
  rw [Edit.runs_change, mapError_eq_ok] at hchange
  obtain ⟨rfl, hbound⟩ := Diagram.slot_insert hchange
  have hget := Diagram.get?_insert hchange
  refine ⟨hbound, fun j hj => by rw [hget, if_neg (Nat.ne_of_lt hj)], fun k q c' hk => ?_⟩
  cases k with
  | zero =>
    cases hk
    exact ⟨naming.fresh d, by rw [Nat.add_zero, hget, if_pos rfl]; rfl⟩
  | succ k => cases hk

/-- What is drawn at one connector is new and was found there. -/
theorem drawNew_draws (h : Edit.Runs (drawNew naming c ports found) d ports' d') :
    ∃ new, Adds d d' (new.map fun p => (p, c)) ∧ ports' = ports ++ new ∧
      ∀ p ∈ new, p ∉ ports ∧ p ∈ found := by
  induction found generalizing d ports with
  | nil =>
    rw [drawNew] at h
    obtain ⟨rfl, rfl⟩ := Edit.runs_pure.mp h
    exact ⟨[], .refl d, (List.append_nil _).symm, List.forall_mem_nil _⟩
  | cons q found ih =>
    rw [drawNew] at h
    split at h
    · obtain ⟨new, hadds, hports, hnew⟩ := ih h
      exact ⟨new, hadds, hports, fun p hp => (hnew p hp).imp id (List.mem_cons_of_mem q)⟩
    · rename_i hq
      rw [List.contains_iff_mem] at hq
      rw [Edit.runs_bind] at h
      obtain ⟨_, d₁, hdraw, h⟩ := h
      obtain ⟨new, hadds, hports, hnew⟩ := ih h
      refine ⟨q :: new, (drawSuperPort_adds hdraw).trans hadds, by rw [hports, List.append_assoc]; rfl,
        List.forall_mem_cons.mpr ⟨⟨hq, List.mem_cons_self⟩, fun p hp => ?_⟩⟩
      obtain ⟨hnot, hfound⟩ := hnew p hp
      exact ⟨fun hmem => hnot (List.mem_append_left _ hmem), List.mem_cons_of_mem q hfound⟩

/-- A super-port is found at a connector, and at no earlier one. -/
def FirstFound (finds : List (Slot × List SuperPort)) (p : SuperPort) (c : Slot) : Prop :=
  ∃ before found after, finds = before ++ (c, found) :: after ∧ p ∈ found ∧
    ∀ q ∈ before, p ∉ q.2

/-- **The list and the diagram stay in step**: what gets into the list is drawn at the
connector that it is found at first. -/
theorem stitchAll_draws {connectors : List Slot}
    (h : Edit.Runs (stitchAll naming placements ports connectors) d ports' d') :
    ∃ finds : List (Slot × List SuperPort), finds.map Prod.fst = connectors ∧
      (∀ q ∈ finds, ∃ dk, Draws d dk ∧ wiresAt dk placements q.1 = .ok q.2) ∧
      ports' = (finds.flatMap Prod.snd).foldl addNew ports ∧
      ∃ drawn, Adds d d' drawn ∧ ports' = ports ++ drawn.map Prod.fst ∧
        ∀ q ∈ drawn, q.1 ∉ ports ∧ FirstFound finds q.1 q.2 := by
  induction connectors generalizing d ports with
  | nil =>
    rw [stitchAll] at h
    obtain ⟨rfl, rfl⟩ := Edit.runs_pure.mp h
    exact ⟨[], rfl, List.forall_mem_nil _, rfl, [], .refl d, (List.append_nil _).symm,
      List.forall_mem_nil _⟩
  | cons c connectors ih =>
    have hlater : ∀ {found finds p c'}, p ∉ found → FirstFound finds p c' →
        FirstFound ((c, found) :: finds) p c' := by
      rintro found finds p c' hnot ⟨before, found', after, rfl, hp, hbefore⟩
      exact ⟨(c, found) :: before, found', after, rfl, hp,
        List.forall_mem_cons.mpr ⟨hnot, hbefore⟩⟩
    obtain ⟨-, found, d₁, hwires, hdraw, h⟩ := stitchAll_cons_runs_iff.mp h
    have hdraws := (drawNew_runs hdraw).1
    obtain ⟨new, haddsNew, hnewList, hnew⟩ := drawNew_draws hdraw
    obtain ⟨finds, hkeys, hfinds, hports, drawn, hadds, hlist, hfirst⟩ := ih h
    refine ⟨(c, found) :: finds, by rw [List.map_cons, hkeys], List.forall_mem_cons.mpr
      ⟨⟨d, .refl d, hwires⟩, fun q hq => ?_⟩, ?_,
      new.map (fun p => (p, c)) ++ drawn, haddsNew.trans hadds, ?_, fun q hq => ?_⟩
    · obtain ⟨dk, hk, hwires⟩ := hfinds q hq
      exact ⟨dk, hdraws.trans hk, hwires⟩
    · rw [hports, List.flatMap_cons, List.foldl_append]
    · rw [hlist, hnewList, List.map_append, List.map_map, List.append_assoc]
      congr 2
      exact (List.map_id new).symm
    · rcases List.mem_append.mp hq with hq | hq
      · obtain ⟨p, hp, rfl⟩ := List.mem_map.mp hq
        obtain ⟨hnot, hfound⟩ := hnew p hp
        exact ⟨hnot, [], found, finds, rfl, hfound, List.forall_mem_nil _⟩
      · obtain ⟨hnot, hfirst⟩ := hfirst q hq
        rw [mem_foldl_addNew, not_or] at hnot
        exact ⟨hnot.1, hlater hnot.2 hfirst⟩

/-- A list that grows by what is new is one without repetitions. -/
theorem foldl_addNew (ports found : List SuperPort) : found.foldl addNew ports =
    ports ++ (found.filter fun p => !ports.contains p).eraseDups := by
  induction found generalizing ports with
  | nil => simp
  | cons q found ih =>
    rw [List.foldl_cons, ih, addNew]
    by_cases hq : ports.contains q = true
    · rw [if_pos hq, List.filter_cons_of_neg (by simpa using hq)]
    · rw [if_neg hq, List.filter_cons_of_pos (by simpa using hq), List.eraseDups_cons,
        List.filter_filter, List.append_assoc, List.singleton_append]
      congr 3
      refine List.filter_congr fun p _ => Bool.eq_iff_iff.mpr ?_
      simp [and_comm]

/-- The super-ports of a diagram that had none are the ones that were added. -/
theorem Adds.select {drawn : List (SuperPort × Slot)} (h : Adds d d' drawn)
    (hnone : ∀ j e, d.get? j = some e → e.role.isSuperPort = false) :
    (d'.select fun e => e.role.isSuperPort) = List.range' d.bound drawn.length := by
  refine List.Pairwise.eq_of_mem_iff ((List.pairwise_lt_range).filter _) List.pairwise_lt_range'
    fun j => ?_
  rw [Diagram.mem_select, List.mem_range'_1]
  constructor
  · rintro ⟨e, he, hport⟩
    refine ⟨?_, h.bound ▸ Diagram.lt_bound_of_get? he⟩
    by_contra hlt
    rw [h.same j (Nat.lt_of_not_le hlt)] at he
    rw [hnone j e he] at hport
    cases hport
  · rintro ⟨hle, hlt⟩
    have hk : j - d.bound < drawn.length := Nat.sub_lt_left_of_lt_add hle hlt
    obtain ⟨id, hget⟩ := h.new _ _ _ (List.getElem?_eq_getElem hk)
    rw [Nat.add_sub_cancel' hle] at hget
    exact ⟨_, hget, rfl⟩

theorem required_eq_ok {fs : Fields} {field value : String} :
    Cell.required fs field = .ok value ↔ fs.get? field = some value := by
  rw [Cell.required]
  cases fs.get? field with
  | none => exact ⟨fun h => (nomatch h), fun h => nomatch h⟩
  | some v => rw [Except.ok.injEq, Option.some.injEq]

/-- A number that was written into a field is read if it is in range. -/
theorem number_eq_ok {fs : Fields} {field : String} {limit n m : Nat}
    (h : fs.get? field = some (toString n)) :
    Cell.number fs field limit = .ok m ↔ n = m ∧ n ≤ limit := by
  rw [← Text.readNatural_toString, Cell.number, bind_eq_ok]
  simp only [required_eq_ok, h, Option.some.injEq, exists_eq_left', Text.trim_toString]
  cases Text.readNatural limit (toString n) with
  | ok k =>
    show (Except.ok k : Except FieldFault Nat) = .ok m ↔ _
    rw [Except.ok.injEq, Except.ok.injEq]
  | error fault => exact ⟨fun h => (nomatch h), fun h => nomatch h⟩

/-- **The fields of a super-port are read as that super-port**, if its numbers are in the
range of their types. -/
theorem superPort_reads_back {id : String} :
    Cell.superPort (superPortElement id c p).fields = .ok p ↔
      p.port ≤ Text.countLimit ∧ p.node ≤ Text.nodeLimit := by
  have hfield : ∀ {field value}, (field, value) ∈ [(SuperPort.subnetField, p.subnet),
      (SuperPort.linkField, p.link), (SuperPort.portField, toString p.port),
      (SuperPort.nodeField, toString p.node)] →
      (superPortElement id c p).fields.get? field = some value :=
    Fields.get?_ofList_of_mem (by simp only [List.map_cons, List.map_nil]; decide)
  have hsubnet := @hfield SuperPort.subnetField p.subnet (by simp)
  have hlink := @hfield SuperPort.linkField p.link (by simp)
  have hport := @hfield SuperPort.portField (toString p.port) (by simp)
  have hnode := @hfield SuperPort.nodeField (toString p.node) (by simp)
  simp only [Cell.superPort, bind_eq_ok, required_eq_ok, hsubnet, hlink, number_eq_ok hport,
    number_eq_ok hnode]
  constructor
  · rintro ⟨_, -, _, -, _, ⟨-, hle⟩, _, ⟨-, hle'⟩, -⟩
    exact ⟨hle, hle'⟩
  · rintro ⟨hle, hle'⟩
    exact ⟨_, rfl, _, rfl, _, ⟨rfl, hle⟩, _, ⟨rfl, hle'⟩, rfl⟩

/-- A super-port in a slot: the element of it at its connector, which can be read back. -/
def IsDrawn (d : Diagram) (p : SuperPort) (c j : Slot) : Prop :=
  ∃ id, d.get? j = some (superPortElement id c p) ∧
    (Cell.superPort (superPortElement id c p).fields = .ok p ↔ p.port ≤ Text.countLimit)

theorem Wires.node_le (h : Wires d placements a b ports) (hp : p ∈ ports) :
    p.node ≤ Text.nodeLimit := by
  obtain ⟨s, number?, -, hnumber, rfl⟩ := h
  obtain ⟨connection, -, hp⟩ := List.mem_filterMap.mp hp
  obtain ⟨number, hsome, rfl⟩ := Option.map_eq_some_iff.mp hp
  obtain ⟨j, e, -, -, -, -, -, -, hlabel⟩ := (hnumber _ _).mp hsome
  exact Element.labelNatural?_le hlabel

theorem FindsAt.node_le (h : FindsAt d placements c found) (hp : p ∈ found) :
    p.node ≤ Text.nodeLimit := by
  rw [FindsAt] at h
  split at h
  · rw [h] at hp
    cases hp
  · obtain ⟨one, two, hone, htwo, rfl⟩ := h
    exact (List.mem_append.mp hp).elim hone.node_le htwo.node_le

/-- **What is in the list was there to find** in the diagram before, if all ends are read
alike: put together in order and without repetitions. It is drawn in order, each super-port
at the connector it is found at first. -/
theorem stitch_finds {r : Stitching} (hroot : PlainRoot d)
    (hends : ∀ c ∈ connectorsIn d superNetwork, ∀ a b, joined? d c = some (a, b) →
      SameEnd d a ∧ SameEnd d b)
    (h : Edit.Runs (stitch naming placements superNetwork) d r d') :
    ∃ (finds : List (Slot × List SuperPort)) (drawn : List (SuperPort × Slot)),
      finds.map Prod.fst = connectorsIn d superNetwork ∧
      (∀ q ∈ finds, FindsAt d placements q.1 q.2) ∧
      r.superPorts = (finds.flatMap Prod.snd).eraseDups ∧ r.superPorts = drawn.map Prod.fst ∧
      Draws (withoutSuperPorts d) d' ∧ Adds (withoutSuperPorts d) d' drawn ∧
      ∀ q ∈ drawn, FirstFound finds q.1 q.2 := by
  have hstitch := stitch_runs_iff.mp ⟨r, h, rfl⟩
  obtain ⟨finds, hkeys, hfinds, hports, drawn, hadds, hlist, hfirst⟩ := stitchAll_draws hstitch
  refine ⟨finds, drawn, hkeys, fun q hq => ?_, ?_, hlist, (stitchAll_runs hstitch).1, hadds,
    fun q hq => (hfirst q hq).2⟩
  · obtain ⟨dk, hk, hwires⟩ := hfinds q hq
    have hc : q.1 ∈ connectorsIn d superNetwork := hkeys ▸ List.mem_map_of_mem hq
    obtain ⟨-, e, he, -⟩ := mem_connectorsIn.mp hc
    exact findsAt_of_wiresAt hroot hk (Diagram.lt_bound_of_get? he) (hends _ hc) hwires
  · rw [hports, foldl_addNew, List.nil_append]
    congr 1
    exact List.filter_eq_self.mpr fun _ _ => rfl

/-- **The super-ports are the matched connections**: what there is to find at the
connectors of the super-network, put together in order and without repetitions. Exactly
these are drawn, in order and each at the connector it is found at first, and nothing else
changes but ends at old super-ports. -/
theorem stitch_matches {r : Stitching} (hread : Readable d superNetwork)
    (h : Edit.Runs (stitch naming placements superNetwork) d r d') :
    ∃ finds : List (Slot × List SuperPort), finds.map Prod.fst = connectorsIn d superNetwork ∧
      (∀ q ∈ finds, FindsAt d placements q.1 q.2) ∧
      r.superPorts = (finds.flatMap Prod.snd).eraseDups ∧
      List.Forall₂ (fun p j => ∃ c, FirstFound finds p c ∧ IsDrawn d' p c j) r.superPorts
        (d'.select fun e => e.role.isSuperPort) ∧
      Redrawn d d' := by
  obtain ⟨finds, drawn, hkeys, hall, hports, hlist, hdraws, hadds, hfirst⟩ :=
    stitch_finds hread.root (fun c hc a b => hread.sameEnds hc) h
  -- All old super-ports are discarded, so the ones that are drawn are all there are.
  have hnone : ∀ j e, (withoutSuperPorts d).get? j = some e → e.role.isSuperPort = false := by
    intro j e he
    obtain ⟨e₀, -, hport, rfl⟩ := get?_withoutSuperPorts_eq_some hread.root he
    rwa [Element.role_detachAll]
  refine ⟨finds, hkeys, hall, hports, ?_, redrawn_of_draws hread.root hdraws⟩
  rw [hadds.select hnone, hlist, List.forall₂_iff_get]
  refine ⟨by simp, fun k hk hk' => ?_⟩
  rw [List.length_map] at hk
  obtain ⟨id, hget⟩ := hadds.new k _ _ (List.getElem?_eq_getElem hk)
  have hfirst := hfirst _ (List.getElem_mem hk)
  have hnode : drawn[k].1.node ≤ Text.nodeLimit := by
    obtain ⟨before, found, after, heq, hp, -⟩ := hfirst
    exact (hall _ (heq ▸ List.mem_append_right _ List.mem_cons_self)).node_le hp
  simp only [List.get_eq_getElem, List.getElem_map, List.getElem_range', Nat.one_mul]
  exact ⟨_, hfirst, id, hget, superPort_reads_back.trans (and_iff_left hnode)⟩

/-- A bridge between two houses: two connectors that join the same interfaces, as one ends
at a marked copy, where a super-port is left from before. -/
def bridge : Diagram :=
  diagramOf
    [{ id := "root", role := .root },
      { id := "all", role := .network .super, label := "Town", parent := some 0 },
      { id := "s", role := .network .sub, label := "S", parent := some 1 },
      { id := "o", role := .interface ⟨some ⟨1, [⟨"V1", 1, "out", [0, -1]⟩]⟩, none⟩,
        label := "outlet", parent := some 2 },
      { id := "n", role := .node .basic, label := "0", parent := some 3,
        fields := Fields.ofList [(Element.keyField, "in")] },
      { id := "g", role := .node .ground, parent := some 3,
        fields := Fields.ofList [(Element.keyField, "out")] },
      { id := "t", role := .network .sub, label := "T", parent := some 1 },
      { id := "i", role := .interface ⟨some ⟨2, [⟨"V2", 0, "in", [-1, 0]⟩]⟩, none⟩,
        label := "inlet", parent := some 6 },
      { id := "m", role := .node .ground, parent := some 7,
        fields := Fields.ofList [(Element.keyField, "in")] },
      { id := "k", role := .node .basic, label := "1", parent := some 7,
        fields := Fields.ofList [(Element.keyField, "out")] },
      { id := "j", role := .interface ⟨none, some 7⟩, label := "inlet", parent := some 6 },
      { id := "c", role := .connector, parent := some 1, source := some 3, target := some 7 },
      { id := "b", role := .connector, parent := some 1, source := some 10, target := some 3 },
      { id := "p", role := .superPort ⟨"S", "V9", 0, 0⟩, parent := some 12 }]

/-- Each valve is bound to the node with its key across the bridge, at the first connector. -/
theorem stitch_matches_bridge : Readable bridge 1 ∧
    ∃ r d', Edit.Runs (stitch (fun slot => toString slot)
        [(2, ⟨"S", 0, 1⟩), (6, ⟨"T", 1, 2⟩)] 1) bridge r d' ∧
      r.superPorts = [⟨"S", "V1", 1, 1⟩, ⟨"T", "V2", 0, 0⟩] ∧
      List.Forall₂ (fun p j => ∃ c, IsDrawn d' p c j) r.superPorts
        (d'.select fun e => e.role.isSuperPort) ∧ Redrawn bridge d' := by
  have hread : Readable bridge 1 := by
    have hsound : Sound bridge := by decide +kernel
    have hconnectors : connectorsIn bridge 1 = [11, 12] := by decide +kernel
    refine ⟨hsound.root, fun i p e hp he => ?_,
      fun c _ a b _ => ⟨hsound.marks a, hsound.marks b⟩, fun c hc a b hab => ?_⟩
    · have hleaves : ∀ q ∈ bridge.elements, ∀ p ∈ q.2.parent, ∀ e ∈ bridge.get? p,
          e.role.isSuperPort = false := by decide +kernel
      obtain ⟨x, hx, hp⟩ := hp
      exact hleaves (i, x) (Diagram.mem_elements.mpr hx) p hp e he
    · rw [hconnectors] at hc
      rcases List.mem_pair.mp hc with rfl | rfl
      all_goals
        cases hab
        exact ⟨⟨_, .hit ⟨_, rfl, rfl⟩ rfl rfl⟩, _, .hit ⟨_, rfl, rfl⟩ rfl rfl⟩
  have hrun : ((stitch (fun slot => toString slot) [(2, ⟨"S", 0, 1⟩), (6, ⟨"T", 1, 2⟩)] 1).run
      bridge).result.toOption.map Stitching.superPorts =
        some [⟨"S", "V1", 1, 1⟩, ⟨"T", "V2", 0, 0⟩] := by cbv
  obtain ⟨r, hr, hports⟩ := Option.map_eq_some_iff.mp hrun
  obtain ⟨finds, -, -, -, hdrawn, hredrawn⟩ :=
    stitch_matches hread ⟨toOption_eq_some.mp hr, rfl⟩
  refine ⟨hread, r, _, ⟨toOption_eq_some.mp hr, rfl⟩, hports, hdrawn.imp fun _ _ h => ?_, hredrawn⟩
  obtain ⟨c, -, h⟩ := h
  exact ⟨c, h⟩

/-- What is offered for a connection of a side is wired. -/
theorem Wires.mem {s : Slot} {connection : Connection} {number : Nat}
    (h : Wires d placements a b ports)
    (hnear : d.Nearest (fun _ e => e.role.isSubNetwork) (canonical d a) s)
    (hrecorded : connection ∈ recordedAt d (canonical d a))
    (hoffers : Offers d (canonical d b) connection.key number) :
    ⟨nameAt placements s, connection.link, connection.port, number⟩ ∈ ports := by
  obtain ⟨s', number?, hnear', hnumber, rfl⟩ := h
  obtain rfl := hnear.unique hnear'
  refine List.mem_filterMap.mpr ⟨connection, hrecorded, ?_⟩
  rw [(hnumber _ _).mpr hoffers, Option.map_some]

/-- Two houses with two connectors. A mark in the second house names the next slot, and a
node is drawn there, while nothing is there yet. -/
def taken : Diagram :=
  let outlet (link key : String) : Role := .interface ⟨some ⟨1, [⟨link, 1, key, [0, -1]⟩]⟩, none⟩
  let key (k : String) := Fields.ofList [(Element.keyField, k)]
  diagramOf
    [{ id := "root", role := .root },
      { id := "all", role := .network .super, label := "Town", parent := some 0 },
      { id := "s", role := .network .sub, label := "S", parent := some 1 },
      { id := "o", role := outlet "V1" "in", parent := some 2 },
      { id := "g", role := .node .ground, parent := some 3, fields := key "in" },
      { id := "p", role := outlet "V2" "out", parent := some 2 },
      { id := "h", role := .node .ground, parent := some 5, fields := key "out" },
      { id := "t", role := .network .sub, label := "T", parent := some 1 },
      { id := "i", role := .interface ⟨none, none⟩, parent := some 7 },
      { id := "n", role := .node .basic, label := "0", parent := some 8, fields := key "in" },
      { id := "j", role := .interface ⟨none, some 15⟩, parent := some 7 },
      { id := "m", role := .node .basic, label := "0", parent := some 10, fields := key "out" },
      { id := "c", role := .connector, parent := some 2, source := some 3, target := some 8 },
      { id := "b", role := .connector, parent := some 1, source := some 5, target := some 10 },
      { id := "z", role := .node .basic, label := "7", parent := some 15, fields := key "out" }]

/-- **A mark that names a slot which was not issued leads astray**: the super-port of the
first connector gets into that slot, and is read in place of the interface at the second. -/
theorem mark_astray : ¬ ∀ (naming : Naming) (placements : Placements) (top : Slot)
    (d d' : Diagram) (r : Stitching), naming.Novel d → d.validate = .ok () → d.BarePorts →
    (∀ c ∈ connectorsIn d top, ∀ a b, joined? d c = some (a, b) → ∀ i ∈ [a, b],
      ∃ s p, home? d i = .ok (some s) ∧ placements.lookup s = some p) →
    Edit.Runs (stitch naming placements top) d r d' →
    ∃ finds : List (Slot × List SuperPort), finds.map Prod.fst = connectorsIn d top ∧
      (∀ q ∈ finds, FindsAt d placements q.1 q.2) ∧
      r.superPorts = (finds.flatMap Prod.snd).eraseDups := by
  intro hall
  have hrun : ((stitch (Naming.stroked "") [(2, ⟨"S", 0, 1⟩), (7, ⟨"T", 1, 1⟩)] 1).run
      taken).result.toOption.map Stitching.superPorts =
        some [⟨"S", "V1", 1, 0⟩, ⟨"S", "V2", 1, 7⟩] := by cbv
  obtain ⟨r, hr, hports⟩ := Option.map_eq_some_iff.mp hrun
  have hconnectors : connectorsIn taken 1 = [12, 13] := by decide +kernel
  have hleaves : ∀ q ∈ taken.elements, ∀ p ∈ q.2.parent, ∀ e ∈ taken.get? p,
      e.role.isSuperPort = false := by decide +kernel
  have hbare : taken.BarePorts := by
    rintro i p e ⟨x, hx, hp⟩ he
    exact hleaves (i, x) (Diagram.mem_elements.mpr hx) p hp e he
  have hplaced : ∀ c ∈ connectorsIn taken 1, ∀ a b, joined? taken c = some (a, b) →
      ∀ i ∈ [a, b], ∃ s p, home? taken i = .ok (some s) ∧
        List.lookup s [(2, (⟨"S", 0, 1⟩ : Placement)), (7, ⟨"T", 1, 1⟩)] = some p := by
    intro c hc a b hab i hi
    rw [hconnectors] at hc
    rcases List.mem_pair.mp hc with rfl | rfl
    all_goals
      cases hab
      rcases List.mem_pair.mp hi with rfl | rfl
      all_goals exact ⟨_, _, by cbv, rfl⟩
  obtain ⟨finds, hkeys, hfinds, hlist⟩ := hall (Naming.stroked "")
    [(2, ⟨"S", 0, 1⟩), (7, ⟨"T", 1, 1⟩)] 1 taken _ r (Naming.novel_strokes (by decide)) (by cbv)
    hbare hplaced ⟨toOption_eq_some.mp hr, rfl⟩
  -- The second connector joins `p` with `j`, and the node of `j` is there to be found.
  obtain ⟨⟨_, found⟩, hmem, rfl⟩ : ∃ q ∈ finds, q.1 = 13 :=
    List.mem_map.mp (hkeys ▸ hconnectors ▸ by decide)
  obtain ⟨one, two, hone, -, rfl⟩ := hfinds _ hmem
  have hfound : (⟨"S", "V2", 1, 0⟩ : SuperPort) ∈ one :=
    hone.mem (.hit ⟨_, rfl, rfl⟩ rfl rfl) List.mem_cons_self
      ⟨11, _, rfl, rfl, by decide, rfl, rfl, rfl, by cbv⟩
  have hport : (⟨"S", "V2", 1, 0⟩ : SuperPort) ∈ r.superPorts := by
    rw [hlist, List.mem_eraseDups]
    exact List.mem_flatMap.mpr ⟨_, hmem, List.mem_append_left _ hfound⟩
  rw [hports] at hport
  revert hport
  decide

end Netlist.Assembly
