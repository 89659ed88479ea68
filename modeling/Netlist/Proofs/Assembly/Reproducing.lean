import Netlist.Proofs.Assembly.Carrying
import Netlist.Proofs.Diagram.Loops

/-!
# The same findings in other slots

Stitching reads off a connector which interfaces it joins, and off each of them the
nodes, the record and the container around it. In a diagram that has all this in other
slots it finds the same.

- `Reproduces`: a diagram with the interfaces, marks and connectors of another one below
  a super-network, in other slots.
- `Reproduces.side`, `checkCompatible_eq_ok`: a side is the same, and what is checked of
  two sides.
- `Reproduces.wiresAt`: **what is found for a connector is found again.**
- `Reproduces.connectorsIn`: the connectors are visited in the same order, if they are
  in the same order.
-/

namespace Netlist.Assembly

open Diagram (BarePorts proper?_eq_some)

variable {f g : Slot → Slot} {d d₁ d' : Diagram} {a b c i j top : Slot} {e e' : Element}
  {placements : Placements} {found : List SuperPort} {s s' t t' : Side}

/-! ## Being inside -/

theorem Carries.inside (h : Carries f d d') (hports : d.BarePorts) (he : d.proper? i = some e)
    (hin : d.Inside i top) : d'.Inside (f i) (f top) := by
  induction hin using Relation.TransGen.head_induction_on generalizing e with
  | single hp =>
    obtain ⟨x, hx, hparent⟩ := hp
    obtain ⟨x', hx', hlike⟩ := h.element _ e he
    rw [(proper?_eq_some.mp he).1] at hx
    cases hx
    exact .single ⟨x', (proper?_eq_some.mp hx').1, by rw [hlike.parent, hparent, Option.map_some]⟩
  | head hp hin ih =>
    obtain ⟨x, hx, hparent⟩ := id hp
    obtain ⟨x', hx', hlike⟩ := h.element _ e he
    rw [(proper?_eq_some.mp he).1] at hx
    cases hx
    obtain ⟨y, hy⟩ := Diagram.Inside.live hin
    exact (ih (proper?_eq_some.mpr ⟨hy, hports _ _ y hp hy⟩)).head
      ⟨x', (proper?_eq_some.mp hx').1, by rw [hlike.parent, hparent, Option.map_some]⟩

/-- Nothing is added inside an element that is carried. -/
theorem Carries.inside_back (h : Carries f d d') (hports : d'.BarePorts) (htop : top < d.bound)
    (he' : d'.proper? j = some e') (hin : d'.Inside j (f top)) :
    ∃ i e, d.proper? i = some e ∧ d.Inside i top ∧ f i = j := by
  induction hin using Relation.TransGen.head_induction_on generalizing e' with
  | single hp =>
    obtain ⟨x, hx, hparent⟩ := hp
    rw [(proper?_eq_some.mp he').1] at hx
    cases hx
    obtain ⟨i, e, he, hparent, rfl⟩ := h.child top _ e' htop he' hparent
    exact ⟨i, e, he, .single ⟨e, (proper?_eq_some.mp he).1, hparent⟩, rfl⟩
  | head hp hin ih =>
    obtain ⟨x, hx, hparent⟩ := id hp
    rw [(proper?_eq_some.mp he').1] at hx
    cases hx
    obtain ⟨y, hy⟩ := Diagram.Inside.live hin
    obtain ⟨p, z, hz, hin', rfl⟩ := ih (proper?_eq_some.mpr ⟨hy, hports _ _ y hp hy⟩)
    obtain ⟨i, e, he, hparent, rfl⟩ := h.child p _ e' (Diagram.lt_bound_of_proper? hz) he' hparent
    exact ⟨i, e, he, hin'.head ⟨e, (proper?_eq_some.mp he).1, hparent⟩, rfl⟩

/-! ## Reproducing -/

/-- The diagram `d'` carries what `d` has. Network containers keep their slots, marks lead
to the same interfaces, and the connectors inside the super-network are attached to the
same interfaces. -/
structure Reproduces (f : Slot → Slot) (top : Slot) (d d' : Diagram) : Prop
    extends Carries f d d' where
  fixes : f top = top
  subs : ∀ i e, d.get? i = some e → e.role.isSubNetwork = true → f i = i
  marks : ∀ a e e', d.get? a = some e → e.role.isInterface = true → d'.get? (f a) = some e' →
    e'.role.mark? = e.role.mark?.map f
  ends : ∀ c e e', d.Inside c top → d.get? c = some e → e.role = .connector →
    d'.get? (f c) = some e' → ∀ isSource a', e'.endAt isSource = some a' ∧ isInterface d' a' = true ↔
      ∃ a, f a = a' ∧ e.endAt isSource = some a ∧ isInterface d a = true

theorem isSuperPort_of_connector (h : e.role = .connector) : e.role.isSuperPort = false := by
  rw [h]
  rfl

/-- A connector is carried to a connector. -/
theorem Carries.connector (h : Carries f d d') (he : d.get? c = some e) (hrole : e.role = .connector) :
    ∃ e', d'.get? (f c) = some e' ∧ e'.role = .connector := by
  obtain ⟨e', he', hlike⟩ := h.element c e (proper?_eq_some.mpr ⟨he, isSuperPort_of_connector hrole⟩)
  refine ⟨e', (proper?_eq_some.mp he').1, ?_⟩
  rw [Role.eq_of_unmarked hlike.role (by rw [hrole]; rfl), hrole]

theorem Reproduces.trans (h : Reproduces f top d d₁) (h' : Reproduces g top d₁ d')
    (hports : d.BarePorts) : Reproduces (g ∘ f) top d d' where
  toCarries := h.toCarries.trans h'.toCarries
  fixes := (congrArg g h.fixes).trans h'.fixes
  subs := by
    intro i e he hsub
    have hport : e.role.isSuperPort = false := by
      cases hr : e.role <;> rw [hr] at hsub <;> first | rfl | cases hsub
    obtain ⟨e₁, he₁, hlike⟩ := h.element i e (proper?_eq_some.mpr ⟨he, hport⟩)
    have hsub₁ : e₁.role.isSubNetwork = true :=
      (Role.congr_of_unmarked Role.isSubNetwork_unmarked hlike.role).trans hsub
    have hfix := h.subs i e he hsub
    rw [hfix] at he₁
    rw [Function.comp_apply, hfix, h'.subs i e₁ (proper?_eq_some.mp he₁).1 hsub₁]
  marks := by
    intro a e e' he hrole he'
    obtain ⟨e₁, he₁, hlike⟩ :=
      h.element a e (proper?_eq_some.mpr ⟨he, Role.isSuperPort_of_isInterface hrole⟩)
    have hget₁ := (proper?_eq_some.mp he₁).1
    have hrole₁ := (Role.congr_of_unmarked Role.isInterface_unmarked hlike.role).trans hrole
    rw [h'.marks _ e₁ e' hget₁ hrole₁ he', h.marks a e e₁ he hrole hget₁, Option.map_map]
  ends := by
    intro c e e' hin he hrole he' isSource a'
    obtain ⟨e₁, he₁, hrole₁⟩ := h.connector he hrole
    have hin₁ : d₁.Inside (f c) top := by
      have := h.inside hports (proper?_eq_some.mpr ⟨he, isSuperPort_of_connector hrole⟩) hin
      rwa [h.fixes] at this
    rw [h'.ends (f c) e₁ e' hin₁ he₁ hrole₁ he']
    constructor
    · rintro ⟨a₁, rfl, hend₁⟩
      obtain ⟨a, rfl, hend⟩ := (h.ends c e e₁ hin he hrole he₁ isSource a₁).mp hend₁
      exact ⟨a, rfl, hend⟩
    · rintro ⟨a, rfl, hend⟩
      exact ⟨f a, rfl, (h.ends c e e₁ hin he hrole he₁ isSource (f a)).mpr ⟨a, rfl, hend⟩⟩

/-! ## Sides -/

/-- Every mark leads to an element that is there. -/
def MarksLead (d : Diagram) : Prop :=
  ∀ a e first, d.get? a = some e → e.role.mark? = some first → ∃ e', d.proper? first = some e'

theorem canonical_eq (d : Diagram) (a : Slot) :
    canonical d a = (((d.get? a).bind fun e => e.role.mark?).filter d.isLive).getD a := by
  rw [canonical]
  cases d.get? a with
  | none => rfl
  | some e => cases hr : e.role <;> simp only [Option.map_some, Option.bind_some, Role.mark?, hr] <;> rfl

/-- The interface that stands for an interface is carried to the one that does so there. -/
theorem Reproduces.canonical (h : Reproduces f top d d') (hmarks : MarksLead d)
    (ha : isInterface d a = true) : Assembly.canonical d' (f a) = f (Assembly.canonical d a) ∧
      ∃ e, d.proper? (Assembly.canonical d a) = some e := by
  obtain ⟨e, he, hrole⟩ := isInterface_iff_proper?.mp ha
  obtain ⟨e', he', -⟩ := h.element a e he
  have hget := (proper?_eq_some.mp he).1
  have hget' := (proper?_eq_some.mp he').1
  have hmark := h.marks a e e' hget hrole hget'
  rw [canonical_eq, canonical_eq, hget, hget', Option.bind_some, Option.bind_some, hmark]
  cases hfirst : e.role.mark? with
  | none => exact ⟨rfl, e, he⟩
  | some first =>
    obtain ⟨x, hx⟩ := hmarks a e first hget hfirst
    obtain ⟨x', hx', -⟩ := h.element first x hx
    rw [Option.map_some, Option.filter_some, Option.filter_some,
      if_pos (Diagram.isLive_iff.mpr ⟨x, (proper?_eq_some.mp hx).1⟩),
      if_pos (Diagram.isLive_iff.mpr ⟨x', (proper?_eq_some.mp hx').1⟩)]
    exact ⟨rfl, x, hx⟩

/-- The nearest network container is the same. -/
theorem Reproduces.nearest (h : Reproduces f top d d') (hports : d.BarePorts)
    (he : d.proper? i = some e) (hnear : d.Nearest (fun _ e => e.role.isSubNetwork) i c) :
    d'.Nearest (fun _ e => e.role.isSubNetwork) (f i) c := by
  have hup : ∀ {i p e}, d.proper? i = some e → d.HasParent i p → d'.HasParent (f i) (f p) := by
    rintro i p e he ⟨x, hx, hparent⟩
    rw [(proper?_eq_some.mp he).1] at hx
    cases hx
    obtain ⟨e', he', hlike⟩ := h.element i e he
    exact ⟨e', (proper?_eq_some.mp he').1, by rw [hlike.parent, hparent, Option.map_some]⟩
  induction hnear generalizing e with
  | @hit i p x parent here passes =>
    have hx := proper?_eq_some.mpr ⟨here, hports i p x parent here⟩
    obtain ⟨x', hx', hlike⟩ := h.element p x hx
    have hfix := h.subs p x here passes
    have hp := hup he parent
    rw [hfix] at hp hx'
    refine .hit hp (proper?_eq_some.mp hx').1 ?_
    exact (Role.congr_of_unmarked Role.isSubNetwork_unmarked hlike.role).trans passes
  | @skip i p r x parent here fails above ih =>
    have hx := proper?_eq_some.mpr ⟨here, hports i p x parent here⟩
    obtain ⟨x', hx', hlike⟩ := h.element p x hx
    refine .skip (hup he parent) (proper?_eq_some.mp hx').1 ?_ (ih hx)
    exact (Role.congr_of_unmarked Role.isSubNetwork_unmarked hlike.role).trans fails

/-- Two sides of which the same is read, each in its diagram. -/
structure SameSide (d d' : Diagram) (s s' : Side) : Prop where
  subnet : s'.subnet = s.subnet
  nodes : List.Forall₂ SameNode s.nodes s'.nodes
  record : s'.record? d' = s.record? d
  locator : ∃ l, s'.locator d' = .ok l

/-- **A side is the same.** -/
theorem Reproduces.side (h : Reproduces f top d d') (hports : d.BarePorts) (hmarks : MarksLead d)
    (hrooted : d'.Rooted) (hloop : ∀ i, ¬ d'.Inside i i) (ha : isInterface d a = true)
    (hside : side d a = .ok s) : ∃ s', Assembly.side d' (f a) = .ok s' ∧ SameSide d d' s s' := by
  obtain ⟨hinterface, hnodes, hnear⟩ := side_eq_ok.mp hside
  obtain ⟨hcanonical, e, he⟩ := h.canonical hmarks ha
  obtain ⟨e', he', hlike⟩ := h.element _ e he
  have hget := (proper?_eq_some.mp he).1
  have hget' := (proper?_eq_some.mp he').1
  have hnear' := h.nearest hports he (Diagram.nearestAncestor_eq_some hnear)
  refine ⟨⟨f (Assembly.canonical d a), s.subnet, Assembly.nodesOf d' (f (Assembly.canonical d a))⟩,
    side_eq_ok.mpr ⟨hcanonical.symm, by rw [hcanonical], ?_⟩, rfl, ?_, ?_, e'.locator, ?_⟩
  · rw [hcanonical]
    exact ((Diagram.nearestAncestor_eq_ok hrooted hloop _).2 _).mpr hnear'
  · rw [hnodes]
    exact h.nodesOf (Diagram.lt_bound_of_proper? he)
  · rw [Side.record?, Side.record?, hinterface, hget, hget', Option.bind_some, Option.bind_some,
      Role.congr_of_unmarked Role.record?_unmarked hlike.role]
  · rw [Side.locator, Diagram.fetch_eq_ok.mpr hget']
    rfl

/-! ## Two sides -/

theorem checkCount_eq_ok_iff : checkCount d placements s = .ok () ↔
    ∀ record placed, s.record? d = some record → placements.lookup s.subnet = some placed →
      record.nodeCount = placed.nodeCount := by
  rw [checkCount]
  split
  · rename_i record placed hrecord hplaced
    rw [hrecord, hplaced]
    split
    · rename_i hcount
      exact ⟨fun _ record' placed' hr hp => by cases hr; cases hp; exact hcount, fun _ => rfl⟩
    · rename_i hcount
      constructor
      · intro h
        rw [bind_eq_ok] at h
        obtain ⟨_, -, h⟩ := h
        cases h
      · exact fun h => absurd (h record placed rfl rfl) hcount
  · rename_i hnone
    refine ⟨fun _ record placed hrecord hplaced => ?_, fun _ => rfl⟩
    exact absurd hplaced (hnone record placed hrecord)

/-- **What is checked of two sides.** -/
theorem checkCompatible_eq_ok : checkCompatible d placements c s t = .ok () ↔
    ((∃ l, s.locator d = .ok l) ∧ ∃ l, t.locator d = .ok l) ∧ s.nodes.length = t.nodes.length ∧
      s.keys = t.keys ∧ repeatedKey? [] (s.bound.map Prod.fst) = none ∧
      repeatedKey? (s.bound.map Prod.fst) (t.bound.map Prod.fst) = none ∧
      checkCount d placements s = .ok () ∧ checkCount d placements t = .ok () := by
  have hbindings : checkBindings d s t = .ok () ↔ repeatedKey? [] (s.bound.map Prod.fst) = none ∧
      repeatedKey? (s.bound.map Prod.fst) (t.bound.map Prod.fst) = none := by
    rw [checkBindings]
    cases repeatedKey? [] (s.bound.map Prod.fst) with
    | some key =>
      simp only [reduceCtorEq, false_and, iff_false]
      rw [bind_eq_ok]
      rintro ⟨_, -, h⟩
      cases h
    | none =>
      cases repeatedKey? (s.bound.map Prod.fst) (t.bound.map Prod.fst) with
      | some key =>
        simp only [reduceCtorEq, and_false, iff_false]
        rw [bind_eq_ok]
        rintro ⟨_, -, h⟩
        cases h
      | none => simp
  rw [checkCompatible, bind_eq_ok]
  constructor
  · rintro ⟨nameS, hnameS, h⟩
    rw [bind_eq_ok] at h
    obtain ⟨nameT, hnameT, h⟩ := h
    -- The checks are gone along in order. Each one that fails ends the run with an error.
    split at h
    · cases h
    rename_i hlength
    split at h
    · rw [bind_eq_ok] at h
      obtain ⟨_, -, h⟩ := h
      cases h
    rename_i hkeys
    rw [bind_eq_ok] at h
    obtain ⟨_, hbound, h⟩ := h
    rw [bind_eq_ok] at h
    obtain ⟨_, hs, ht⟩ := h
    obtain ⟨hone, htwo⟩ := hbindings.mp hbound
    exact ⟨⟨⟨nameS, hnameS⟩, nameT, hnameT⟩, not_not.mp hlength, not_not.mp hkeys, hone, htwo, hs, ht⟩
  · rintro ⟨⟨⟨nameS, hnameS⟩, nameT, hnameT⟩, hlength, hkeys, hone, htwo, hs, ht⟩
    refine ⟨nameS, hnameS, ?_⟩
    rw [bind_eq_ok]
    refine ⟨nameT, hnameT, ?_⟩
    rw [if_neg (not_not.mpr hlength), if_neg (not_not.mpr hkeys)]
    rw [bind_eq_ok]
    refine ⟨(), hbindings.mpr ⟨hone, htwo⟩, ?_⟩
    rw [bind_eq_ok]
    exact ⟨(), hs, ht⟩

theorem SameNode.key? {n n' : Slot × Element} (h : SameNode n n') : n'.2.key? = n.2.key? := by
  rw [Element.key?, Element.key?, h.fields]

theorem SameSide.keys (h : SameSide d d' s s') : s'.keys = s.keys := by
  rw [Side.keys, Side.keys, filterMap_congr_forall₂ h.nodes fun _ _ hnode => hnode.key?]

/-- The nodes that can be bound have the same keys and labels. -/
theorem SameSide.bound (h : SameSide d d' s s') : List.Forall₂
    (fun p p' => p'.1 = p.1 ∧ p'.2.label = p.2.label) s.bound s'.bound := by
  have hnodes := h.nodes
  rw [Side.bound, Side.bound]
  generalize s.nodes = nodes at hnodes
  generalize s'.nodes = nodes' at hnodes
  induction hnodes with
  | nil => exact .nil
  | @cons n n' rest rest' hnode _ ih =>
    have hground : (!n'.2.isGround) = !n.2.isGround := by
      rw [Element.isGround, Element.isGround, hnode.role]
    rw [List.filter_cons, List.filter_cons, hground]
    split
    · rw [List.filterMap_cons, List.filterMap_cons, hnode.key?]
      cases n.2.key? with
      | none => exact ih
      | some key => exact .cons ⟨rfl, hnode.label⟩ ih
    · exact ih

theorem map_fst_eq_of_forall₂ {ps ps' : List (String × Element)}
    (h : List.Forall₂ (fun p p' => p'.1 = p.1 ∧ p'.2.label = p.2.label) ps ps') :
    ps'.map Prod.fst = ps.map Prod.fst := by
  induction h with
  | nil => rfl
  | cons hp _ ih => rw [List.map_cons, List.map_cons, hp.1, ih]

/-- What is looked up by a key has the same label. -/
theorem lookup_label_of_forall₂ {ps ps' : List (String × Element)} (key : String)
    (h : List.Forall₂ (fun p p' => p'.1 = p.1 ∧ p'.2.label = p.2.label) ps ps') :
    (ps'.lookup key).map Element.label = (ps.lookup key).map Element.label := by
  induction h with
  | nil => rfl
  | @cons p p' ps ps' hp _ ih =>
    obtain ⟨k, e⟩ := p
    obtain ⟨k', e'⟩ := p'
    obtain ⟨rfl, hlabel⟩ := hp
    rw [List.lookup_cons, List.lookup_cons]
    cases key == k' with
    | true => exact congrArg some hlabel
    | false => exact ih

/-- **The same sides fit together.** -/
theorem SameSide.checkCompatible (hs : SameSide d d' s s') (ht : SameSide d d' t t')
    (h : checkCompatible d placements c s t = .ok ()) (c' : Slot) :
    Assembly.checkCompatible d' placements c' s' t' = .ok () := by
  obtain ⟨-, hlength, hkeys, hone, htwo, hcountS, hcountT⟩ := checkCompatible_eq_ok.mp h
  have hcount : ∀ {s s'}, SameSide d d' s s' → checkCount d placements s = .ok () →
      checkCount d' placements s' = .ok () := by
    intro s s' hs h
    rw [checkCount_eq_ok_iff] at h ⊢
    rw [hs.record, hs.subnet]
    exact h
  refine checkCompatible_eq_ok.mpr ⟨⟨hs.locator, ht.locator⟩, ?_, ?_, ?_, ?_, hcount hs hcountS,
    hcount ht hcountT⟩
  · rw [← hs.nodes.length_eq, ← ht.nodes.length_eq, hlength]
  · rw [hs.keys, ht.keys, hkeys]
  · rw [map_fst_eq_of_forall₂ hs.bound, hone]
  · rw [map_fst_eq_of_forall₂ hs.bound, map_fst_eq_of_forall₂ ht.bound, htwo]

/-- **The same super-ports are found between the same sides.** -/
theorem SameSide.superPortsOf (hs : SameSide d d' s s') (ht : SameSide d d' t t') :
    Assembly.superPortsOf d' placements s' t' = Assembly.superPortsOf d placements s t := by
  rw [Assembly.superPortsOf, Assembly.superPortsOf, hs.record, hs.subnet]
  refine List.filterMap_congr fun connection _ => ?_
  have hlabel := lookup_label_of_forall₂ connection.key (List.rel_reverse ht.bound)
  rw [superPort?, superPort?]
  cases hnode : t.bound.reverse.lookup connection.key with
  | none =>
    rw [hnode, Option.map_none, Option.map_eq_none_iff] at hlabel
    rw [hlabel]
  | some node =>
    rw [hnode, Option.map_some, Option.map_eq_some_iff] at hlabel
    obtain ⟨node', hnode', hlabel⟩ := hlabel
    rw [hnode', Option.bind_some, Option.bind_some, Element.labelNatural?_congr _ hlabel]

/-! ## Connectors -/

/-- A connector joins the same interfaces. -/
theorem Reproduces.joined? (h : Reproduces f top d d') (hin : d.Inside c top)
    (he : d.get? c = some e) (hrole : e.role = .connector) :
    Assembly.joined? d' (f c) = (Assembly.joined? d c).map fun p => (f p.1, f p.2) := by
  obtain ⟨e', he', hrole'⟩ := h.connector he hrole
  have hends := h.ends c e e' hin he hrole he'
  refine Option.ext fun ⟨a', b'⟩ => ?_
  rw [joined?_iff, Option.map_eq_some_iff]
  constructor
  · rintro ⟨x, hx, -, hsource, htarget, ha, hb⟩
    rw [he'] at hx
    cases hx
    obtain ⟨a, rfl, hsource, ha⟩ := (hends true a').mp ⟨hsource, ha⟩
    obtain ⟨b, rfl, htarget, hb⟩ := (hends false b').mp ⟨htarget, hb⟩
    exact ⟨(a, b), joined?_iff.mpr ⟨e, he, hrole, hsource, htarget, ha, hb⟩, rfl⟩
  · rintro ⟨⟨a, b⟩, hab, heq⟩
    obtain ⟨x, hx, -, hsource, htarget, ha, hb⟩ := joined?_iff.mp hab
    rw [he] at hx
    cases hx
    cases heq
    obtain ⟨hsource, ha⟩ := (hends true (f a)).mpr ⟨a, rfl, hsource, ha⟩
    obtain ⟨htarget, hb⟩ := (hends false (f b)).mpr ⟨b, rfl, htarget, hb⟩
    exact ⟨e', he', hrole', hsource, htarget, ha, hb⟩

/-- **What is found for a connector is found again.** -/
theorem Reproduces.wiresAt (h : Reproduces f top d d') (hports : d.BarePorts) (hmarks : MarksLead d)
    (hrooted : d'.Rooted) (hloop : ∀ i, ¬ d'.Inside i i) (hin : d.Inside c top)
    (he : d.get? c = some e) (hrole : e.role = .connector)
    (hwires : wiresAt d placements c = .ok found) :
    Assembly.wiresAt d' placements (f c) = .ok found := by
  rw [Assembly.wiresAt] at hwires
  rw [Assembly.wiresAt, h.joined? hin he hrole]
  cases hjoined : Assembly.joined? d c with
  | none =>
    rw [hjoined] at hwires
    exact hwires
  | some pair =>
    obtain ⟨a, b⟩ := pair
    rw [hjoined] at hwires
    obtain ⟨-, -, -, -, -, ha, hb⟩ := joined?_iff.mp hjoined
    obtain ⟨s, t, hs, ht, hcheck, rfl⟩ := bindSides_eq_ok hwires
    obtain ⟨s', hs', hsameS⟩ := h.side hports hmarks hrooted hloop ha hs
    obtain ⟨t', ht', hsameT⟩ := h.side hports hmarks hrooted hloop hb ht
    show bindSides d' placements (f c) (f a) (f b) = _
    rw [bindSides, hs', ht']
    show (Assembly.checkCompatible d' placements (f c) s' t' >>= fun _ =>
      .ok (Assembly.superPortsOf d' placements s' t' ++
        Assembly.superPortsOf d' placements t' s')) = _
    rw [hsameS.checkCompatible hsameT hcheck, hsameS.superPortsOf hsameT,
      hsameT.superPortsOf hsameS]
    rfl

/-- **The connectors of the super-network are visited in the same order**, if they are in
the same order. -/
theorem Reproduces.connectorsIn (h : Reproduces f top d d') (hports : d.BarePorts)
    (hports' : d'.BarePorts) (htop : ∃ e, d.proper? top = some e)
    (hordered : ∀ c c', c ∈ connectorsIn d top → c' ∈ connectorsIn d top → c < c' → f c < f c') :
    Assembly.connectorsIn d' top = (Assembly.connectorsIn d top).map f := by
  obtain ⟨x, hx⟩ := htop
  obtain ⟨x', hx', -⟩ := h.element top x hx
  rw [h.fixes] at hx'
  have hsorted : ∀ d : Diagram, (Assembly.connectorsIn d top).Pairwise (· < ·) := fun d =>
    (Diagram.sorted_descendants d top).filter _
  refine List.Pairwise.eq_of_mem_iff (hsorted d') ?_ fun j => ?_
  · rw [List.pairwise_map]
    exact (hsorted d).imp_of_mem fun hc hc' hlt => hordered _ _ hc hc' hlt
  · rw [List.mem_map]
    constructor
    · intro hj
      obtain ⟨hdesc, e', he', hrole'⟩ := mem_connectorsIn.mp hj
      obtain ⟨-, hne, hin'⟩ := Diagram.mem_descendants.mp hdesc
      have hproper := proper?_eq_some.mpr ⟨he', isSuperPort_of_connector hrole'⟩
      obtain ⟨i, e, he, hin, rfl⟩ := h.inside_back hports' (Diagram.lt_bound_of_proper? hx) hproper
        (by rw [h.fixes]; exact hin')
      obtain ⟨e'', he'', hlike⟩ := h.element i e he
      rw [hproper] at he''
      cases he''
      -- Roles differ by marks at most, and a connector has none.
      have hrole : e.role = .connector := by
        rw [← Role.unmarked_eq_connector, ← hlike.role, hrole']
        rfl
      refine ⟨i, mem_connectorsIn.mpr ⟨Diagram.mem_descendants.mpr
        ⟨⟨x, (proper?_eq_some.mp hx).1⟩, ?_, hin⟩, e, (proper?_eq_some.mp he).1, hrole⟩, rfl⟩
      rintro rfl
      exact hne h.fixes
    · rintro ⟨i, hi, rfl⟩
      obtain ⟨hdesc, e, he, hrole⟩ := mem_connectorsIn.mp hi
      obtain ⟨-, hne, hin⟩ := Diagram.mem_descendants.mp hdesc
      obtain ⟨e', he', hrole'⟩ := h.connector he hrole
      have hproper := proper?_eq_some.mpr ⟨he, isSuperPort_of_connector hrole⟩
      have hin' := h.inside hports hproper hin
      rw [h.fixes] at hin'
      refine mem_connectorsIn.mpr ⟨Diagram.mem_descendants.mpr
        ⟨⟨x', (proper?_eq_some.mp hx').1⟩, fun heq => hne ?_, hin'⟩, e', he', hrole'⟩
      exact h.injective i (Diagram.lt_bound_of_proper? hproper) top
        (Diagram.lt_bound_of_proper? hx) (heq.trans h.fixes.symm)

end Netlist.Assembly
