import Netlist.Proofs.Assembly.Marks
import Netlist.Proofs.Assembly.Orderly

/-!
# What a step of an assembly leaves alone

A turn of an instance changes what is in it and its fields; stitching changes nothing
but super-ports. What such a step may do to the rest of a diagram is said once, for all
steps, and what is true of an orderly super-network and of the other instances then
follows for each of them.

- `Frame`: a step, with the instance whose turn it is, if any.
- `Orderly.frame`: **after a step a super-network is in good order.**
- `Frame.sameUnder`, `Frame.marked`: nothing changes in other instances.
- `Frame.reproduces`: **a step that is nobody's turn changes no findings.**
-/

namespace Netlist.Assembly

open Diagram (proper?_eq_some)

variable {turn : Option Slot} {d d₁ d' : Diagram} {s t a i j p q top : Slot} {instances : List Slot}
  {e e' : Element}

/-- An element that stays as it is, its ends and maybe its fields aside. -/
structure Stays (e e' : Element) : Prop where
  id : e'.id = e.id
  label : e'.label = e.label
  role : e'.role = e.role
  parent : e'.parent = e.parent

theorem Stays.trans {e'' : Element} (h : Stays e e') (h' : Stays e' e'') : Stays e e'' where
  id := h'.id.trans h.id
  label := h'.label.trans h.label
  role := h'.role.trans h.role
  parent := h'.parent.trans h.parent

/-- Nothing in the instance whose turn it is. -/
def Clear (turn : Option Slot) (d : Diagram) (j : Slot) : Prop := ∀ s ∈ turn, ¬ d.Inside j s

/-- A step of an assembly. What is not in the instance whose turn it is stays, and new
elements are in this instance or in each other, super-ports aside. Connectors keep their
ends as far as these stay; an end that gets to a new interface was at one that is replaced. -/
structure Frame (turn : Option Slot) (d d' : Diagram) : Prop where
  bound : d.bound ≤ d'.bound
  kept : ∀ j e, Clear turn d j → d.proper? j = some e → ∃ e', d'.proper? j = some e' ∧ Stays e e' ∧
    (j ∉ turn → e'.fields = e.fields)
  old : ∀ j e', j < d.bound → d'.get? j = some e' → ∃ e, d.get? j = some e ∧
    e'.parent = e.parent ∧ e'.role.unmarked = e.role.unmarked
  new : ∀ j e', d.bound ≤ j → d'.get? j = some e' → e'.role.isNetwork = false ∧
    ∃ p, e'.parent = some p ∧ p < d'.bound ∧ (e'.role.isSuperPort = false → p ∈ turn ∨ d.bound ≤ p)
  hung : ∀ j e' p x, d.bound ≤ j → d'.get? j = some e' → e'.parent = some p → d'.get? p = some x →
    x.role.isSuperPort = false ∧ (e'.role.isSuperPort = true → x.role = .connector)
  loopless : ∀ j, d.bound ≤ j → ¬ d'.Inside j j
  marks : ∀ a e' first, d'.get? a = some e' → e'.role.mark? = some first →
    (∃ e, d.get? a = some e ∧ e.role.mark? = some first ∧ Clear turn d a) ∨
      ∃ s ∈ turn, d'.Inside a s ∧ d'.Inside first s ∧ isInterface d' first = true
  anchored : ∀ c e' isSource a, d'.get? c = some e' → e'.role = .connector →
    e'.endAt isSource = some a → a < d'.bound
  back : ∀ c e e' isSource a, d.get? c = some e → d'.get? c = some e' → e'.role = .connector →
    a < d.bound → e'.endAt isSource = some a → e.endAt isSource = some a
  moved : ∀ c e e' isSource a, d.get? c = some e → d'.get? c = some e' → e'.role = .connector →
    d.bound ≤ a → e'.endAt isSource = some a →
    ∃ a₀, e.endAt isSource = some a₀ ∧ isInterface d a₀ = true ∧ ¬ Clear turn d a₀
  stays : ∀ c e e' isSource a, d.get? c = some e → d'.get? c = some e' → e'.role = .connector →
    e.endAt isSource = some a → isInterface d a = true → Clear turn d a → e'.endAt isSource = some a
  newEnds : ∀ c e' isSource a, d.bound ≤ c → d'.get? c = some e' → e'.role = .connector →
    e'.endAt isSource = some a → d.bound ≤ a

/-! ## What is inside -/

/-- What an element that is not in the instance is in is not in it either. -/
theorem Clear.up (h : Clear turn d i) (hp : d.HasParent i p) : Clear turn d p :=
  fun s hs hin => h s hs (hin.head hp)

theorem Frame.hasParent_old (h : Frame turn d d') (hi : i < d.bound) (hp : d'.HasParent i p) :
    d.HasParent i p := by
  obtain ⟨e', he', hp⟩ := hp
  obtain ⟨e, he, hparent, -⟩ := h.old i e' hi he'
  exact ⟨e, he, hparent ▸ hp⟩

theorem Frame.inside_old (h : Frame turn d d') (hissued : d.Issued) (hi : i < d.bound)
    (hin : d'.Inside i q) : d.Inside i q := by
  induction hin using Relation.TransGen.head_induction_on with
  | single hp => exact .single (h.hasParent_old hi hp)
  | head hp _ ih =>
    have hp' := h.hasParent_old hi hp
    exact (ih (hissued _ _ hp')).head hp'

theorem Frame.hasParent (h : Frame turn d d') (hclear : Clear turn d i) (he : d.proper? i = some e)
    (hp : d.HasParent i p) : d'.HasParent i p := by
  obtain ⟨x, hx, hp⟩ := hp
  rw [(proper?_eq_some.mp he).1] at hx
  cases hx
  obtain ⟨e', he', hstays, -⟩ := h.kept i e hclear he
  exact ⟨e', (proper?_eq_some.mp he').1, hstays.parent.trans hp⟩

theorem Frame.inside (h : Frame turn d d') (hbare : d.BarePorts) (hclear : Clear turn d i)
    (he : d.proper? i = some e) (hin : d.Inside i q) : d'.Inside i q := by
  induction hin using Relation.TransGen.head_induction_on generalizing e with
  | single hp => exact .single (h.hasParent hclear he hp)
  | head hp hin ih =>
    obtain ⟨y, hy⟩ := Diagram.Inside.live hin
    exact (ih (hclear.up hp) (proper?_eq_some.mpr ⟨hy, hbare _ _ y hp hy⟩)).head
      (h.hasParent hclear he hp)

/-- The container around an old element was so before. -/
theorem Frame.nearest_old (h : Frame turn d d') (hissued : d.Issued) (hi : i < d.bound)
    (hnear : d'.Nearest isNetworkAt i q) : d.Nearest isNetworkAt i q := by
  have hup : ∀ {i p x'}, i < d.bound → d'.HasParent i p → d'.get? p = some x' →
      d.HasParent i p ∧ ∃ x, d.get? p = some x ∧ isNetworkAt p x' = isNetworkAt p x := by
    intro i p x' hi hp hx'
    have hp := h.hasParent_old hi hp
    obtain ⟨x, hx, -, hunmarked⟩ := h.old p x' (hissued _ _ hp) hx'
    exact ⟨hp, x, hx, Role.congr_of_unmarked Role.isNetwork_unmarked hunmarked⟩
  induction hnear with
  | hit parent here passes =>
    obtain ⟨hp, x, hx, hsame⟩ := hup hi parent here
    exact .hit hp hx (hsame.symm.trans passes)
  | skip parent here fails above ih =>
    obtain ⟨hp, x, hx, hsame⟩ := hup hi parent here
    exact .skip hp hx (hsame.symm.trans fails) (ih (hissued _ _ hp))

/-- The container around an element that stays is the same. -/
theorem Frame.nearest (h : Frame turn d d') (hbare : d.BarePorts) (hclear : Clear turn d i)
    (he : d.proper? i = some e) (hnear : d.Nearest isNetworkAt i q) : d'.Nearest isNetworkAt i q := by
  have hup : ∀ {i p e x}, Clear turn d i → d.proper? i = some e → d.HasParent i p →
      d.get? p = some x → d.proper? p = some x ∧ d'.HasParent i p ∧
        ∃ x', d'.get? p = some x' ∧ isNetworkAt p x' = isNetworkAt p x := by
    intro i p e x hclear he hp hx
    have hproper := proper?_eq_some.mpr ⟨hx, hbare i p x hp hx⟩
    obtain ⟨x', hx', hstays, -⟩ := h.kept p x (hclear.up hp) hproper
    exact ⟨hproper, h.hasParent hclear he hp, x', (proper?_eq_some.mp hx').1,
      by rw [isNetworkAt, hstays.role, isNetworkAt]⟩
  induction hnear generalizing e with
  | hit parent here passes =>
    obtain ⟨-, hp, x', hx', hsame⟩ := hup hclear he parent here
    exact .hit hp hx' (hsame.trans passes)
  | skip parent here fails above ih =>
    obtain ⟨hproper, hp, x', hx', hsame⟩ := hup hclear he parent here
    exact .skip hp hx' (hsame.trans fails) (ih (hclear.up parent) hproper)

/-! ## One step after the other -/

theorem Frame.live_old (h : Frame turn d d') (hj : j < d.bound) (he' : d'.get? j = some e') :
    ∃ e, d.get? j = some e ∧ (e'.role = .connector → e.role = .connector) := by
  obtain ⟨e, he, -, hunmarked⟩ := h.old j e' hj he'
  refine ⟨e, he, fun hrole => ?_⟩
  rw [← Role.unmarked_eq_connector, ← hunmarked, hrole]
  rfl

/-- An interface after a step was one before, if its slot is old. -/
theorem Frame.isInterface_old (h : Frame turn d d') (ha : a < d.bound)
    (hinterface : isInterface d' a = true) : isInterface d a = true := by
  rw [isInterface, Option.any_eq_true] at hinterface ⊢
  obtain ⟨e', he', hrole⟩ := hinterface
  obtain ⟨e, he, -, hunmarked⟩ := h.old a e' ha he'
  exact ⟨e, he, (Role.congr_of_unmarked Role.isInterface_unmarked hunmarked).symm.trans hrole⟩

theorem Frame.isInterface (h : Frame turn d d') (hclear : Clear turn d a)
    (ha : Assembly.isInterface d a = true) : Assembly.isInterface d' a = true := by
  obtain ⟨e, he, hrole⟩ := isInterface_iff_proper?.mp ha
  obtain ⟨e', he', hstays, -⟩ := h.kept a e hclear he
  exact isInterface_iff_proper?.mpr ⟨e', he', by rw [hstays.role]; exact hrole⟩

/-- **Two steps of one turn are a step of this turn.** -/
theorem Frame.trans (h : Frame turn d d₁) (h' : Frame turn d₁ d') (hissued : d.Issued)
    (hissued₁ : d₁.Issued) : Frame turn d d' := by
  have hclear : ∀ {j}, j < d.bound → Clear turn d j → Clear turn d₁ j :=
    fun hj hclear s hs hin => hclear s hs (h.inside_old hissued hj hin)
  constructor
  case bound => exact Nat.le_trans h.bound h'.bound
  case kept =>
    intro j e hj he
    obtain ⟨e₁, he₁, hstays, hfields⟩ := h.kept j e hj he
    obtain ⟨e', he', hstays', hfields'⟩ :=
      h'.kept j e₁ (hclear (Diagram.lt_bound_of_proper? he) hj) he₁
    exact ⟨e', he', hstays.trans hstays', fun hnot => (hfields' hnot).trans (hfields hnot)⟩
  case old =>
    intro j e' hj he'
    obtain ⟨e₁, he₁, hparent', hunmarked'⟩ := h'.old j e' (Nat.lt_of_lt_of_le hj h.bound) he'
    obtain ⟨e, he, hparent, hunmarked⟩ := h.old j e₁ hj he₁
    exact ⟨e, he, hparent'.trans hparent, hunmarked'.trans hunmarked⟩
  case new =>
    intro j e' hj he'
    by_cases hj₁ : j < d₁.bound
    · obtain ⟨e₁, he₁, hparent, hunmarked⟩ := h'.old j e' hj₁ he'
      obtain ⟨hnetwork, p, hp, hlt, hin⟩ := h.new j e₁ hj he₁
      refine ⟨(Role.congr_of_unmarked Role.isNetwork_unmarked hunmarked).trans hnetwork, p,
        hparent.trans hp, Nat.lt_of_lt_of_le hlt h'.bound, fun hport => hin ?_⟩
      exact (Role.congr_of_unmarked Role.isSuperPort_unmarked hunmarked).symm.trans hport
    · obtain ⟨hnetwork, p, hp, hlt, hin⟩ := h'.new j e' (Nat.le_of_not_lt hj₁) he'
      exact ⟨hnetwork, p, hp, hlt, fun hport => (hin hport).imp id (Nat.le_trans h.bound)⟩
  case hung =>
    intro j e' p x hj he' hp hx
    by_cases hj₁ : j < d₁.bound
    · obtain ⟨e₁, he₁, hparent, hunmarked⟩ := h'.old j e' hj₁ he'
      have hp₁ := hparent.symm.trans hp
      obtain ⟨x₁, hx₁, -, hunmarkedx⟩ := h'.old p x (hissued₁ j p ⟨e₁, he₁, hp₁⟩) hx
      obtain ⟨hport, hconnector⟩ := h.hung j e₁ p x₁ hj he₁ hp₁ hx₁
      refine ⟨(Role.congr_of_unmarked Role.isSuperPort_unmarked hunmarkedx).trans hport,
        fun hport' => ?_⟩
      rw [← Role.unmarked_eq_connector, hunmarkedx, hconnector]
      · rfl
      · exact (Role.congr_of_unmarked Role.isSuperPort_unmarked hunmarked).symm.trans hport'
    · exact h'.hung j e' p x (Nat.le_of_not_lt hj₁) he' hp hx
  case loopless =>
    intro j hj hin
    by_cases hj₁ : j < d₁.bound
    · exact h.loopless j hj (h'.inside_old hissued₁ hj₁ hin)
    · exact h'.loopless j (Nat.le_of_not_lt hj₁) hin
  case marks =>
    intro a e' first he' hmark
    rcases h'.marks a e' first he' hmark with ⟨e₁, he₁, hmark₁, hclear₁⟩ | hin
    · rcases h.marks a e₁ first he₁ hmark₁ with hleft | ⟨s, hs, hin, -⟩
      · exact .inl hleft
      · exact absurd hin (hclear₁ s hs)
    · exact .inr hin
  case anchored => exact h'.anchored
  case back =>
    intro c e e' isSource a he he' hrole' ha hend'
    obtain ⟨e₁, he₁, hrole⟩ :=
      h'.live_old (Nat.lt_of_lt_of_le (Diagram.lt_bound_of_get? he) h.bound) he'
    exact h.back c e e₁ isSource a he he₁ (hrole hrole') ha
      (h'.back c e₁ e' isSource a he₁ he' hrole' (Nat.lt_of_lt_of_le ha h.bound) hend')
  case moved =>
    intro c e e' isSource a he he' hrole' ha hend'
    obtain ⟨e₁, he₁, hrole⟩ :=
      h'.live_old (Nat.lt_of_lt_of_le (Diagram.lt_bound_of_get? he) h.bound) he'
    by_cases ha₁ : a < d₁.bound
    · exact h.moved c e e₁ isSource a he he₁ (hrole hrole') ha
        (h'.back c e₁ e' isSource a he₁ he' hrole' ha₁ hend')
    · obtain ⟨a₁, hend₁, hinterface, hnot⟩ :=
        h'.moved c e₁ e' isSource a he₁ he' hrole' (Nat.le_of_not_lt ha₁) hend'
      -- The interface that was replaced last was there before, or replaced an earlier one.
      by_cases hold : a₁ < d.bound
      · exact ⟨a₁, h.back c e e₁ isSource a₁ he he₁ (hrole hrole') hold hend₁,
          h.isInterface_old hold hinterface, fun hclear' => hnot (hclear hold hclear')⟩
      · exact h.moved c e e₁ isSource a₁ he he₁ (hrole hrole') (Nat.le_of_not_lt hold) hend₁
  case stays =>
    intro c e e' isSource a he he' hrole' hend hinterface hclear'
    obtain ⟨e₁, he₁, hrole⟩ :=
      h'.live_old (Nat.lt_of_lt_of_le (Diagram.lt_bound_of_get? he) h.bound) he'
    obtain ⟨x, hx, -⟩ := isInterface_iff_proper?.mp hinterface
    exact h'.stays c e₁ e' isSource a he₁ he' hrole'
      (h.stays c e e₁ isSource a he he₁ (hrole hrole') hend hinterface hclear')
      (h.isInterface hclear' hinterface) (hclear (Diagram.lt_bound_of_proper? hx) hclear')
  case newEnds =>
    intro c e' isSource a hc he' hrole' hend'
    by_cases hc₁ : c < d₁.bound
    · obtain ⟨e₁, he₁, hrole⟩ := h'.live_old hc₁ he'
      by_cases ha₁ : a < d₁.bound
      · exact h.newEnds c e₁ isSource a hc he₁ (hrole hrole')
          (h'.back c e₁ e' isSource a he₁ he' hrole' ha₁ hend')
      · exact Nat.le_trans h.bound (Nat.le_of_not_lt ha₁)
    · exact Nat.le_trans h.bound
        (h'.newEnds c e' isSource a (Nat.le_of_not_lt hc₁) he' hrole' hend')

/-! ## Good order -/

/-- An element of a role that neither new elements nor marks have was there before. -/
theorem Frame.network_old (h : Frame turn d d') (he' : d'.get? j = some e')
    (hnetwork : e'.role.isNetwork = true) :
    j < d.bound ∧ ∃ e, d.get? j = some e ∧ e'.role = e.role := by
  by_cases hj : j < d.bound
  · obtain ⟨e, he, -, hunmarked⟩ := h.old j e' hj he'
    have hrole := Role.congr_of_unmarked Role.isNetwork_unmarked hunmarked
    refine ⟨hj, e, he, Role.eq_of_unmarked hunmarked ?_⟩
    exact Role.isInterface_of_isNetwork (hrole.symm.trans hnetwork)
  · rw [(h.new j e' (Nat.le_of_not_lt hj) he').1] at hnetwork
    cases hnetwork

theorem Orderly.clear (h : Orderly top instances d) (hturn : ∀ s ∈ turn, s ∈ instances ∧ s ≠ t)
    (ht : t ∈ instances) (hj : j = t ∨ d.Inside j t) : Clear turn d j := by
  intro s hs hin
  obtain ⟨hmem, hne⟩ := hturn s hs
  rcases hj with rfl | hj
  · exact h.flat ht hmem hin
  · exact h.apart hmem ht hne hin hj

theorem Orderly.clear_instance (h : Orderly top instances d) (hturn : ∀ s ∈ turn, s ∈ instances)
    (ht : t ∈ instances) : Clear turn d t := fun s hs => h.flat ht (hturn s hs)

/-- **After a step a super-network is in good order.** -/
theorem Orderly.frame (h : Orderly top instances d) (hframe : Frame turn d d')
    (hturn : ∀ s ∈ turn, s ∈ instances) : Orderly top instances d' := by
  obtain ⟨topE, htopE, htopRole⟩ := h.top_live
  have hpos : 0 < d.bound := Nat.zero_lt_of_lt (Diagram.lt_bound_of_proper? htopE)
  constructor
  case rooted => exact fun p hp => h.rooted p (hframe.hasParent_old hpos hp)
  case issued =>
    intro j p hp
    by_cases hj : j < d.bound
    · exact Nat.lt_of_lt_of_le (h.issued j p (hframe.hasParent_old hj hp)) hframe.bound
    · obtain ⟨e', he', hparent⟩ := hp
      obtain ⟨-, p', hp', hlt, -⟩ := hframe.new j e' (Nat.le_of_not_lt hj) he'
      rw [hparent, Option.some.injEq] at hp'
      exact hp' ▸ hlt
  case loopless =>
    intro j hin
    by_cases hj : j < d.bound
    · exact h.loopless j (hframe.inside_old h.issued hj hin)
    · exact hframe.loopless j (Nat.le_of_not_lt hj) hin
  case anchored => exact hframe.anchored
  case bare =>
    intro j p x hp hx
    by_cases hj : j < d.bound
    · have hp' := hframe.hasParent_old hj hp
      obtain ⟨x₀, hx₀, -, hunmarked⟩ := hframe.old p x (h.issued j p hp') hx
      exact (Role.congr_of_unmarked Role.isSuperPort_unmarked hunmarked).trans (h.bare j p x₀ hp' hx₀)
    · obtain ⟨e', he', hparent⟩ := hp
      exact (hframe.hung j e' p x (Nat.le_of_not_lt hj) he' hparent hx).1
  case held =>
    intro j p e' x he' hport hparent hx
    by_cases hj : j < d.bound
    · obtain ⟨e, he, hparent', hunmarked⟩ := hframe.old j e' hj he'
      have hp := hparent'.symm.trans hparent
      obtain ⟨x₀, hx₀, -, hunmarked₀⟩ := hframe.old p x (h.issued j p ⟨e, he, hp⟩) hx
      have hrole := h.held j p e x₀ he
        ((Role.congr_of_unmarked Role.isSuperPort_unmarked hunmarked).symm.trans hport) hp hx₀
      rw [Role.eq_of_unmarked hunmarked₀ (by rw [hrole]; rfl), hrole]
    · exact (hframe.hung j e' p x (Nat.le_of_not_lt hj) he' hparent hx).2 hport
  case marks =>
    intro a e' first he' hmark
    rcases hframe.marks a e' first he' hmark with ⟨e, he, hmark, hclear⟩ | ⟨s, hs, hin⟩
    · obtain ⟨t, ht, hin, hfirst, hinterface⟩ := h.marks a e first he hmark
      -- The mark leads to the same instance, and it is not the turn of this one.
      have hne : ∀ s ∈ turn, s ∈ instances ∧ s ≠ t := by
        intro s hs
        refine ⟨hturn s hs, ?_⟩
        rintro rfl
        exact hclear s hs hin
      have hclear' := h.clear hne ht (.inr hfirst)
      obtain ⟨x, hx, -⟩ := isInterface_iff_proper?.mp hinterface
      have hproper : d.proper? a = some e := by
        refine proper?_eq_some.mpr ⟨he, ?_⟩
        cases hr : e.role <;> rw [hr] at hmark <;> first | rfl | cases hmark
      exact ⟨t, ht, hframe.inside h.bare hclear hproper hin,
        hframe.inside h.bare hclear' hx hfirst, hframe.isInterface hclear' hinterface⟩
    · exact ⟨s, hturn s hs, hin⟩
  case super =>
    intro j
    rw [← h.super j]
    constructor
    · rintro ⟨e', he', hsuper⟩
      obtain ⟨-, e, he, hrole⟩ :=
        hframe.network_old he' (Role.isNetwork_of_isSuperNetwork hsuper)
      exact ⟨e, he, hrole ▸ hsuper⟩
    · intro hex
      obtain rfl := (h.super j).mp hex
      obtain ⟨e', he', hstays, -⟩ :=
        hframe.kept j topE (fun s hs => h.not_inside_top (hturn s hs)) htopE
      exact ⟨e', (proper?_eq_some.mp he').1, hstays.role ▸ htopRole⟩
  case found =>
    intro s
    rw [h.found s]
    constructor
    · intro hs
      have hmem := (h.found s).mpr hs
      obtain ⟨e, he, hsub⟩ := h.sub hmem
      have hclear := h.clear_instance hturn hmem
      obtain ⟨e', he', hstays, -⟩ := hframe.kept s e hclear he
      exact ⟨⟨e', (proper?_eq_some.mp he').1, hstays.role ▸ hsub⟩,
        hframe.nearest h.bare hclear he hs.2⟩
    · rintro ⟨⟨e', he', hsub⟩, hnear⟩
      obtain ⟨-, e, he, hrole⟩ :=
        hframe.network_old he' (Role.isNetwork_of_isSubNetwork hsub)
      have hsub' : e.role.isSubNetwork = true := hrole ▸ hsub
      exact ⟨⟨e, he, hsub'⟩, hframe.nearest_old h.issued (Diagram.lt_bound_of_get? he) hnear⟩

/-! ## Other instances -/

theorem like_of_stays (h : Stays e e') (hfields : e'.fields = e.fields) : Like id e e' :=
  ⟨by rw [h.role], h.label, hfields, by rw [h.parent, Option.map_id, id]⟩

/-- An element that was no super-port still is none, and the other way round. -/
theorem Frame.proper_old (h : Frame turn d d') (hj : j < d.bound) (he' : d'.proper? j = some e') :
    ∃ e, d.proper? j = some e ∧ e'.parent = e.parent ∧ e'.role.unmarked = e.role.unmarked := by
  obtain ⟨hget', hport'⟩ := proper?_eq_some.mp he'
  obtain ⟨e, he, hparent, hunmarked⟩ := h.old j e' hj hget'
  refine ⟨e, proper?_eq_some.mpr ⟨he, ?_⟩, hparent, hunmarked⟩
  exact (Role.congr_of_unmarked Role.isSuperPort_unmarked hunmarked).symm.trans hport'

/-- **Nothing changes in an instance whose turn it is not.** -/
theorem Frame.sameUnder (h : Frame turn d d') (hd : Orderly top instances d)
    (hturn : ∀ s ∈ turn, s ∈ instances ∧ s ≠ t) (ht : t ∈ instances) : SameUnder t d d' where
  live := by
    obtain ⟨e, he, -⟩ := hd.sub ht
    obtain ⟨e', he', -⟩ := h.kept t e (hd.clear hturn ht (.inl rfl)) he
    exact ⟨fun _ => ⟨e, (proper?_eq_some.mp he).1⟩, fun _ => ⟨e', (proper?_eq_some.mp he').1⟩⟩
  kept := by
    intro j e hin he
    obtain ⟨e', he', hstays, hfields⟩ := h.kept j e (hd.clear hturn ht (.inr hin)) he
    refine ⟨e', he', like_of_stays hstays (hfields fun hj => ?_)⟩
    exact hd.flat (hturn j hj).1 ht hin
  back := by
    intro j e' p he' hparent' hp
    by_cases hj : j < d.bound
    · obtain ⟨e, he, hparent, -⟩ := h.proper_old hj he'
      exact ⟨e, he, hparent.symm.trans hparent'⟩
    · -- New elements are in the instance whose turn it is, or in each other.
      obtain ⟨hget', hport'⟩ := proper?_eq_some.mp he'
      obtain ⟨-, p', hp', -, hnew⟩ := h.new j e' (Nat.le_of_not_lt hj) hget'
      rw [hparent', Option.some.injEq] at hp'
      subst hp'
      exfalso
      rcases hnew hport' with hmem | hle
      · rcases hp with rfl | hin
        · exact (hturn p hmem).2 rfl
        · exact hd.flat (hturn p hmem).1 ht hin
      · refine Nat.not_lt.mpr hle ?_
        rcases hp with rfl | hin
        · exact hd.lt_bound ht
        · obtain ⟨x, hx⟩ := Diagram.Inside.live hin
          exact Diagram.lt_bound_of_get? hx

theorem Frame.markFor? (h : Frame turn d d') (hd : Orderly top instances d)
    (hd' : Orderly top instances d') (hturn : ∀ s ∈ turn, s ∈ instances ∧ s ≠ t)
    (ht : t ∈ instances) : Assembly.markFor? d' t = Assembly.markFor? d t :=
  (h.sameUnder hd hturn ht).markFor? hd.bare hd'.bare hd.interfacesProper hd'.interfacesProper

/-- The duplicates of an instance whose turn it is not stay marked. -/
theorem Frame.marked (h : Frame turn d d') (hd : Orderly top instances d)
    (hd' : Orderly top instances d') (hturn : ∀ s ∈ turn, s ∈ instances ∧ s ≠ t)
    (ht : t ∈ instances) (hmarked : Marked d t) : Marked d' t := by
  intro i first e' hfirst he'
  rw [h.markFor? hd hd' hturn ht] at hfirst
  obtain ⟨-, -, hin, e, he, -⟩ := mem_interfacesIn_iff_proper?.mp (markFor?_eq_some hfirst).1
  obtain ⟨e'', he'', hstays, -⟩ := h.kept i e (hd.clear hturn ht (.inr hin)) he
  rw [(proper?_eq_some.mp he'').1] at he'
  cases he'
  rw [hstays.role]
  exact hmarked i first e hfirst (proper?_eq_some.mp he).1

/-! ## Nobody's turn -/

theorem clear_none (d : Diagram) (j : Slot) : Clear none d j := fun _ hs => nomatch hs

/-- **A step that is nobody's turn changes no findings**, if it adds nothing but super-ports. -/
theorem Frame.reproduces (h : Frame none d d') (hnew : ∀ j e', d.bound ≤ j → d'.get? j = some e' →
    e'.role.isSuperPort = true) (top : Slot) : Reproduces id top d d' where
  toCarries := by
    refine .of_same (fun i hi => Nat.lt_of_lt_of_le hi h.bound) (fun i e he => ?_) fun i e' he' => ?_
    · obtain ⟨e', he', hstays, hfields⟩ := h.kept i e (clear_none d i) he
      exact ⟨e', he', like_of_stays hstays (hfields fun hi => nomatch hi)⟩
    · have hi : i < d.bound := by
        by_contra hi
        obtain ⟨hget', hport'⟩ := proper?_eq_some.mp he'
        rw [hnew i e' (Nat.le_of_not_lt hi) hget'] at hport'
        cases hport'
      obtain ⟨e, he, -⟩ := h.proper_old hi he'
      exact ⟨e, he⟩
  fixes := rfl
  subs := fun _ _ _ _ => rfl
  marks := by
    intro a e e' he hrole he'
    obtain ⟨e'', he'', hstays, -⟩ := h.kept a e (clear_none d a)
      (proper?_eq_some.mpr ⟨he, Role.isSuperPort_of_isInterface hrole⟩)
    rw [id, (proper?_eq_some.mp he'').1] at he'
    cases he'
    rw [hstays.role, Option.map_id, id]
  ends := by
    intro c e e' _ he hrole he' isSource a'
    obtain ⟨e'', he'', hstays, -⟩ := h.kept c e (clear_none d c)
      (proper?_eq_some.mpr ⟨he, isSuperPort_of_connector hrole⟩)
    rw [id, (proper?_eq_some.mp he'').1] at he'
    cases he'
    have hget' := (proper?_eq_some.mp he'').1
    have hrole' := hstays.role.trans hrole
    constructor
    · rintro ⟨hend', hinterface'⟩
      -- An end that moves on leaves an interface whose turn it is, and it is nobody's turn.
      have ha : a' < d.bound := by
        by_contra ha
        obtain ⟨a₀, -, -, hclear⟩ :=
          h.moved c e e' isSource a' he hget' hrole' (Nat.le_of_not_lt ha) hend'
        exact hclear (clear_none d a₀)
      exact ⟨a', rfl, h.back c e e' isSource a' he hget' hrole' ha hend',
        h.isInterface_old ha hinterface'⟩
    · rintro ⟨a, rfl, hend, hinterface⟩
      exact ⟨h.stays c e e' isSource a he hget' hrole' hend hinterface (clear_none d a),
        h.isInterface (clear_none d a) hinterface⟩

end Netlist.Assembly
