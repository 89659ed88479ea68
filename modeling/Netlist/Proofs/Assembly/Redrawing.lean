import Netlist.Proofs.Assembly.Frame
import Netlist.Proofs.Identity

/-!
# Stitching again

Stitching throws the old super-ports away and draws new ones at the connectors. Both are
steps that are nobody's turn, so whatever can be found along the connectors is found
before, in between and after. When all findings are there, drawing them does not fail.

- `Hangs`: a diagram with new super-ports at connectors that were there.
- `frame_withoutSuperPorts`, `Hangs.frame`: discarding and drawing are steps.
- `exists_stitchAll`: **stitching succeeds if there are findings for all connectors.**
- `stitchAll_again`: a diagram that reproduces a stitched one is stitched with the same
  super-ports.
-/

namespace Netlist.Assembly

open Diagram (proper?_eq_some)

variable {d d₁ d' dk : Diagram} {a c i j top : Slot} {instances : List Slot} {e : Element}
  {naming : Naming} {placements : Placements} {ports ports' found : List SuperPort} {p : SuperPort}

/-! ## Discarding -/

/-- **Discarding super-ports is a step.** -/
theorem frame_withoutSuperPorts (hd : Orderly top instances d) :
    Frame none d (withoutSuperPorts d) := by
  have hnone : ∀ {j e}, d.bound ≤ j → (withoutSuperPorts d).get? j ≠ some e := by
    intro j e hj he
    rw [Diagram.get?_of_bound_le (bound_withoutSuperPorts d ▸ hj)] at he
    cases he
  -- Nothing is lost but the ends at the super-ports that are discarded.
  have hend : ∀ {c e e' isSource a}, d.get? c = some e → (withoutSuperPorts d).get? c = some e' →
      (e'.endAt isSource = some a ↔ e.endAt isSource = some a ∧ a ∉ oldPorts d) := by
    intro c e e' isSource a he he'
    obtain ⟨e₀, he₀, -, rfl⟩ := get?_of_withoutSuperPorts he'
    rw [he] at he₀
    cases he₀
    exact Element.endAt_detachAll _ e isSource a
  have hrole : ∀ {c e e'}, d.get? c = some e → (withoutSuperPorts d).get? c = some e' →
      e'.role = e.role := by
    intro c e e' he he'
    obtain ⟨e₀, he₀, -, rfl⟩ := get?_of_withoutSuperPorts he'
    rw [he] at he₀
    cases he₀
    exact Element.role_detachAll _ e
  constructor
  case bound => rw [bound_withoutSuperPorts]
  case kept =>
    intro j e _ he
    obtain ⟨hget, hport⟩ := proper?_eq_some.mp he
    refine ⟨_, proper?_eq_some.mpr ⟨get?_withoutSuperPorts_of_role hget hport, ?_⟩,
      ⟨?_, ?_, ?_, ?_⟩, fun _ => ?_⟩ <;> simp [hport]
  case old =>
    intro j e' _ he'
    obtain ⟨e, he, -, rfl⟩ := get?_of_withoutSuperPorts he'
    exact ⟨e, he, by simp, by simp⟩
  case new => exact fun j e' hj he' => absurd he' (hnone hj)
  case hung => exact fun j e' p x hj he' => absurd he' (hnone hj)
  case loopless =>
    intro j hj hin
    obtain ⟨e, he⟩ := Diagram.Inside.live hin
    exact hnone hj he
  case marks =>
    intro a e' first he' hmark
    obtain ⟨e, he, -, rfl⟩ := get?_of_withoutSuperPorts he'
    exact .inl ⟨e, he, by simpa using hmark, clear_none d a⟩
  case anchored =>
    intro c e' isSource a he' hconnector ha
    obtain ⟨e, he, -, -⟩ := get?_of_withoutSuperPorts he'
    rw [bound_withoutSuperPorts]
    exact hd.anchored c e isSource a he ((hrole he he').symm.trans hconnector)
      ((hend he he').mp ha).1
  case back => exact fun c e e' isSource a he he' _ _ ha => ((hend he he').mp ha).1
  case moved =>
    intro c e e' isSource a he he' hconnector hle ha
    refine absurd (hd.anchored c e isSource a he ((hrole he he').symm.trans hconnector) ?_)
      (Nat.not_lt.mpr hle)
    exact ((hend he he').mp ha).1
  case stays =>
    intro c e e' isSource a he he' _ ha hinterface _
    refine (hend he he').mpr ⟨ha, fun hold => ?_⟩
    obtain ⟨⟨x, hx, hport⟩, -⟩ := mem_oldPorts.mp hold
    rw [isInterface, hx, Option.any_some, Role.isInterface_of_isSuperPort hport] at hinterface
    cases hinterface
  case newEnds => exact fun c e' isSource a hc he' => absurd he' (hnone hc)

/-! ## Drawing -/

/-- A diagram with new super-ports at connectors that were there. -/
structure Hangs (d d' : Diagram) : Prop extends Draws d d' where
  connector : ∀ j e, d.bound ≤ j → d'.get? j = some e →
    ∃ q x, e.parent = some q ∧ d.get? q = some x ∧ x.role = .connector

theorem Hangs.refl (d : Diagram) : Hangs d d :=
  ⟨.refl d, fun j e hj he => by
    rw [Diagram.get?_of_bound_le hj] at he
    cases he⟩

theorem Hangs.trans (h : Hangs d d₁) (h' : Hangs d₁ d') : Hangs d d' where
  toDraws := h.toDraws.trans h'.toDraws
  connector := by
    intro j e hj he
    by_cases hj₁ : j < d₁.bound
    · rw [h'.grows.same j hj₁] at he
      exact h.connector j e hj he
    · obtain ⟨q, x, hq, hx, hrole⟩ := h'.connector j e (Nat.le_of_not_lt hj₁) he
      exact ⟨q, x, hq, (h.old hx (isSuperPort_of_connector hrole)).2, hrole⟩

/-- What was drawn up to some point, and what was drawn after it. -/
theorem Hangs.split (h : Hangs d d') (hk : Draws d dk) (hk' : Draws dk d') :
    Hangs d dk ∧ Hangs dk d' := by
  refine ⟨⟨hk, fun j e hj he => h.connector j e hj (hk'.of_get? he)⟩, hk', fun j e hj he => ?_⟩
  obtain ⟨q, x, hq, hx, hrole⟩ := h.connector j e (Nat.le_trans hk.grows.bound hj) he
  exact ⟨q, x, hq, hk.of_get? hx, hrole⟩

/-- **Drawing super-ports is a step.** -/
theorem Hangs.frame (h : Hangs d d') (hd : Orderly top instances d) : Frame none d d' := by
  have hport : ∀ {j e}, d.bound ≤ j → d'.get? j = some e → e.role.isSuperPort = true :=
    fun hj he => (h.new _ _ hj he).1
  have hsame : ∀ {c e e'}, d.get? c = some e → d'.get? c = some e' → e' = e := by
    intro c e e' he he'
    rw [h.of_get? he] at he'
    exact (Option.some.inj he').symm
  constructor
  case bound => exact h.grows.bound
  case kept =>
    intro j e _ he
    obtain ⟨hget, hproper⟩ := proper?_eq_some.mp he
    exact ⟨e, proper?_eq_some.mpr ⟨h.of_get? hget, hproper⟩, ⟨rfl, rfl, rfl, rfl⟩, fun _ => rfl⟩
  case old => exact fun j e' hj he' => ⟨e', h.grows.same j hj ▸ he', rfl, rfl⟩
  case new =>
    intro j e' hj he'
    obtain ⟨hrole, q, hq, hlt⟩ := h.new j e' hj he'
    refine ⟨?_, q, hq, hlt, fun hnot => ?_⟩
    · cases hnetwork : e'.role.isNetwork with
      | false => rfl
      | true =>
        rw [Role.isSuperPort_of_isNetwork hnetwork] at hrole
        cases hrole
    · rw [hrole] at hnot
      cases hnot
  case hung =>
    intro j e' q x hj he' hq hx
    obtain ⟨q', x', hq', hx', hrole⟩ := h.connector j e' hj he'
    rw [hq, Option.some.injEq] at hq'
    subst hq'
    rw [hsame hx' hx, hrole]
    exact ⟨rfl, fun _ => rfl⟩
  case loopless =>
    intro j hj hin
    -- Nothing is in a new element: what was there before has old parents, and so has
    -- what is new.
    obtain ⟨k, -, y, hy, hparent⟩ := Relation.TransGen.tail'_iff.mp hin
    have hlt : j < d.bound := by
      by_cases hk : k < d.bound
      · exact hd.issued k j ⟨y, h.grows.same k hk ▸ hy, hparent⟩
      · obtain ⟨q, x, hq, hx, -⟩ := h.connector k y (Nat.le_of_not_lt hk) hy
        rw [hparent, Option.some.injEq] at hq
        exact hq ▸ Diagram.lt_bound_of_get? hx
    exact Nat.not_lt.mpr hj hlt
  case marks =>
    intro a e' first he' hmark
    have hproper : e'.role.isSuperPort = false := by
      cases hr : e'.role <;> rw [hr] at hmark <;> first | rfl | cases hmark
    exact .inl ⟨e', (h.old he' hproper).2, hmark, clear_none d a⟩
  case anchored =>
    intro c e' isSource a he' hrole ha
    have hold := (h.old he' (isSuperPort_of_connector hrole)).2
    exact Nat.lt_of_lt_of_le (hd.anchored c e' isSource a hold hrole ha) h.grows.bound
  case back => exact fun c e e' isSource a he he' _ _ ha => hsame he he' ▸ ha
  case moved =>
    intro c e e' isSource a he he' hrole hle ha
    obtain rfl := hsame he he'
    exact absurd (hd.anchored c e' isSource a he hrole ha) (Nat.not_lt.mpr hle)
  case stays => exact fun c e e' isSource a he he' _ ha _ _ => hsame he he' ▸ ha
  case newEnds =>
    intro c e' isSource a hc he' hrole
    have hproper := isSuperPort_of_connector hrole
    rw [hport hc he'] at hproper
    cases hproper

theorem drawSuperPort_hangs {u : Unit} (hc : d.get? c = some e) (hrole : e.role = .connector)
    (h : Edit.Runs (drawSuperPort naming c p) d u d') : Hangs d d' := by
  refine ⟨drawSuperPort_runs h, fun j x hj hx => ?_⟩
  rw [drawSuperPort] at h
  obtain ⟨_, -, h⟩ := Edit.runs_check_bind.mp h
  rw [Edit.runs_read_bind] at h
  rw [Edit.runs_bind] at h
  obtain ⟨slot, d₁, hchange, h⟩ := h
  obtain ⟨-, rfl⟩ := Edit.runs_pure.mp h
  rw [Edit.runs_change, mapError_eq_ok] at hchange
  rw [Diagram.get?_insert hchange] at hx
  split at hx
  · cases hx
    exact ⟨c, e, rfl, hc, hrole⟩
  · rw [Diagram.get?_of_bound_le hj] at hx
    cases hx

theorem drawNew_hangs (hc : d.get? c = some e) (hrole : e.role = .connector)
    (h : Edit.Runs (drawNew naming c ports found) d ports' d') : Hangs d d' := by
  induction found generalizing d ports with
  | nil =>
    rw [drawNew] at h
    obtain ⟨-, rfl⟩ := Edit.runs_pure.mp h
    exact .refl d
  | cons q found ih =>
    rw [drawNew] at h
    split at h
    · exact ih hc h
    · rw [Edit.runs_bind] at h
      obtain ⟨_, d₁, hdraw, h⟩ := h
      have hone := drawSuperPort_hangs hc hrole hdraw
      exact hone.trans (ih (hone.of_get? hc) h)

/-- What is found at a connector is drawn there, and nothing is found elsewhere. -/
theorem hangs_of_wiresAt (hwires : wiresAt d placements c = .ok found)
    (hdraw : Edit.Runs (drawNew naming c ports found) d ports' d') : Hangs d d' := by
  rw [wiresAt] at hwires
  cases hjoined : joined? d c with
  | none =>
    rw [hjoined] at hwires
    cases hwires
    obtain ⟨-, rfl⟩ := Edit.runs_pure.mp hdraw
    exact .refl d
  | some ends =>
    obtain ⟨⟨e, he, hrole⟩, -⟩ := joined?_eq_some hjoined
    exact drawNew_hangs he hrole hdraw

/-- **All super-ports are drawn at connectors that were there.** -/
theorem stitchAll_hangs {connectors : List Slot}
    (h : Edit.Runs (stitchAll naming placements ports connectors) d ports' d') : Hangs d d' := by
  induction connectors generalizing d ports with
  | nil =>
    rw [stitchAll] at h
    obtain ⟨-, rfl⟩ := Edit.runs_pure.mp h
    exact .refl d
  | cons c connectors ih =>
    obtain ⟨-, found, d₁, hwires, hdraw, h⟩ := stitchAll_cons_runs_iff.mp h
    exact (hangs_of_wiresAt hwires hdraw).trans (ih h)

/-! ## Drawing does not fail -/

theorem exists_drawSuperPort (naming : Naming) (p : SuperPort) (hc : d.get? c = some e) :
    ∃ d', Edit.Runs (drawSuperPort naming c p) d () d' := by
  have hfree : d.find? (superPortElement (naming.fresh d) c p).id = none :=
    Naming.find?_fresh naming d
  obtain ⟨slot, d', hinsert⟩ := Diagram.exists_insert hfree
  refine ⟨d', ?_⟩
  rw [drawSuperPort]
  refine Edit.runs_check_bind.mpr ⟨e, Diagram.fetch_eq_ok.mpr hc, ?_⟩
  rw [Edit.runs_read_bind]
  rw [Edit.runs_bind]
  refine ⟨slot, d', ?_, Edit.runs_pure.mpr ⟨rfl, rfl⟩⟩
  rw [Edit.runs_change, mapError_eq_ok]
  exact hinsert

theorem exists_drawNew (naming : Naming) (hc : d.get? c = some e) (ports found : List SuperPort) :
    ∃ d', Edit.Runs (drawNew naming c ports found) d (found.foldl addNew ports) d' := by
  induction found generalizing d ports with
  | nil => exact ⟨d, Edit.runs_pure.mpr ⟨rfl, rfl⟩⟩
  | cons q found ih =>
    rw [drawNew, List.foldl_cons, addNew]
    split
    · exact ih hc ports
    · obtain ⟨d₁, hone⟩ := exists_drawSuperPort naming q hc
      obtain ⟨d', hrest⟩ := ih ((drawSuperPort_runs hone).of_get? hc) (ports ++ [q])
      exact ⟨d', Edit.runs_bind.mpr ⟨(), d₁, hone, hrest⟩⟩

/-- **Stitching succeeds if there are findings for all connectors**, whatever was drawn
before. -/
theorem exists_stitchAll {connectors : List Slot} {founds : List (List SuperPort)}
    (h : List.Forall₂ (fun c found => (∃ e, d.get? c = some e) ∧
      ∀ dk, Hangs d dk → wiresAt dk placements c = .ok found) connectors founds)
    (hk : Hangs d dk) (naming : Naming) (ports : List SuperPort) :
    ∃ d', Edit.Runs (stitchAll naming placements ports connectors) dk
      (founds.flatten.foldl addNew ports) d' := by
  induction h generalizing dk ports with
  | nil => exact ⟨dk, Edit.runs_pure.mpr ⟨rfl, rfl⟩⟩
  | @cons c found connectors founds hc _ ih =>
    obtain ⟨⟨e, he⟩, hfound⟩ := hc
    have hwires := hfound dk hk
    have hc := hk.of_get? he
    obtain ⟨d₁, hdraw⟩ := exists_drawNew naming hc ports found
    obtain ⟨d', hrest⟩ := ih (hk.trans (hangs_of_wiresAt hwires hdraw)) (found.foldl addNew ports)
    refine ⟨d', ?_⟩
    rw [List.flatten_cons, List.foldl_append]
    exact stitchAll_cons_runs_iff.mpr ⟨⟨e, hc⟩, found, d₁, hwires, hdraw, hrest⟩

/-! ## The whole of stitching -/

/-- **Stitching is a step** that adds nothing but super-ports. -/
theorem frame_of_stitch {r : Stitching} (hd : Orderly top instances d)
    (h : Edit.Runs (stitch naming placements top) d r d') : Frame none d d' ∧
      ∀ j e', d.bound ≤ j → d'.get? j = some e' → e'.role.isSuperPort = true := by
  have hhangs := stitchAll_hangs (stitch_runs_iff.mp ⟨r, h, rfl⟩)
  have hdiscard := frame_withoutSuperPorts hd
  have hd₂ := hd.frame hdiscard fun _ hs => nomatch hs
  refine ⟨hdiscard.trans (hhangs.frame hd₂) hd.issued hd₂.issued, fun j e' hj he' => ?_⟩
  exact (hhangs.new j e' (by rwa [bound_withoutSuperPorts]) he').1

/-- The connectors of a super-network are the same after a step that adds nothing but
super-ports. -/
theorem Frame.connectorsIn (h : Frame none d d') (hd : Orderly top instances d)
    (hd' : Orderly top instances d')
    (hnew : ∀ j e', d.bound ≤ j → d'.get? j = some e' → e'.role.isSuperPort = true) :
    Assembly.connectorsIn d' top = Assembly.connectorsIn d top := by
  obtain ⟨y, hy, -⟩ := hd.top_live
  have hsame := (h.reproduces hnew top).connectorsIn hd.bare hd'.bare ⟨y, hy⟩
    fun _ _ _ _ hlt => hlt
  rwa [List.map_id] at hsame

/-- **A diagram that reproduces a stitched one is stitched with the same super-ports**, if
it has the connectors in the same order. -/
theorem stitch_again {g : Slot → Slot} {r : Stitching} (hd : Orderly top instances d)
    (h : Edit.Runs (stitch naming placements top) d r d') (hd₁ : Orderly top instances d₁)
    (hg : Reproduces g top d' d₁) (hordered : ∀ c c', c ∈ connectorsIn d' top →
      c' ∈ connectorsIn d' top → c < c' → g c < g c') (again : Naming) :
    ∃ r' d'', Edit.Runs (stitch again placements top) d₁ r' d'' ∧ r'.superPorts = r.superPorts := by
  have hstitch := stitch_runs_iff.mp ⟨r, h, rfl⟩
  have hhangs := stitchAll_hangs hstitch
  obtain ⟨-, founds, hfounds, hports⟩ := stitchAll_finds hstitch
  have hnobody : ∀ s ∈ (none : Option Slot), s ∈ instances := fun _ hs => nomatch hs
  obtain ⟨hframe, hnew⟩ := frame_of_stitch hd h
  have hd₂ := hd.frame (frame_withoutSuperPorts hd) hnobody
  have hd' := hd.frame hframe hnobody
  have hcleared := hd₁.frame (frame_withoutSuperPorts hd₁) hnobody
  have hconnectors : connectorsIn d₁ top = (connectorsIn d top).map g := by
    obtain ⟨y, hy, -⟩ := hd'.top_live
    rw [hg.connectorsIn hd'.bare hd₁.bare ⟨y, hy⟩ hordered, hframe.connectorsIn hd hd' hnew]
  have hback : Reproduces id top d₁ (withoutSuperPorts d₁) := by
    refine (frame_withoutSuperPorts hd₁).reproduces (fun j e' hj he' => ?_) top
    rw [Diagram.get?_of_bound_le (bound_withoutSuperPorts d₁ ▸ hj)] at he'
    cases he'
  have hagain : List.Forall₂ (fun c found => (∃ e, (withoutSuperPorts d₁).get? c = some e) ∧
      ∀ dk, Hangs (withoutSuperPorts d₁) dk → wiresAt dk placements c = .ok found)
      (connectorsIn d₁ top) founds := by
    rw [hconnectors, List.forall₂_map_left_iff]
    refine forall₂_imp_mem hfounds fun c hc found _ ⟨dk, hk, hk', hwires⟩ => ?_
    rw [← hframe.connectorsIn hd hd' hnew] at hc
    obtain ⟨hdesc, e, he, hrole⟩ := mem_connectorsIn.mp hc
    obtain ⟨-, -, hin⟩ := Diagram.mem_descendants.mp hdesc
    obtain ⟨hfirst, hlast⟩ := hhangs.split hk hk'
    have hdk := hd₂.frame (hfirst.frame hd₂) hnobody
    have hframek := hlast.frame hdk
    obtain ⟨hlt, hek⟩ := hk'.old he (isSuperPort_of_connector hrole)
    -- From the diagram in which it was found on, everything that is read stays.
    have hforth : Reproduces (g ∘ id) top dk d₁ :=
      (hframek.reproduces (fun j x hj hx => (hlast.new j x hj hx).1) top).trans hg hdk.bare
    have hall := hforth.trans hback hdk.bare
    obtain ⟨e', he', -⟩ := hall.connector hek hrole
    refine ⟨⟨e', he'⟩, fun dk' hhang => ?_⟩
    have hframek' := hhang.frame hcleared
    have hdk' := hcleared.frame hframek' hnobody
    have hwhole := hall.trans
      (hframek'.reproduces (fun j x hj hx => (hhang.new j x hj hx).1) top) hdk.bare
    exact hwhole.wiresAt hdk.bare hdk.marksLead hdk'.rooted hdk'.loopless
      (hframek.inside_old hdk.issued hlt hin) hek hrole hwires
  obtain ⟨d'', hruns⟩ := exists_stitchAll hagain (Hangs.refl _) again []
  rw [← hports] at hruns
  obtain ⟨r', hr', hsame⟩ := stitch_runs_iff.mpr hruns
  exact ⟨r', d'', hr', hsame⟩

end Netlist.Assembly
