import Netlist.Proofs.Assembly.Blocks
import Netlist.Proofs.Assembly.Redrawing
import Netlist.Proofs.Assembly.SuperPorts

/-!
# Assembling again

When an assembled super-network is assembled again, every instance keeps its content or
gets the same content in new slots. Either way its place stays, and what can be found
along the connectors stays. The connectors themselves are visited in the same order,
because new slots are issued to the instances in the order in which they were before.

- `Repeats`: the second run, with the same library and drawings.
- `place_again`: **the turn of a settled instance succeeds and changes no findings.**
- `Moves`: how slots move in a second run; `Moves.cons`, `Moves.lt`: **the connectors
  stay in order.**
- `placeAll_again`: all turns of the second run.
- `assemble_again`: **assembling again succeeds with the same super-network.**
-/

namespace Netlist.Assembly

open Diagram (proper?_eq_some)

variable {x x' : Context} {turn : Option Slot} {d d₁ d' : Diagram} {s c i j base offset top : Slot}
  {instances : List Slot} {e e' : Element} {p r : Placed} {placed : List Placed} {g f : Slot → Slot}

/-! ## The second run -/

/-- A run with the same library, compile switches and drawings, which refreshes no
instance with content unless the other one does. -/
structure Repeats (x x' : Context) : Prop where
  catalog : x'.catalog = x.catalog
  switches : x'.switches = x.switches
  shelf : x'.shelf = x.shelf
  refresh : x'.assembly.refresh = true → x.assembly.refresh = true

theorem Repeats.refreshedFrom (h : Repeats x x') {drawing : Option String} {name : String}
    (hfrom : refreshedFrom x' d s drawing = some name) :
    Assembly.refreshedFrom x d s drawing = some name := by
  rw [refreshedFrom_eq_some] at hfrom ⊢
  exact ⟨hfrom.1, hfrom.2.imp h.refresh id⟩

/-- The content of an instance is replaced in the second run. -/
def Again (x' : Context) (p : Placed) : Prop := x'.assembly.refresh = true ∧ p.wasRefreshed = true

/-! ## How slots move -/

/-- How the slots of a super-network move in a second run: what is in instances whose
content is replaced moves behind all slots there are, in its order and in the order of
the instances, and all else stays. -/
structure Moves (x' : Context) (g : Slot → Slot) (top : Slot) (placed : List Placed) (d : Diagram) :
    Prop where
  fixed : ∀ j e, d.proper? j = some e → d.Inside j top →
    (∀ p ∈ placed, Again x' p → ¬ d.Inside j p.slot) → g j = j
  above : ∀ p ∈ placed, Again x' p → ∀ j e, d.proper? j = some e → d.Inside j p.slot → d.bound ≤ g j
  ordered : ∀ p ∈ placed, Again x' p → ∀ r ∈ placed, Again x' r → ∀ i j e e',
    d.proper? i = some e → d.proper? j = some e' → d.Inside i p.slot → d.Inside j r.slot →
    (p.slot < r.slot ∨ p.slot = r.slot ∧ i < j) → g i < g j

/-- If no content is replaced, all slots stay. -/
theorem Moves.none (h : ∀ p ∈ placed, ¬ Again x' p) (top : Slot) (d : Diagram) :
    Moves x' id top placed d where
  fixed := fun _ _ _ _ _ => rfl
  above := fun p hp hagain => absurd hagain (h p hp)
  ordered := fun p hp hagain => absurd hagain (h p hp)

/-- One turn and all later ones. -/
theorem Moves.cons (h : Moves x' g top [p] d) (h' : Moves x' f top placed d₁)
    (hg : Reproduces g top d d₁) (hframe : Frame turn d d₁) (hd : Orderly top instances d)
    (hd₁ : Orderly top instances d₁) (hp : p.slot ∈ instances)
    (hplaced : ∀ r ∈ placed, r.slot ∈ instances ∧ p.slot < r.slot) :
    Moves x' (f ∘ g) top (p :: placed) d := by
  have hself : p ∈ [p] := List.mem_singleton_self p
  -- What is in the first instance does not move again.
  have hstays : ∀ {j e}, d.proper? j = some e → d.Inside j p.slot → f (g j) = g j ∧
      ∃ e', d₁.proper? (g j) = some e' := by
    intro j e he hin
    obtain ⟨e', he', -⟩ := hg.element j e he
    obtain ⟨y, hy, hsub⟩ := hd.sub hp
    have hin' := hg.inside hd.bare he hin
    rw [hg.subs p.slot y (proper?_eq_some.mp hy).1 hsub] at hin'
    refine ⟨h'.fixed (g j) e' he' (hin'.trans (hd₁.inside_top hp)) fun r hr _ hinr => ?_, e', he'⟩
    obtain ⟨hmem, hlt⟩ := hplaced r hr
    exact hd₁.apart hp hmem (Nat.ne_of_lt hlt) hin' hinr
  -- What is in a later one moves with it, and what is in none does not move.
  have hlater : ∀ {j e}, d.proper? j = some e → d.Inside j top → ¬ d.Inside j p.slot → g j = j ∧
      (∃ e', d₁.proper? j = some e') ∧
        ∀ {r}, r ∈ placed → (d₁.Inside j r.slot ↔ d.Inside j r.slot) := by
    intro j e he hin hnot
    have hfix := h.fixed j e he hin fun q hq _ => List.mem_singleton.mp hq ▸ hnot
    obtain ⟨e', he', -⟩ := hg.element j e he
    rw [hfix] at he'
    have hj := Diagram.lt_bound_of_proper? he
    refine ⟨hfix, ⟨e', he'⟩, fun hr => ⟨hframe.inside_old hd.issued hj, fun hinr => ?_⟩⟩
    obtain ⟨y, hy, hsub⟩ := hd.sub (hplaced _ hr).1
    have hin' := hg.inside hd.bare he hinr
    rwa [hfix, hg.subs _ y (proper?_eq_some.mp hy).1 hsub] at hin'
  have hnot : ∀ {r j}, r ∈ placed → d.Inside j r.slot → ¬ d.Inside j p.slot := fun hr hin =>
    hd.apart (hplaced _ hr).1 hp (Nat.ne_of_gt (hplaced _ hr).2) hin
  have htop : ∀ {r j}, r ∈ placed → d.Inside j r.slot → d.Inside j top := fun hr hin =>
    hin.trans (hd.inside_top (hplaced _ hr).1)
  constructor
  case fixed =>
    intro j e he hin hout
    obtain ⟨hself', hrest⟩ := List.forall_mem_cons.mp hout
    by_cases hinp : d.Inside j p.slot
    · have hfix := h.fixed j e he hin fun q hq hagain =>
        List.mem_singleton.mp hq ▸ hself' (List.mem_singleton.mp hq ▸ hagain)
      rw [Function.comp_apply, (hstays he hinp).1, hfix]
    · obtain ⟨hfix, ⟨e', he'⟩, hsame⟩ := hlater he hin hinp
      have hin' := hg.inside hd.bare he hin
      rw [hfix, hg.fixes] at hin'
      rw [Function.comp_apply, hfix]
      exact h'.fixed j e' he' hin' fun r hr hagain hinr => hrest r hr hagain ((hsame hr).mp hinr)
  case above =>
    intro r hr hagain j e he hin
    rcases List.mem_cons.mp hr with rfl | hr
    · rw [Function.comp_apply, (hstays he hin).1]
      exact h.above r hself hagain j e he hin
    · obtain ⟨hfix, ⟨e', he'⟩, hsame⟩ := hlater he (htop hr hin) (hnot hr hin)
      rw [Function.comp_apply, hfix]
      exact Nat.le_trans hframe.bound (h'.above r hr hagain j e' he' ((hsame hr).mpr hin))
  case ordered =>
    intro q hq hagain r hr hagain' i j e e' he he' hin hin' hlt
    rcases List.mem_cons.mp hq with rfl | hmem
    · obtain ⟨hfix, y, hy⟩ := hstays he hin
      rw [Function.comp_apply, Function.comp_apply, hfix]
      rcases List.mem_cons.mp hr with rfl | hmem'
      · rw [(hstays he' hin').1]
        exact h.ordered r hself hagain r hself hagain' i j e e' he he' hin hin' hlt
      · obtain ⟨hfix', ⟨e₁, he₁⟩, hsame⟩ := hlater he' (htop hmem' hin') (hnot hmem' hin')
        rw [hfix']
        exact Nat.lt_of_lt_of_le (Diagram.lt_bound_of_proper? hy)
          (h'.above r hmem' hagain' j e₁ he₁ ((hsame hmem').mpr hin'))
    · obtain ⟨hfix, ⟨e₁, he₁⟩, hsame⟩ := hlater he (htop hmem hin) (hnot hmem hin)
      rcases List.mem_cons.mp hr with rfl | hmem'
      · -- The first instance has the least slot.
        have := (hplaced q hmem).2
        grind
      · obtain ⟨hfix', ⟨e₁', he₁'⟩, hsame'⟩ := hlater he' (htop hmem' hin') (hnot hmem' hin')
        rw [Function.comp_apply, Function.comp_apply, hfix, hfix']
        exact h'.ordered q hmem hagain r hmem' hagain' i j e₁ e₁' he₁ he₁' ((hsame hmem).mpr hin)
          ((hsame' hmem').mpr hin') hlt

/-- **What is in order stays in order**, since what moves is in blocks. -/
theorem Moves.lt (h : Moves x' g top placed d) (hblocks : Blocks base top placed d)
    (he : d.proper? i = some e) (he' : d.proper? j = some e') (hin : d.Inside i top)
    (hin' : d.Inside j top) (hlt : i < j) : g i < g j := by
  by_cases hmoves : ∃ p ∈ placed, Again x' p ∧ d.Inside i p.slot
  · obtain ⟨p, hp, hagain, hinp⟩ := hmoves
    have hi := hblocks.above p hp hagain.2 i e he hinp
    have hj := Nat.le_trans hi (Nat.le_of_lt hlt)
    obtain ⟨r, hr, hwas, hinr⟩ := hblocks.within j e' hj he' hin'
    refine h.ordered p hp hagain r hr ⟨hagain.1, hwas⟩ i j e e' he he' hinp hinr ?_
    rcases Nat.lt_trichotomy p.slot r.slot with hslot | hslot | hslot
    · exact .inl hslot
    · exact .inr ⟨hslot, hlt⟩
    · have := hblocks.ordered r hr p hp hslot j i e' e hj hi he' he hinr hinp
      exact absurd hlt (Nat.lt_asymm this)
  · have hfix := h.fixed i e he hin fun p hp hagain hinp => hmoves ⟨p, hp, hagain, hinp⟩
    rw [hfix]
    by_cases hmoves' : ∃ r ∈ placed, Again x' r ∧ d.Inside j r.slot
    · obtain ⟨r, hr, hagain, hinr⟩ := hmoves'
      exact Nat.lt_of_lt_of_le (Diagram.lt_bound_of_proper? he) (h.above r hr hagain j e' he' hinr)
    · rw [h.fixed j e' he' hin' fun r hr hagain hinr => hmoves' ⟨r, hr, hagain, hinr⟩]
      exact hlt

/-! ## One turn -/

theorem Reproduces.refl (hd : Orderly top instances d) : Reproduces id top d d :=
  ((Hangs.refl d).frame hd).reproduces (fun j e hj he => by
    rw [Diagram.get?_of_bound_le hj] at he
    cases he) top

/-- Nothing is inside an instance without content. -/
theorem not_inside_of_isEmpty (hloop : ¬ d.Inside s s) (h : (d.children s).isEmpty = true) :
    ¬ d.Inside j s := by
  intro hin
  obtain ⟨k, -, hp⟩ := Relation.TransGen.tail'_iff.mp hin
  have heq := isEmpty_children_iff.mp h k hp
  exact hloop (.single (heq ▸ hp))

/-- The content that a refreshed instance gets in the second run moves to new slots. -/
theorem Refilled.moves {m m' : Import} {start : Nat}
    (h : Refilled m m' start p.slot offset top instances d d')
    (hagain : ¬ Again x' p → (d.children p.slot).isEmpty = true) :
    Moves x' (slide start m.copies.length d.bound) top [p] d where
  fixed := by
    intro j e he hin hout
    refine h.fixed fun hmem => ?_
    obtain ⟨hinp, -⟩ := h.before.passes h.orderly.bare hmem he hin
      (h.before.not_mem_block h.before.above.2.1)
    by_cases hp : Again x' p
    · exact hout p (List.mem_singleton_self p) hp hinp
    · exact not_inside_of_isEmpty (h.orderly.loopless p.slot) (hagain hp) hinp
  above := by
    intro q hq _ j e he hin
    obtain rfl := List.mem_singleton.mp hq
    rw [h.moved (h.before.mem_of_inside h.orderly.bare he hin)]
    exact Nat.le_add_left _ _
  ordered := by
    intro q hq _ r hr _ i j e e' he he' hin hin' hlt
    obtain rfl := List.mem_singleton.mp hq
    obtain rfl := List.mem_singleton.mp hr
    refine h.moved_lt (h.before.mem_of_inside h.orderly.bare he hin)
      (h.before.mem_of_inside h.orderly.bare he' hin') ?_
    exact (hlt.resolve_left (Nat.lt_irrefl _)).2

/-- **The turn of a settled instance succeeds in the second run**: its place stays, and so
do the findings. -/
theorem place_again (h : Settled x top p d) (hx : Repeats x x') (hd : Orderly top instances d)
    (hs : p.slot ∈ instances) (hshelf : Docked x.shelf)
    (hoffset : p.subnet.offset ≤ Text.integerLimit)
    (hcount : p.subnet.nodeCount ≤ Text.integerLimit) :
    ∃ p' d' g, Edit.Runs (place x' p.slot p.subnet.offset) d p' d' ∧ p'.subnet = p.subnet ∧
      Reproduces g top d d' ∧ Moves x' g top [p] d := by
  obtain ⟨e, he, hname, hdrawing, hwritten⟩ := h.here
  cases hfrom : refreshedFrom x' d p.slot p.subnet.drawing with
  | none =>
    -- Its duplicates are marked already, and so there is nothing left to do.
    have hmarked : Marked d p.slot := by
      cases hwas : p.wasRefreshed with
      | true =>
        obtain ⟨_, m, start, -, -, -, hfilled⟩ := h.refreshed hwas
        exact hfilled.isMarked hd.bare
      | false => exact (h.kept hwas).1
    obtain ⟨duplicates, hruns⟩ := place_kept_again he (hdrawing.symm ▸ hfrom) hwritten hoffset
      hcount hmarked
    refine ⟨_, d, id, hruns, ?_, .refl hd, .none (fun q hq hagain => ?_) top d⟩
    · show (⟨e.displayName, e.fields.get? drawingField, _, _⟩ : Subnet) = _
      rw [hname, hdrawing]
    · -- An instance that was refreshed has a drawing, so it would be refreshed again.
      obtain rfl := List.mem_singleton.mp hq
      obtain ⟨name, -, -, hdrawn, -⟩ := h.refreshed hagain.2
      rw [refreshedFrom_eq_some.mpr ⟨hdrawn, .inl hagain.1⟩] at hfrom
      cases hfrom
  | some name =>
    -- Content that was kept in the first run would be kept again.
    have hwas : p.wasRefreshed = true := by
      by_contra hwas
      rw [Bool.not_eq_true] at hwas
      have hnone := (h.kept hwas).2
      rw [hx.refreshedFrom hfrom] at hnone
      cases hnone
    obtain ⟨hdrawn, hwhy⟩ := refreshedFrom_eq_some.mp hfrom
    obtain ⟨name', m, start, hdrawn', hsource, hnodes, hfilled⟩ := h.refreshed hwas
    rw [hdrawn, Option.some.injEq] at hdrawn'
    subst hdrawn'
    rw [← hx.catalog, ← hx.switches, ← hx.shelf] at hsource
    obtain ⟨done, d₁, hrefresh⟩ :=
      hsource.exists_refreshVisiting he x'.visiting.order x'.naming p.subnet.offset
    have hsettle : Edit.Runs (settle x' p.slot (e.fields.get? drawingField) p.subnet.offset) d
        (true, done) d₁ := by
      rw [settle_runs_iff, hdrawing, hfrom]
      exact ⟨rfl, hrefresh⟩
    have hruns := place_runs_iff.mpr ⟨e, true, done, d₁, _, he, hsettle, rfl, rfl, rfl⟩
    have hturn := place_turned hd hs (hx.shelf ▸ hshelf) hruns
    obtain ⟨name', m', hdrawn', hsource', hnodes', hfilled', hrebound⟩ := hturn.refreshed rfl
    dsimp only at hdrawn' hnodes'
    rw [hdrawing, hdrawn, Option.some.injEq] at hdrawn'
    subst hdrawn'
    -- Compiling the drawing again gives the same, so the same is copied.
    obtain ⟨hdiagram, hcompiled, horiginals⟩ := hsource.unique hsource'
    have hsubnet : (⟨e.displayName, e.fields.get? drawingField, p.subnet.offset, done.nodeCount⟩ :
        Subnet) = p.subnet := by
      rw [hname, hdrawing, hnodes', hcompiled, ← hnodes]
    have hrefilled : Refilled m m' start p.slot p.subnet.offset top instances d _ := {
      before := hfilled
      after := hfilled'
      diagram := hdiagram
      originals := horiginals
      frame := hturn.frame
      orderly := hd
      orderly' := hturn.orderly hd hs
      mem := hs
      fields := fun e₀ e' he₀ he' => by
        rw [he] at he₀
        cases he₀
        rw [hturn.fields e e' he he', congrArg Subnet.nodeCount hsubnet, hwritten.withPlace_eq]
      rebound := hrebound }
    refine ⟨_, _, _, hruns, hsubnet, hrefilled.reproduces, hrefilled.moves fun hagain => ?_⟩
    exact hwhy.resolve_left fun hrefresh => hagain ⟨hrefresh, hwas⟩

/-! ## All turns -/

/-- Where an instance is, and what it is in the super-network. -/
def Placed.seat (p : Placed) : Slot × Subnet := (p.slot, p.subnet)

/-- What is made of seats only is the same for the same seats. -/
theorem map_eq_of_seats {α : Type} {placed' : List Placed}
    (h : placed'.map Placed.seat = placed.map Placed.seat) (f : Slot × Subnet → α) :
    (placed'.map fun p => f p.seat) = placed.map fun p => f p.seat := by
  have := congrArg (List.map f) h
  rwa [List.map_map, List.map_map] at this

/-- **All turns of the second run succeed** and give every instance its place again. -/
theorem placeAll_again (hx : Repeats x x') (hshelf : Docked x.shelf) (hd : Orderly top instances d)
    (hsettled : ∀ p ∈ placed, p.slot ∈ instances ∧ Settled x top p d)
    (hlimit : ∀ p ∈ placed, p.subnet.offset ≤ Text.integerLimit ∧
      p.subnet.nodeCount ≤ Text.integerLimit)
    (hsorted : (placed.map Placed.slot).Pairwise (· < ·)) (hchained : Chained offset placed) :
    ∃ placed' d' g, Edit.Runs (placeAll x' offset (placed.map Placed.slot)) d placed' d' ∧
      placed'.map Placed.seat = placed.map Placed.seat ∧ Orderly top instances d' ∧
      Reproduces g top d d' ∧ Moves x' g top placed d := by
  induction placed generalizing d offset with
  | nil =>
    exact ⟨[], d, id, Edit.runs_pure.mpr ⟨rfl, rfl⟩, rfl, hd, .refl hd,
      .none (fun _ hp => (List.not_mem_nil hp).elim) top d⟩
  | cons p placed ih =>
    obtain ⟨⟨hs, hself⟩, hsettled⟩ := List.forall_mem_cons.mp hsettled
    obtain ⟨⟨hoffset, hcount⟩, hlimit⟩ := List.forall_mem_cons.mp hlimit
    rw [List.map_cons] at hsorted
    obtain ⟨hfirst, hsorted⟩ := List.pairwise_cons.mp hsorted
    obtain ⟨rfl, hchained⟩ := hchained
    have hlater : ∀ r ∈ placed, r.slot ∈ instances ∧ p.slot < r.slot := fun r hr =>
      ⟨(hsettled r hr).1, hfirst r.slot (List.mem_map_of_mem hr)⟩
    obtain ⟨p', d₁, g, hplace, hsubnet, hg, hmoves⟩ :=
      place_again hself hx hd hs hshelf hoffset hcount
    have hturn := place_turned hd hs (hx.shelf ▸ hshelf) hplace
    have hd₁ := hturn.orderly hd hs
    -- The turn leaves the later instances as settled as they were.
    have hsettled₁ : ∀ r ∈ placed, r.slot ∈ instances ∧ Settled x top r d₁ := by
      refine fun r hr => ⟨(hlater r hr).1, ?_⟩
      refine (hsettled r hr).2.frame hturn.frame hd hd₁ (fun t ht => ?_) (hlater r hr).1
      obtain rfl := Option.some.inj ht
      exact ⟨hs, Nat.ne_of_lt (hlater r hr).2⟩
    obtain ⟨placed', d', f, hrun, hseats, hd', hf, hmoves'⟩ :=
      ih hd₁ hsettled₁ hlimit hsorted hchained
    refine ⟨p' :: placed', d', f ∘ g, ?_, ?_, hd', hg.trans hf hd.bare,
      hmoves.cons hmoves' hg hturn.frame hd hd₁ hs hlater⟩
    · rw [List.map_cons]
      exact placeAll_runs_cons.mpr ⟨p', placed', d₁, rfl, hplace, by rw [hsubnet]; exact hrun⟩
    · rw [List.map_cons, List.map_cons, hseats, Placed.seat, Placed.seat, hsubnet, hturn.slot]

/-! ## The whole assembly -/

/-- **Assembling again succeeds with the same super-network.** The document and the
drawings are as they were read (`Document.read_pristine`, `Document.read_anchored`), with
their super-ports at connectors, and the numbers in the fields of the instances can be
read back. The second run refreshes as the first one did, or only instances that have no
content, and may visit the copies in another order. -/
theorem assemble_again {A : Assembly} (hpristine : d.Pristine) (hanchored : d.Anchored)
    (hports : d.PortsDocked) (hshelf : Docked x.shelf) (h : Edit.Runs (assemble x) d A d')
    (hlimit : ∀ s ∈ A.network.subnets, s.offset ≤ Text.integerLimit ∧
      s.nodeCount ≤ Text.integerLimit) (hx : Repeats x x') :
    ∃ A' d'', Edit.Runs (assemble x') d' A' d'' ∧ A'.network = A.network := by
  obtain ⟨hvalid, top, e, instances, placed, d₁, stitching, hsuper, he, hinstances, hplace, hstitch,
    hnetwork⟩ := assemble_runs_iff.mp ⟨A, h, rfl⟩
  obtain ⟨hd, hsorted⟩ := orderly_of_found hpristine hanchored hports hvalid hsuper hinstances
  have hfinished := placeAll_settles hd hshelf (fun _ hs => hs) hsorted
    (fun _ hr => (List.not_mem_nil hr).elim) (Nat.le_refl _) (Blocks.nil top d) hplace
  have hnobody : ∀ s ∈ (none : Option Slot), s ∈ instances := fun _ hs => nomatch hs
  obtain ⟨hframe, hnew⟩ := frame_of_stitch hfinished.orderly hstitch
  have hd' := hfinished.orderly.frame hframe hnobody
  have hblocks : Blocks d.bound top placed d' :=
    hfinished.blocks.frame hframe hfinished.orderly.issued hfinished.orderly.bare hnew
  have hslots := hfinished.slots
  have hsettled : ∀ p ∈ placed, p.slot ∈ instances ∧ Settled x top p d' := by
    intro p hp
    have hmem : p.slot ∈ instances := hslots ▸ List.mem_map_of_mem hp
    exact ⟨hmem, (hfinished.settled p hp).frame hframe hfinished.orderly hd'
      (fun _ hs => nomatch hs) hmem⟩
  have hplaced : ∀ p ∈ placed, p.subnet ∈ A.network.subnets := by
    intro p hp
    rw [← hnetwork]
    exact List.mem_map_of_mem hp
  obtain ⟨placed', d₂, g, hplace', hseats, hd₂, hg, hmoves⟩ := placeAll_again hx hshelf hd' hsettled
    (fun p hp => hlimit p.subnet (hplaced p hp)) (hslots ▸ hsorted) (chained_of_placeAll hplace)
  obtain ⟨stitching', d'', hstitch', hsame⟩ := stitch_again hfinished.orderly hstitch hd₂ hg
    (fun c c' hc hc' hlt => by
      obtain ⟨hdesc, y, hy, hrole⟩ := mem_connectorsIn.mp hc
      obtain ⟨hdesc', y', hy', hrole'⟩ := mem_connectorsIn.mp hc'
      exact hmoves.lt hblocks (proper?_eq_some.mpr ⟨hy, isSuperPort_of_connector hrole⟩)
        (proper?_eq_some.mpr ⟨hy', isSuperPort_of_connector hrole'⟩)
        (Diagram.mem_descendants.mp hdesc).2.2 (Diagram.mem_descendants.mp hdesc').2.2 hlt)
    x'.naming
  have hplacements : placed'.map Placed.placement = placed.map Placed.placement :=
    map_eq_of_seats hseats fun p =>
      (p.1, (⟨p.2.name, p.2.offset, p.2.nodeCount⟩ : Placement))
  have hcounts : total placed' = total placed :=
    congrArg List.sum (map_eq_of_seats hseats fun p => p.2.nodeCount)
  have hsubnets : placed'.map Placed.subnet = placed.map Placed.subnet :=
    map_eq_of_seats hseats fun p => p.2
  -- The super-network itself is in no instance, so it has its old name.
  obtain ⟨y, hy, -⟩ := hd.top_live
  rw [(proper?_eq_some.mp hy).1, Option.some.injEq] at he
  subst he
  obtain ⟨e₁, he₁, hstays⟩ := hfinished.apart top y hy fun s hs => hd.not_inside_top hs
  obtain ⟨e', he', hstays', -⟩ := hframe.kept top e₁ (clear_none d₁ top) he₁
  have hruns := assemble_runs_iff.mpr ⟨Diagram.validate_of_not_inside hd'.loopless, top, e',
    instances, placed', d₂, stitching', findSuperNetwork_eq_ok.mpr hd'.super, (proper?_eq_some.mp he').1,
    hd'.findInstances_eq hsorted, hslots ▸ hplace', hplacements ▸ hstitch', rfl⟩
  obtain ⟨A', hruns, hnetwork'⟩ := hruns
  refine ⟨A', d'', hruns, ?_⟩
  rw [hnetwork', ← hnetwork, networkOf, networkOf, displayName_of_stays (hstays.trans hstays'),
    hcounts, hsubnets, hsame]

/-- The street with an old super-port at its connector. -/
def oldStreet : Diagram :=
  ⟨street.slots.push (some
    { id := "w", role := .superPort ⟨"S", "V1", 1, 7⟩, parent := some 6 })⟩

/-- The same run without refreshing. -/
def keepingContext : Context := { streetContext with assembly := { refresh := false } }

/-- A super-port is found, and all numbers can be read back. -/
def fits (A : Assembly) : Bool :=
  A.network.superPorts == [⟨"S", "V1", 1, 2⟩] && A.network.subnets.all fun s =>
    s.offset ≤ Text.integerLimit && s.nodeCount ≤ Text.integerLimit

/-- The street is assembled by refreshing both instances, and again by keeping them. -/
theorem assemble_again_street : ∃ A d' A' d'', Edit.Runs (assemble streetContext) oldStreet A d' ∧
    A.network.superPorts = [⟨"S", "V1", 1, 2⟩] ∧
    Edit.Runs (assemble keepingContext) d' A' d'' ∧ A'.network = A.network := by
  have hshelf : Docked streetContext.shelf := by
    intro name drawing h
    rw [streetContext, Except.ok.injEq] at h
    split at h
    · cases h
      exact ⟨by decide, by decide⟩
    · split at h
      · cases h
        exact ⟨by decide, by decide⟩
      · cases h
  have hrun : ((assemble streetContext).run oldStreet).result.toOption.any fits = true := by cbv
  simp only [Option.any_eq_true, toOption_eq_some, fits, Bool.and_eq_true, beq_iff_eq,
    List.all_eq_true, decide_eq_true_eq] at hrun
  obtain ⟨A, hA, hports, hlimit⟩ := hrun
  have hrepeats : Repeats streetContext keepingContext :=
    ⟨rfl, rfl, rfl, fun hrefresh => absurd hrefresh Bool.false_ne_true⟩
  obtain ⟨A', d'', hruns, hsame⟩ := assemble_again (by decide) (by decide) (by decide) hshelf
    ⟨hA, rfl⟩ hlimit hrepeats
  exact ⟨A, _, A', d'', ⟨hA, rfl⟩, hports, hruns, hsame⟩

end Netlist.Assembly
