import Netlist.Proofs.Assembly.Reproducing
import Netlist.Proofs.Assembly.Shape

/-!
# Orderly super-networks

From the moment its instances are known until it is stitched, a super-network stays in
good order: the instances are the ones that would be found now, super-ports are at
connectors with nothing in them, and duplicates are marked within their instance.

- `PortsDocked`: what a document has to be like.
- `Orderly`: the order of a super-network, and `orderly_of_found`: a document that was
  read has it.
- `Orderly.flat`, `Orderly.marksLead`, `Orderly.interfacesProper`: what goes with it.
- `findSuperNetwork_eq`, `findInstances_eq`: **the super-network and its instances are
  found again.**
-/

namespace Netlist

namespace Diagram

/-- Every super-port is directly inside a connector, and nothing is inside it. -/
def PortsDocked (d : Diagram) : Prop := ∀ i e, d.get? i = some e → e.role.isSuperPort = true →
  (∃ p x, e.parent = some p ∧ d.get? p = some x ∧ x.role = .connector) ∧ ∀ j, ¬ d.HasParent j i

theorem portsDocked_iff {d : Diagram} : d.PortsDocked ↔ ∀ i < d.bound, ∀ e ∈ d.get? i,
    e.role.isSuperPort = true → (∃ p ∈ e.parent, ∃ x ∈ d.get? p, x.role = .connector) ∧
      ∀ j < d.bound, ∀ x ∈ d.get? j, x.parent ≠ some i := by
  constructor
  · intro h i _ e he hport
    obtain ⟨⟨p, x, hp, hx, hrole⟩, hnone⟩ := h i e he hport
    exact ⟨⟨p, hp, x, hx, hrole⟩, fun j _ y hy hparent => hnone j ⟨y, hy, hparent⟩⟩
  · intro h i e he hport
    obtain ⟨⟨p, hp, x, hx, hrole⟩, hnone⟩ := h i (lt_bound_of_get? he) e he hport
    refine ⟨⟨p, x, hp, hx, hrole⟩, fun j hj => ?_⟩
    obtain ⟨y, hy, hparent⟩ := hj
    exact hnone j (lt_bound_of_get? hy) y hy hparent

instance (d : Diagram) : Decidable d.PortsDocked := decidable_of_iff' _ portsDocked_iff

end Diagram

namespace Assembly

open Diagram (proper?_eq_some)

variable {d d' : Diagram} {s t a i j p top : Slot} {instances : List Slot} {e : Element}

/-- A network container of either kind. -/
def isNetworkAt (_ : Slot) (e : Element) : Bool := e.role.isNetwork

/-- A super-network in good order: `top` holds it, and `instances` are its instances. -/
structure Orderly (top : Slot) (instances : List Slot) (d : Diagram) : Prop where
  rooted : d.Rooted
  issued : d.Issued
  loopless : ∀ i, ¬ d.Inside i i
  anchored : ∀ c e isSource a, d.get? c = some e → e.role = .connector →
    e.endAt isSource = some a → a < d.bound
  bare : d.BarePorts
  held : ∀ i p e x, d.get? i = some e → e.role.isSuperPort = true → e.parent = some p →
    d.get? p = some x → x.role = .connector
  marks : ∀ a e first, d.get? a = some e → e.role.mark? = some first →
    ∃ s ∈ instances, d.Inside a s ∧ d.Inside first s ∧ isInterface d first = true
  super : ∀ j, (∃ e, d.get? j = some e ∧ e.role.isSuperNetwork = true) ↔ j = top
  found : ∀ s, s ∈ instances ↔ (∃ e, d.get? s = some e ∧ e.role.isSubNetwork = true) ∧
    d.Nearest isNetworkAt s top

/-! ## Instances -/

namespace Orderly

theorem inside_top (h : Orderly top instances d) (hs : s ∈ instances) : d.Inside s top :=
  ((h.found s).mp hs).2.inside

theorem sub (h : Orderly top instances d) (hs : s ∈ instances) :
    ∃ e, d.proper? s = some e ∧ e.role.isSubNetwork = true := by
  obtain ⟨⟨e, he, hsub⟩, -⟩ := (h.found s).mp hs
  have hnetwork := Role.isNetwork_of_isSubNetwork hsub
  exact ⟨e, proper?_eq_some.mpr ⟨he, Role.isSuperPort_of_isNetwork hnetwork⟩, hsub⟩

theorem lt_bound (h : Orderly top instances d) (hs : s ∈ instances) : s < d.bound := by
  obtain ⟨e, he, -⟩ := h.sub hs
  exact Diagram.lt_bound_of_proper? he

theorem top_live (h : Orderly top instances d) :
    ∃ e, d.proper? top = some e ∧ e.role.isSuperNetwork = true := by
  obtain ⟨e, he, hsuper⟩ := (h.super top).mpr rfl
  have hnetwork := Role.isNetwork_of_isSuperNetwork hsuper
  exact ⟨e, proper?_eq_some.mpr ⟨he, Role.isSuperPort_of_isNetwork hnetwork⟩, hsuper⟩

/-- **No instance is in another one.** -/
theorem flat (h : Orderly top instances d) (hs : s ∈ instances) (ht : t ∈ instances) :
    ¬ d.Inside s t := by
  intro hin
  obtain ⟨-, hnear⟩ := (h.found s).mp hs
  obtain ⟨⟨e, he, hsub⟩, hnear'⟩ := (h.found t).mp ht
  rcases hnear.least hin he (Role.isNetwork_of_isSubNetwork hsub) with rfl | hup
  · exact h.loopless t hnear'.inside
  · exact h.loopless top (hup.trans hnear'.inside)

/-- What is in an instance is in no other one. -/
theorem apart (h : Orderly top instances d) (hs : s ∈ instances) (ht : t ∈ instances) (hne : s ≠ t)
    (hin : d.Inside j s) : ¬ d.Inside j t := by
  intro hin'
  rcases hin.nested hin' with heq | hst | hts
  · exact hne heq
  · exact h.flat hs ht hst
  · exact h.flat ht hs hts

theorem not_inside_top (h : Orderly top instances d) (hs : s ∈ instances) : ¬ d.Inside top s :=
  fun hin => h.loopless top (hin.trans (h.inside_top hs))

theorem interfacesProper (h : Orderly top instances d) : InterfacesProper d := by
  intro a ha i e he hparent
  by_contra hport
  rw [Bool.not_eq_false] at hport
  obtain ⟨x, hx, hrole⟩ := isInterface_iff_proper?.mp ha
  rw [h.held i a e x he hport hparent (proper?_eq_some.mp hx).1] at hrole
  cases hrole

theorem marksLead (h : Orderly top instances d) : MarksLead d := by
  intro a e first he hmark
  obtain ⟨s, -, -, -, hinterface⟩ := h.marks a e first he hmark
  obtain ⟨e', he', -⟩ := isInterface_iff_proper?.mp hinterface
  exact ⟨e', he'⟩

end Orderly

/-! ## Finding again -/

theorem sorted_select (d : Diagram) (t : Element → Bool) : (d.select t).Pairwise (· < ·) :=
  List.pairwise_lt_range.filter _

theorem findSuperNetwork_eq_ok : findSuperNetwork d = .ok top ↔
    ∀ j, (∃ e, d.get? j = some e ∧ e.role.isSuperNetwork = true) ↔ j = top := by
  have hselect : (∀ j, (∃ e, d.get? j = some e ∧ e.role.isSuperNetwork = true) ↔ j = top) ↔
      (d.select fun e => e.role.isSuperNetwork) = [top] := by
    constructor
    · intro h
      refine List.Pairwise.eq_of_mem_iff (sorted_select d _) (List.pairwise_singleton _ _)
        fun j => ?_
      rw [Diagram.mem_select, h, List.mem_singleton]
    · intro h j
      rw [← Diagram.mem_select, h, List.mem_singleton]
  rw [hselect, findSuperNetwork]
  constructor
  · intro h
    split at h
    · rename_i network heq
      cases h
      exact heq
    · cases h
    · cases hf : d.fetch _ with
      | error f =>
        rw [hf] at h
        cases h
      | ok e =>
        rw [hf] at h
        cases h
  · intro h
    rw [h]

/-- The direct instances among some elements, in a diagram without loops. -/
theorem exists_directInstances (hrooted : d.Rooted) (hloop : ∀ i, ¬ d.Inside i i) (top : Slot)
    (slots : List Slot) : ∃ found, directInstances d top slots = .ok found ∧ found.Sublist slots ∧
      ∀ s, s ∈ found ↔ s ∈ slots ∧ (∃ e, d.get? s = some e ∧ e.role.isSubNetwork = true) ∧
        d.Nearest isNetworkAt s top := by
  induction slots with
  | nil => exact ⟨[], rfl, .slnil, fun s => by simp⟩
  | cons i slots ih =>
    obtain ⟨found, hfound, hsublist, hmem⟩ := ih
    rw [directInstances]
    by_cases hsub : ((d.get? i).any fun e => e.role.isSubNetwork) = true
    · obtain ⟨⟨around, haround⟩, hnear⟩ :=
        Diagram.nearestAncestor_eq_ok (t := isNetworkAt) hrooted hloop i
      have haround' : (d.nearestAncestor i fun _ e => e.role.isNetwork) = .ok around := haround
      rw [if_pos hsub, haround', hfound]
      -- Without loops the nearest network is found, whichever it is.
      have hnear' : around = some top ↔ d.Nearest isNetworkAt i top := by
        rw [← hnear, haround, Except.ok.injEq]
      rw [Option.any_eq_true] at hsub
      by_cases htop : around = some top
      · refine ⟨i :: found, ?_, hsublist.cons_cons i, fun s => ?_⟩
        · refine bind_eq_ok.mpr ⟨around, rfl, bind_eq_ok.mpr ⟨found, rfl, ?_⟩⟩
          rw [if_pos htop]
          rfl
        · rw [List.mem_cons, hmem, List.mem_cons]
          constructor
          · rintro (rfl | ⟨hs, hrest⟩)
            · exact ⟨.inl rfl, hsub, hnear'.mp htop⟩
            · exact ⟨.inr hs, hrest⟩
          · rintro ⟨rfl | hs, hrest⟩
            · exact .inl rfl
            · exact .inr ⟨hs, hrest⟩
      · refine ⟨found, ?_, hsublist.cons i, fun s => ?_⟩
        · refine bind_eq_ok.mpr ⟨around, rfl, bind_eq_ok.mpr ⟨found, rfl, ?_⟩⟩
          rw [if_neg htop]
          rfl
        · rw [hmem, List.mem_cons]
          constructor
          · rintro ⟨hs, hrest⟩
            exact ⟨.inr hs, hrest⟩
          · rintro ⟨rfl | hs, hrest⟩
            · exact absurd (hnear'.mpr hrest.2) htop
            · exact ⟨hs, hrest⟩
    · rw [if_neg hsub]
      refine ⟨found, hfound, hsublist.cons i, fun s => ?_⟩
      rw [hmem, List.mem_cons]
      constructor
      · rintro ⟨hs, hrest⟩
        exact ⟨.inr hs, hrest⟩
      · rintro ⟨rfl | hs, hrest⟩
        · rw [Option.any_eq_true] at hsub
          exact absurd hrest.1 hsub
        · exact ⟨hs, hrest⟩

/-- **The instances of a super-network in good order are found.** -/
theorem Orderly.findInstances_eq (h : Orderly top instances d)
    (hsorted : instances.Pairwise (· < ·)) : findInstances d top = .ok instances := by
  obtain ⟨found, hfound, hsublist, hmem⟩ :=
    exists_directInstances h.rooted h.loopless top (d.descendants top)
  have heq : found = instances := by
    refine List.Pairwise.eq_of_mem_iff ((Diagram.sorted_descendants d top).sublist hsublist) hsorted
      fun s => ?_
    rw [hmem, ← h.found]
    refine and_iff_right_of_imp fun hs => Diagram.mem_descendants.mpr ?_
    obtain ⟨e, he, -⟩ := h.top_live
    refine ⟨⟨e, (proper?_eq_some.mp he).1⟩, ?_, h.inside_top hs⟩
    rintro rfl
    exact h.loopless s (h.inside_top hs)
  rw [findInstances, hfound, heq]

/-- **A document that was read is in good order** once its super-network and instances
are found. -/
theorem orderly_of_found (hpristine : d.Pristine) (hanchored : d.Anchored) (hports : d.PortsDocked)
    (hvalid : d.validate = .ok ()) (hsuper : findSuperNetwork d = .ok top)
    (hinstances : findInstances d top = .ok instances) :
    Orderly top instances d ∧ instances.Pairwise (· < ·) := by
  have hloop : ∀ i, ¬ d.Inside i i := fun i => Diagram.not_inside_self hvalid
  obtain ⟨found, hfound, hsublist, hmem⟩ :=
    exists_directInstances hpristine.rooted hloop top (d.descendants top)
  have heq : found = instances := by
    rw [findInstances, hfound] at hinstances
    exact Except.ok.inj hinstances
  subst heq
  -- What a document says of super-ports and marks is all that is asked for.
  refine ⟨⟨hpristine.rooted, hpristine.issued, hloop, fun c e isSource a he _ => hanchored c e isSource a he,
    fun i p e hp he => ?_, fun i p e x he hport hp hx => ?_, fun a e first he hmark => ?_,
    findSuperNetwork_eq_ok.mp hsuper, fun s => ?_⟩, (Diagram.sorted_descendants d top).sublist hsublist⟩
  · by_contra hport
    rw [Bool.not_eq_false] at hport
    exact (hports p e he hport).2 i hp
  · obtain ⟨⟨p', x', hp', hx', hrole⟩, -⟩ := hports i e he hport
    rw [hp, Option.some.injEq] at hp'
    subst hp'
    rw [hx] at hx'
    cases hx'
    exact hrole
  · have hunmarked := hpristine.unmarked a e he
    cases hr : e.role <;> rw [hr] at hmark <;> first | cases hmark | skip
    rw [Role.mark?, hunmarked _ hr] at hmark
    cases hmark
  · rw [hmem]
    refine and_iff_right_of_imp fun hs => Diagram.mem_descendants.mpr ?_
    obtain ⟨e, he, -⟩ := (findSuperNetwork_eq_ok.mp hsuper top).mpr rfl
    refine ⟨⟨e, he⟩, ?_, hs.2.inside⟩
    rintro rfl
    exact hloop s hs.2.inside

end Assembly

end Netlist
