import Netlist.Proofs.Assembly.Copyable
import Netlist.Proofs.Assembly.Orderly
import Netlist.Proofs.Compilation.Again
import Netlist.Proofs.Diagram.Distinct

/-!
# What can be imported into a super-network

A drawing that was read and compiled is fit to be imported: what is copied from it is
neither a network container nor marked, and a super-port among it is copied together with
the connector it is at. So a super-network stays in good order when it is imported.

- `Importable`: what is asked of a compiled drawing and the elements that are copied.
- `importable_of_compile`: **every drawing that was read and compiled is importable.**
- `copyable_of_compile`: every drawing in which identities are distinct can be copied.
-/

namespace Netlist.Assembly

open Diagram (root proper?_eq_some)

variable {c : Catalog} {switches : Switches} {d d' : Diagram} {r : Compilation} {o p : Slot}
  {order : List Slot} {e : Element}

/-- A compiled drawing and the elements of it that are copied. -/
structure Importable (diagram : Diagram) (order : List Slot) : Prop where
  plain : ∀ o ∈ order, ∀ e, diagram.get? o = some e → e.role.isNetwork = false
  docked : ∀ o ∈ order, ∀ e, diagram.get? o = some e → e.role.isSuperPort = true →
    ∃ p x, e.parent = some p ∧ p ∈ order ∧ diagram.get? p = some x ∧ x.role = .connector
  bare : diagram.BarePorts
  loopless : ∀ i, ¬ diagram.Inside i i
  unmarked : ∀ i e, diagram.get? i = some e → e.role.mark? = none

theorem mark?_of_isUnmarked {role : Role} (h : role.IsUnmarked) : role.mark? = none := by
  cases hr : role with
  | interface payload => exact h payload hr
  | _ => rfl

theorem hasRole_eq_false {t : Role → Bool} (h : d.hasRole t = false) (he : d.get? o = some e) :
    t e.role = false := by
  rw [Diagram.hasRole, List.any_eq_false] at h
  exact Bool.eq_false_of_not_eq_true (h (o, e) (Diagram.mem_elements.mpr he))

/-- The drawing of a name is loaded iff it is there and holds no super-network. -/
theorem loadDrawing_iff {shelf : Shelf} {name : String} {owner : Locator} {drawing : Drawing} :
    loadDrawing shelf name owner = .ok drawing ↔ shelf name = .ok (some drawing) ∧
      drawing.diagram.hasRole Role.isSuperNetwork = false := by
  rw [loadDrawing]
  cases shelf name with
  | error f => simp
  | ok found =>
    cases found with
    | none => simp
    | some x =>
      dsimp only
      cases hsuper : x.diagram.hasRole Role.isSuperNetwork with
      | true =>
        simp only [if_true, reduceCtorEq, Except.ok.injEq, Option.some.injEq, false_iff, not_and]
        rintro rfl
        rw [hsuper, Bool.not_eq_false]
      | false =>
        simp only [Bool.false_eq_true, if_false, Except.ok.injEq, Option.some.injEq]
        refine (and_iff_left_of_imp ?_).symm
        rintro rfl
        exact hsuper

/-- What a super-port that is copied is at is copied too, if it is a connector. -/
theorem parent_mem_members {gone : List Slot} {d₁ d₂ : Diagram} {maps : PortMaps} {x : Element}
    (h : Compilation.Stages c switches.pruneGrounds root d d₁ d₂ d' r maps gone)
    (ho : o ∈ members d' r.topology (distinct d' r.topology.interfaces))
    (he : d'.get? o = some e) (hport : e.role.isSuperPort = true) (hparent : e.parent = some p)
    (hx : d'.get? p = some x) (hrole : x.role = .connector) :
    p ∈ members d' r.topology (distinct d' r.topology.interfaces) := by
  have hup : d'.HasParent o p := ⟨e, he, hparent⟩
  -- What `o` lies in is no connector, so `p` lies in it too.
  have hin : ∀ {a}, (∀ y, d'.get? a = some y → y.role ≠ .connector) → o ∈ d'.descendants a →
      p ∈ d'.descendants a := by
    intro a hne hdesc
    obtain ⟨hlive, -, hin⟩ := Diagram.mem_descendants.mp hdesc
    have hpa : p ≠ a := by
      rintro rfl
      exact hne x hx hrole
    exact Diagram.mem_descendants.mpr ⟨hlive, hpa, (hin.step hup).resolve_left hpa⟩
  have hnetwork : ∀ y, d'.get? r.topology.network = some y → y.role ≠ .connector := by
    intro y hy hconnector
    obtain ⟨y₀, hy₀, hsame⟩ := h.role Role.isSubNetwork_setRecord hy
    obtain ⟨-, z, hz, hsub⟩ := Topology.mem_containers.mp
      ((Topology.container_eq_ok h.container) ▸ List.mem_singleton_self r.topology.network)
    rw [hy₀] at hz
    cases hz
    rw [hconnector, hsub] at hsame
    cases hsame
  have hinterface : ∀ i ∈ distinct d' r.topology.interfaces, ∀ y, d'.get? i = some y →
      y.role.isInterface = true := by
    intro i hi y hy
    have hmem := List.mem_of_mem_filter hi
    rw [h.extracts.interfaces, Topology.mem_withRole] at hmem
    obtain ⟨-, z, hz, hinterface⟩ := hmem
    obtain ⟨y₀, hy₀, hsame⟩ := h.role Role.isInterface_setRecord hy
    rw [hz] at hy₀
    cases hy₀
    exact hsame.trans hinterface
  rw [members, List.mem_filter, List.contains_iff_mem] at ho ⊢
  obtain ⟨-, ho⟩ := ho
  refine ⟨List.mem_range.mpr (Diagram.lt_bound_of_get? hx), ?_⟩
  split at ho
  · rename_i hempty
    rw [if_pos hempty]
    rcases List.mem_append.mp ho with ho | ho
    · exact List.mem_append_left _ (hin hnetwork ho)
    · obtain ⟨z, hz, hzrole⟩ := Topology.mem_portsOf (h.extracts.ports ▸ ho)
      obtain ⟨z', hz', hsame⟩ :=
        h.role (f := Role.isSuperPort) (fun _ role => by cases role <;> rfl) he
      rw [hz] at hz'
      cases hz'
      rw [hzrole, hport] at hsame
      cases hsame
  · rename_i hsome
    rw [if_neg hsome]
    obtain ⟨i, hi, ho⟩ := List.mem_flatMap.mp ho
    refine List.mem_flatMap.mpr ⟨i, hi, List.mem_cons_of_mem _ ?_⟩
    rcases List.mem_cons.mp ho with rfl | ho
    · rw [Role.isSuperPort_of_isInterface (hinterface o hi e he)] at hport
      cases hport
    · refine hin (fun y hy hconnector => ?_) ho
      have hrole := hinterface i hi y hy
      rw [hconnector] at hrole
      cases hrole

/-- **Every drawing that was read and compiled is importable**, if its super-ports are at
connectors and there is no super-network in it. -/
theorem importable_of_compile (hpristine : d.Pristine) (hports : d.PortsDocked)
    (hflat : d.hasRole Role.isSuperNetwork = false)
    (h : Edit.Runs (compile c switches root) d r d') :
    Importable d' (members d' r.topology (distinct d' r.topology.interfaces)) := by
  obtain ⟨d₁, d₂, maps, gone, hstages⟩ := Compilation.compile_runs h
  have hvalid := Compilation.compile_validates h
  have hport : ∀ {i e'}, d'.get? i = some e' → e'.role.isSuperPort = true →
      ∃ e, d.get? i = some e ∧ e'.parent = e.parent ∧ e.role.isSuperPort = true := by
    intro i e' he' hport'
    obtain ⟨e, he, -, hparent, hrole⟩ := hstages.frame he'
    refine ⟨e, he, hparent, ?_⟩
    rcases hrole with hrole | ⟨record, hrole⟩ <;> rw [hrole] at hport'
    · exact hport'
    · cases hr : e.role <;> rw [hr] at hport' <;> first | rfl | cases hport'
  constructor
  case plain =>
    intro o ho e he
    obtain ⟨x, hx, hsame⟩ := hstages.role (f := Role.isSuperNetwork)
      (fun _ role => by cases role <;> rfl) he
    rw [hasRole_eq_false hflat hx] at hsame
    have hsub := (hstages.of_member hvalid ho he).1
    rw [Bool.eq_false_iff, ne_eq, Role.isNetwork_iff, hsub, hsame]
    simp
  case docked =>
    intro o ho e' he' hport'
    obtain ⟨e, he, hparent, hrole⟩ := hport he' hport'
    obtain ⟨⟨p, x, hp, hx, hconnector⟩, -⟩ := hports o e he hrole
    -- Only grounds are removed, so the connector is still there.
    have hstays : p ∉ gone := by
      intro hgone
      have hkind := (hstages.extracts.gone_ground p hgone).1.kind
      rw [hx, Option.any_some, Element.nodeKind?, hconnector] at hkind
      cases hkind
    obtain ⟨x', hx', -, hrole'⟩ := hstages.forth hx hstays
    have hconnector' : x'.role = .connector := by
      rcases hrole' with hrole' | ⟨record, hrole'⟩ <;> rw [hrole', hconnector]
      rfl
    have hp' := hparent.trans hp
    exact ⟨p, x', hp', parent_mem_members hstages ho he' hport' hp' hx' hconnector', hx',
      hconnector'⟩
  case bare =>
    intro i p x hp hx
    by_contra hportx
    rw [Bool.not_eq_false] at hportx
    obtain ⟨y, hy, -, hrole⟩ := hport hx hportx
    exact (hports p y hy hrole).2 i (hstages.hasParent hp)
  case loopless => exact fun i hin => Diagram.not_inside_self hvalid (hstages.inside hin)
  case unmarked => exact fun i e he => mark?_of_isUnmarked (hstages.isUnmarked hpristine he)

/-- **Every drawing that was compiled can be copied**, if its elements have identities of
their own. -/
theorem copyable_of_compile (hdistinct : d.Distinct) (h : Edit.Runs (compile c switches root) d r d') :
    Copyable d' (members d' r.topology (distinct d' r.topology.interfaces)) where
  drawn := by
    intro o ho
    obtain ⟨_, _, _, _, hstages⟩ := Compilation.compile_runs h
    exact hstages.exists_of_member ho
  distinct := by
    obtain ⟨_, _, _, _, hstages⟩ := Compilation.compile_runs h
    have hdistinct' : d'.Distinct := hdistinct.of_ids fun j e' he' => by
      obtain ⟨e, he, hid, -⟩ := hstages.frame he'
      exact ⟨e, he, hid.symm⟩
    refine (List.nodup_range.filter _).imp fun {i j} hne e e' he he' hid => ?_
    exact hne (hdistinct' i j e e' he he' hid)

end Netlist.Assembly
