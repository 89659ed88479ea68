import Netlist.Proofs.Compilation.Stages
import Netlist.Proofs.Diagram.Traces

/-!
# What a compilation points at

Every fault of a compilation points at an element of the drawing, or at none. The stages are
gone through in order; each reads the elements that it may point at off the diagram, or gets
pointers from one that did.

- `Topology.blames_extract`, `PortMap.blames_build`, `blames_readNetwork`: the stages.
- `within_compile`: **what a compilation points at has its place where it was drawn**, and
  so has every element that it leaves.
-/

namespace Netlist

open Diagram (Traces blames_fetch)

variable {origin d d₁ d' : Diagram} {c : Catalog} {t : Topology} {i scope : Slot}

/-! ## Extraction -/

namespace Topology

theorem blames_container (h : origin.Traces d) :
    Blames (Fault.ComesFrom origin) (container d scope) := by
  rw [container]
  split
  · exact blames_ok
  · refine blames_error (Fault.comesFrom_violation fun l hl => ?_)
    obtain ⟨e, he, rfl⟩ := Option.map_eq_some_iff.mp hl
    exact h.locator he
  · exact blames_fetch.bind fun e he => blames_error (h.topology (Diagram.fetch_eq_ok.mp he))

theorem blames_homes {nodes : List Slot} (h : origin.Traces d) :
    Blames (Fault.ComesFrom origin) (homes d nodes) := by
  induction nodes with
  | nil => exact blames_ok
  | cons i nodes ih =>
    rw [homes]
    exact h.blames_nearestAncestor.bind fun _ _ => ih.bind fun _ _ => blames_ok

theorem blames_collect (h : origin.Traces d) :
    Blames (Fault.ComesFrom origin) (collect d scope) := by
  rw [collect]
  exact (blames_container h).bind fun _ _ => (blames_homes h).bind fun _ _ => blames_ok

theorem blames_checkFilled (h : origin.Traces d) :
    Blames (Fault.ComesFrom origin) (checkFilled d t) := by
  rw [checkFilled]
  refine blames_fetch.bind fun network hnetwork => ?_
  have hlacking : ∀ issue, Blames (Fault.ComesFrom origin)
      (.error (.topology (some network.locator) issue) : Except Fault Unit) :=
    fun _ => blames_error (h.topology (Diagram.fetch_eq_ok.mp hnetwork))
  dsimp only
  split_ifs
  · exact hlacking _
  · exact hlacking _
  · exact hlacking _
  · exact blames_ok

theorem blames_linkDomain {seen : Option (Domain × Locator)} {links : List Slot}
    (h : origin.Traces d) : Blames (Fault.ComesFrom origin) (linkDomain c d seen links) := by
  induction links generalizing seen with
  | nil => exact blames_ok
  | cons i links ih =>
    rw [linkDomain]
    refine blames_fetch.bind fun link hlink => ?_
    have hlink := Diagram.fetch_eq_ok.mp hlink
    split
    · exact blames_error (h.topology hlink)
    · split
      · exact ih
      · exact ih
      · split
        · exact ih
        · exact blames_error (h.topology hlink)

/-- The link that is shown for a domain is one of the diagram. -/
theorem comesFrom_of_linkDomain {seen found : Option (Domain × Locator)} {links : List Slot}
    (h : origin.Traces d) (hseen : ∀ s ∈ seen, s.2.ComesFrom origin)
    (hfound : linkDomain c d seen links = .ok found) : ∀ s ∈ found, s.2.ComesFrom origin := by
  induction links generalizing seen with
  | nil =>
    cases hfound
    exact hseen
  | cons i links ih =>
    rw [linkDomain, bind_eq_ok] at hfound
    obtain ⟨link, hlink, hfound⟩ := hfound
    split at hfound
    · cases hfound
    · split at hfound
      · exact ih hseen hfound
      · refine ih (fun s hs => ?_) hfound
        cases hs
        exact h.locator (Diagram.fetch_eq_ok.mp hlink)
      · split at hfound
        · exact ih hseen hfound
        · cases hfound

theorem blames_agreedDomain (h : origin.Traces d) :
    Blames (Fault.ComesFrom origin) (agreedDomain c d t) := by
  rw [agreedDomain]
  refine blames_fetch.bind fun network hnetwork => ?_
  split
  · exact blames_error (h.topology (Diagram.fetch_eq_ok.mp hnetwork))
  · refine (blames_linkDomain h).bind fun found hfound => ?_
    have hfirst := comesFrom_of_linkDomain h (fun _ hs => absurd hs (Option.not_mem_none _)) hfound
    split
    · exact blames_ok
    · split
      · exact blames_ok
      · exact blames_error (Fault.comesFrom_of_element? rfl (hfirst _ rfl))

theorem blames_readLabels {seen : List (Int × Slot)} {nodes : List Slot} (h : origin.Traces d) :
    Blames (Fault.ComesFrom origin) (readLabels d seen nodes) := by
  induction nodes generalizing seen with
  | nil => exact blames_ok
  | cons i nodes ih =>
    rw [readLabels]
    refine blames_fetch.bind fun node hnode => ?_
    have hnode := Diagram.fetch_eq_ok.mp hnode
    split
    · exact blames_error (h.topology hnode)
    · split
      · exact blames_fetch.bind fun _ _ => blames_error (h.topology hnode)
      · exact ih

theorem blames_aliasNumbers {labelled : List (Int × Slot)} {slots : List Slot}
    (h : origin.Traces d) : Blames (Fault.ComesFrom origin) (aliasNumbers d labelled slots) := by
  induction slots with
  | nil => exact blames_ok
  | cons i slots ih =>
    rw [aliasNumbers]
    refine blames_fetch.bind fun node hnode => ?_
    split
    · exact blames_error (h.topology (Diagram.fetch_eq_ok.mp hnode))
    · exact ih.bind fun _ _ => blames_ok

theorem blames_renumber (h : origin.Traces d) :
    Blames (Fault.ComesFrom origin) (renumber d t) := by
  rw [renumber]
  exact (blames_readLabels h).bind fun _ _ => (blames_aliasNumbers h).bind fun _ _ => blames_ok

theorem blames_extract {prune : Bool} (h : origin.Traces d) :
    Blames (Fault.ComesFrom origin) (extract c prune scope d) := by
  rw [extract]
  refine (blames_collect h).bind fun t _ => (blames_checkFilled h).bind fun _ _ => ?_
  exact (blames_agreedDomain h).bind fun _ _ => (blames_renumber h).bind fun _ _ => blames_ok

/-- Extraction changes no identities and no places. -/
theorem Extracts.traces {gone : List Slot} (hextracts : Extracts d t d₁ gone)
    (h : origin.Traces d) : origin.Traces d₁ := by
  refine h.of_get? fun i e he => .inr ?_
  by_cases hgone : i ∈ gone
  · rw [hextracts.removed i hgone] at he
    cases he
  by_cases hmoves : Moves d t i
  · obtain ⟨e₁, x, he₁, -, -, -, hget⟩ := hextracts.moved i hmoves
    cases hget.symm.trans he
    exact ⟨e₁, he₁, by simp, by simp⟩
  · rw [hextracts.kept i hgone hmoves] at he
    obtain ⟨e₁, he₁, rfl⟩ := Option.map_eq_some_iff.mp he
    exact ⟨e₁, he₁, by simp, by simp⟩

end Topology

/-! ## Port maps -/

namespace PortMap

variable {link : Slot} {owner : Locator}

theorem blames_readPort {edge : Slot} (h : origin.Traces d) :
    Blames (Fault.ComesFrom origin) (readPort d t link owner edge) := by
  rw [readPort]
  refine blames_fetch.bind fun port hport => ?_
  have hport := Diagram.fetch_eq_ok.mp hport
  split
  · exact blames_error (h.topology hport)
  · split
    · exact blames_error (Fault.comesFrom_of_element? rfl (h.locator hport))
    · exact blames_ok

theorem blames_drawnPorts {edges : List Slot} (h : origin.Traces d) :
    Blames (Fault.ComesFrom origin) (drawnPorts d t link owner edges) := by
  induction edges with
  | nil => exact blames_ok
  | cons edge edges ih =>
    rw [drawnPorts]
    refine blames_fetch.bind fun port _ => ?_
    split
    · exact (blames_readPort h).bind fun _ _ => ih.bind fun _ _ => blames_ok
    · exact ih

theorem blames_target {node : Slot} (h : origin.Traces d) :
    Blames (Fault.ComesFrom origin) (target d node) := by
  rw [target]
  refine blames_fetch.bind fun e he => ?_
  split
  · exact blames_ok
  · split
    · exact blames_ok
    · exact blames_error (h.topology (Diagram.fetch_eq_ok.mp he))

theorem blames_fill {slots : List (Option Claim)} {drawn : List DrawnPort} (h : origin.Traces d) :
    Blames (Fault.ComesFrom origin) (fill d t owner slots drawn) := by
  induction drawn generalizing slots with
  | nil => exact blames_ok
  | cons port drawn ih =>
    rw [fill]
    refine blames_fetch.bind fun edge hedge => ?_
    have hedge := Diagram.fetch_eq_ok.mp hedge
    split
    · exact blames_error (h.topology hedge)
    · refine (blames_target h).bind fun _ _ => ?_
      split
      · exact blames_error (Fault.comesFrom_of_element? rfl (h.locator hedge))
      · exact ih

theorem blames_resolve {master : Master} (h : origin.Traces d) (howner : owner.ComesFrom origin) :
    Blames (Fault.ComesFrom origin) (resolve d t link owner master) := by
  rw [resolve]
  refine (blames_drawnPorts h).bind fun drawn _ => ?_
  split
  · exact blames_error (Fault.comesFrom_of_element? rfl howner)
  · exact (blames_fill h).bind fun _ _ => blames_ok

theorem blames_resolveAll {links : List Slot} (h : origin.Traces d) :
    Blames (Fault.ComesFrom origin) (resolveAll c d t links) := by
  induction links with
  | nil => exact blames_ok
  | cons i links ih =>
    rw [resolveAll]
    refine blames_fetch.bind fun link hlink => ?_
    have hlink := Diagram.fetch_eq_ok.mp hlink
    split
    · exact blames_error (h.topology hlink)
    · refine (blames_resolve h (h.locator hlink)).bind fun _ _ => ih.bind fun _ _ => ?_
      split <;> exact blames_ok

theorem blames_build (h : origin.Traces d) :
    Blames (Fault.ComesFrom origin) (PortMaps.build c t d) :=
  (blames_resolveAll h).bind fun _ _ => blames_ok

end PortMap

/-! ## Recording and reading off -/

namespace Recording

variable {maps : PortMaps}

theorem blames_connections {bindings : List InterfaceBinding} :
    Blames (Fault.ComesFrom origin) (connections maps d bindings) := by
  induction bindings with
  | nil => exact blames_ok
  | cons b bindings ih =>
    rw [connections]
    refine Blames.bind ?_ fun _ _ => ih.bind fun _ _ => blames_ok
    rw [connection?]
    refine blames_fetch.bind fun node _ => ?_
    split
    · exact blames_ok
    · exact blames_fetch.bind fun _ _ => blames_ok

theorem within_recordOne (h : origin.Traces d) :
    Edit.Within origin.Traces (Fault.ComesFrom origin) d (recordOne t maps i) := by
  rw [recordOne]
  refine .check_bind h blames_connections fun found _ => .read_bind ?_
  split
  · exact Edit.within_pure h
  · exact .update_bind (Edit.within_pure (h.modify fun _ => ⟨rfl, rfl⟩))

theorem within_record (h : origin.Traces d) :
    Edit.Within origin.Traces (Fault.ComesFrom origin) d (record t maps) :=
  (Edit.within_forEach h fun _ _ _ hd => within_recordOne hd).bind_pure

end Recording

namespace Compilation

variable {maps : PortMaps}

/-- Reconciling does not fail. -/
theorem within_reconcileOne (h : origin.Traces d) :
    Edit.Within origin.Traces (Fault.ComesFrom origin) d (reconcileOne c i) := by
  rw [reconcileOne]
  refine .read_bind ?_
  split
  · exact Edit.within_pure h
  · split
    · exact .warn_bind (Edit.within_pure h)
    · exact .update_bind (Edit.within_pure (h.modify fun _ => ⟨rfl, rfl⟩))

theorem within_reconcileIf {switches : Switches} (h : origin.Traces d) :
    Edit.Within origin.Traces (Fault.ComesFrom origin) d (reconcileIf c switches t) := by
  rw [reconcileIf]
  split
  · exact (Edit.within_forEach h fun _ _ _ hd => within_reconcileOne hd).bind_pure
  · exact Edit.within_pure h

theorem blames_nodeRecords {number : Nat} {nodes : List Slot} :
    Blames (Fault.ComesFrom origin) (nodeRecords d number nodes) := by
  induction nodes generalizing number with
  | nil => exact blames_ok
  | cons i nodes ih =>
    rw [nodeRecords]
    exact blames_fetch.bind fun _ _ => ih.bind fun _ _ => blames_ok

theorem blames_linkRecords {links : List ResolvedLink} :
    Blames (Fault.ComesFrom origin) (linkRecords d links) := by
  induction links with
  | nil => exact blames_ok
  | cons resolved links ih =>
    rw [linkRecords]
    refine blames_fetch.bind fun _ _ => ih.bind fun _ _ => ?_
    split <;> exact blames_ok

theorem blames_spotterRecords {spotters : List Slot} :
    Blames (Fault.ComesFrom origin) (spotterRecords d spotters) := by
  induction spotters with
  | nil => exact blames_ok
  | cons i spotters ih =>
    rw [spotterRecords]
    refine blames_fetch.bind fun _ _ => ih.bind fun _ _ => ?_
    split <;> exact blames_ok

theorem blames_readNetwork {entries : List InterfaceEntry} :
    Blames (Fault.ComesFrom origin) (readNetwork t maps entries d) := by
  rw [readNetwork]
  refine blames_fetch.bind fun _ _ => blames_nodeRecords.bind fun _ _ => ?_
  exact blames_linkRecords.bind fun _ _ => blames_spotterRecords.bind fun _ _ => blames_ok

/-- **What a compilation points at has its place where it was drawn**, and so has every
element that it leaves. -/
theorem within_compile {switches : Switches} (h : origin.Traces d) :
    Edit.Within origin.Traces (Fault.ComesFrom origin) d (compile c switches scope) := by
  rw [compile_eq]
  refine .check_bind h h.blames_validate fun _ _ => ?_
  refine (Edit.within_change h (Topology.blames_extract h) fun t d₁ hextract => ?_).bind
    fun t d₁ _ h₁ => ?_
  · obtain ⟨-, gone, hextracts⟩ := Topology.extract_eq_ok hextract
    exact hextracts.traces h
  refine .check_bind h₁ (PortMap.blames_build h₁) fun maps _ => ?_
  refine (within_reconcileIf h₁).bind fun _ d₂ _ h₂ => ?_
  refine (Recording.within_record h₂).bind fun entries d₃ _ h₃ => ?_
  exact .check_bind h₃ blames_readNetwork fun _ _ => Edit.within_pure h₃

end Compilation

end Netlist
