import Netlist.Proofs.Assembly.Numbers
import Netlist.Proofs.Strict.Stitching

/-!
# No round looks for a missing element

Rounds of work go on from what earlier ones have left: an arena with holes, where parents
and ends may be gone, and loops may be closed. Whatever a round looks up unconditionally is
there nevertheless, so that a round with strict lookups is the round itself.

- `Round.guards_edit`: one round on a based diagram.
- `Round.runAll_eq`: rounds on a based diagram, by what one round leaves.
- `Round.runAll_strict`: **whatever was read from a document can be worked on in any number
  of rounds, and no lookup is in vain.**
-/

namespace Netlist

open Strict (Quiet isLostIn guards_compile guards_assemble guards_ofFault)

variable {d : Diagram}

/-- **A build does the same with strict lookups.** -/
theorem Strict.guards_build {x : Assembly.Context} (hd : d.Based) (hquiet : Quiet x.shelf) :
    Edit.Guards isLostIn d (build x) (Netlist.build x) := by
  rw [build, Netlist.build]
  refine .read_bind ?_
  split
  · exact .bind_pure (guards_assemble hd hquiet)
  · exact .bind_pure (guards_ofFault (guards_compile _ _ _ d))

namespace Round

/-- **A round does the same with strict lookups.** -/
theorem guards_edit (r : Round) (hd : d.Based) (hquiet : Quiet r.context.shelf) :
    Edit.Guards isLostIn d r.strict r.edit := by
  obtain ⟨task, x⟩ := r
  cases task with
  | compile scope =>
    exact .bind_pure (guards_ofFault (guards_compile _ _ scope d))
  | assemble => exact .bind_pure (guards_assemble hd hquiet)
  | build => exact Strict.guards_build hd hquiet

/-- **Rounds on a based diagram do the same with strict lookups**, because each of them
leaves a based diagram. -/
theorem runAll_eq {rounds : List Round} (hd : d.Based)
    (hquiet : ∀ r ∈ rounds, Quiet r.context.shelf) :
    runAll strict rounds d = runAll edit rounds d ∧
      ∀ outcome ∈ runAll strict rounds d, Never isLostIn outcome.result := by
  induction rounds generalizing d with
  | nil => exact ⟨rfl, fun _ h => nomatch h⟩
  | cons r rounds ih =>
    obtain ⟨hr, hquiet⟩ := List.forall_mem_cons.mp hquiet
    obtain ⟨hsame, hnever⟩ := r.guards_edit hd hr
    obtain ⟨hrest, hfound⟩ := ih (r.based_edit hd) hquiet
    rw [runAll, runAll, hsame]
    exact ⟨congrArg _ hrest, List.forall_mem_cons.mpr ⟨hnever, hfound⟩⟩

/-- **No round looks for a missing element.** Take any document that was read, and any number
of rounds on it, each of which compiles some scope, assembles or builds with a library, a
configuration and drawings of its own. Rounds with strict lookups do what the rounds do, also
after rounds that failed, and none of them fails because an element or a mark is missing. -/
theorem runAll_strict {source : String} {rounds : List Round}
    (hread : Document.read source = .ok d) (hquiet : ∀ r ∈ rounds, Quiet r.context.shelf) :
    runAll strict rounds d = runAll edit rounds d ∧
      ∀ outcome ∈ runAll strict rounds d, ∀ i text,
        outcome.result ≠ .error (.fault (.absent i) text) := by
  obtain ⟨hsame, hfound⟩ := runAll_eq (Document.based_of_read hread) hquiet
  refine ⟨hsame, fun outcome hmem i text h => ?_⟩
  cases hfound outcome hmem _ h

/-- A super-network with an instance that names a drawing and is empty. -/
def alleyText : String :=
  "<mxGraphModel><root><object id='a'><tag type='Network' subtype='Super'/></object>" ++
  "<object id='s' drawing='supply'><mxCell parent='a'/><tag type='Network' subtype='Sub'/></object>" ++
  "</root></mxGraphModel>"

/-- A compilation, an assembly without the drawing and a build with it. -/
def alleyRounds : List Round :=
  [⟨.compile Diagram.root, Assembly.streetContext⟩, ⟨.assemble, Assembly.laneContext⟩,
    ⟨.build, Assembly.streetContext⟩]

set_option maxRecDepth 20000 in
/-- The first two rounds fail, and the third one succeeds. -/
theorem runAll_strict_alley : ∃ d, Document.read alleyText = .ok d ∧
    (runAll edit alleyRounds d).map (fun outcome => outcome.result.toOption.isSome) =
      [false, false, true] ∧
    runAll strict alleyRounds d = runAll edit alleyRounds d ∧
    ∀ outcome ∈ runAll strict alleyRounds d, ∀ i text,
      outcome.result ≠ .error (.fault (.absent i) text) := by
  have hrun : (Document.read alleyText).toOption.any (fun d =>
      (runAll edit alleyRounds d).map (fun outcome => outcome.result.toOption.isSome) ==
        [false, false, true]) = true := by
    -- a text is its characters, which need not be decoded from its bytes again
    have hchars : alleyText.toList = _ := String.toList_append.trans
      (congrArg₂ _ (String.toList_append.trans (congrArg₂ _ String.toList_ofList
        String.toList_ofList)) String.toList_ofList)
    rw [Document.read, Xml.read, hchars]
    cbv
  obtain ⟨d, hread, hresults⟩ := exists_eq_ok hrun
  have hquiet : ∀ r ∈ alleyRounds, Quiet r.context.shelf := by
    have hstreet : Quiet Assembly.streetContext.shelf := fun _ => never_ok
    have hlane : Quiet Assembly.laneContext.shelf := fun _ => never_ok
    exact List.forall_mem_cons.mpr ⟨hstreet, List.forall_mem_cons.mpr ⟨hlane,
      List.forall_mem_singleton.mpr hstreet⟩⟩
  exact ⟨d, hread, beq_iff_eq.mp hresults, runAll_strict hread hquiet⟩

end Round

end Netlist
