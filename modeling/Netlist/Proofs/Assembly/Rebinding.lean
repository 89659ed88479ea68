import Netlist.Proofs.Assembly.Turns

/-!
# Attaching connectors again

When the content of an instance is replaced, the ends of connectors at its interfaces
come loose. They are attached again by label: to the first of the new interfaces that
has the label of the old one.

- `mem_looseEndsAt`: the loose ends of an instance.
- `rebindAll_runs_iff`: attaching the ends does not fail, and the interfaces can all be
  looked up at the start.
- `endAt_attachAll`: **where an end is attached**, if all its loose ends have one label.
-/

namespace Netlist.Assembly

variable {d d₁ d' : Diagram} {s i j c : Slot} {interfaces : List Slot} {ends : List LooseEnd}
  {l : LooseEnd} {find : String → Option Slot} {e : Element} {label : String} {isSource : Bool}

/-! ## Loose ends -/

theorem mem_looseEnds : l ∈ looseEnds i label c e ↔ e.role = .connector ∧ l.connector = c ∧
    l.label = label ∧ e.endAt l.isSource = some i := by
  obtain ⟨connector, isSource, label'⟩ := l
  rw [looseEnds]
  split
  · rename_i hrole
    rw [beq_iff_eq] at hrole
    rw [List.mem_append]
    constructor
    · rintro (hmem | hmem)
      · split at hmem
        · rename_i hend
          cases List.mem_singleton.mp hmem
          exact ⟨hrole, rfl, rfl, hend⟩
        · cases hmem
      · split at hmem
        · rename_i hend
          cases List.mem_singleton.mp hmem
          exact ⟨hrole, rfl, rfl, hend⟩
        · cases hmem
    · rintro ⟨-, rfl, rfl, hend⟩
      cases isSource with
      | true => exact .inl (by rw [if_pos (show e.source = some i from hend)]; exact List.mem_singleton_self _)
      | false => exact .inr (by rw [if_pos (show e.target = some i from hend)]; exact List.mem_singleton_self _)
  · rename_i hrole
    rw [beq_iff_eq] at hrole
    constructor
    · intro hmem
      cases hmem
    · exact fun h => absurd h.1 hrole

/-- **The loose ends of an instance** are the ends of connectors at its interfaces. -/
theorem mem_looseEndsAt : l ∈ looseEndsAt d s ↔ ∃ i e interface, i ∈ interfacesIn d s ∧
    d.get? i = some interface ∧ d.get? l.connector = some e ∧ e.role = .connector ∧
    l.label = interface.label ∧ e.endAt l.isSource = some i := by
  rw [looseEndsAt, List.mem_flatMap]
  constructor
  · rintro ⟨i, hi, hmem⟩
    obtain ⟨-, interface, hinterface, -⟩ := mem_interfacesIn.mp hi
    rw [List.mem_flatMap] at hmem
    obtain ⟨c, hc, hmem⟩ := hmem
    obtain ⟨e, he, -⟩ := Diagram.mem_select.mp hc
    rw [he, hinterface, Option.map_some, Option.getD_some, Option.map_some, Option.getD_some,
      mem_looseEnds] at hmem
    obtain ⟨hrole, rfl, hlabel, hend⟩ := hmem
    exact ⟨i, e, interface, hi, hinterface, he, hrole, hlabel, hend⟩
  · rintro ⟨i, e, interface, hi, hinterface, he, hrole, hlabel, hend⟩
    refine ⟨i, hi, List.mem_flatMap.mpr ⟨l.connector, Diagram.mem_select.mpr ⟨e, he, ?_⟩, ?_⟩⟩
    · rw [Element.touches, Bool.or_eq_true, beq_iff_eq, beq_iff_eq]
      cases hside : l.isSource with
      | true => exact .inl (by rw [hside] at hend; exact hend)
      | false => exact .inr (by rw [hside] at hend; exact hend)
    · rw [he, hinterface, Option.map_some, Option.getD_some, Option.map_some, Option.getD_some,
        mem_looseEnds]
      exact ⟨hrole, rfl, hlabel, hend⟩

/-- An end of a connector has come loose at one interface at most, so with one label. -/
theorem label_of_looseEnd {l' : LooseEnd} (h : l ∈ looseEndsAt d s) (h' : l' ∈ looseEndsAt d s)
    (hconnector : l.connector = l'.connector) (hside : l.isSource = l'.isSource) :
    l.label = l'.label := by
  obtain ⟨i, e, interface, -, hinterface, he, -, hlabel, hend⟩ := mem_looseEndsAt.mp h
  obtain ⟨i', e', interface', -, hinterface', he', -, hlabel', hend'⟩ := mem_looseEndsAt.mp h'
  rw [hconnector, he'] at he
  cases he
  rw [hside, hend'] at hend
  cases hend
  rw [hinterface'] at hinterface
  cases hinterface
  rw [hlabel, hlabel']

/-! ## Attaching -/

/-- The first of some interfaces with a label. -/
def labelled? (d : Diagram) (interfaces : List Slot) (label : String) : Option Slot :=
  interfaces.find? fun i => (d.get? i).any fun e => e.label == label

/-- Attaches a loose end, if there is an interface with its label. -/
def attachTo (interfaces : List Slot) (d : Diagram) (l : LooseEnd) : Diagram :=
  match labelled? d interfaces l.label with
  | some i => d.modify l.connector (l.attach i)
  | none => d

theorem rebind_runs_iff {u : Unit} :
    Edit.Runs (rebind interfaces l) d u d' ↔ attachTo interfaces d l = d' := by
  rw [rebind, Edit.runs_read_bind, attachTo, ← labelled?]
  cases labelled? d interfaces l.label with
  | some i => exact Edit.runs_update
  | none => exact Edit.runs_warn

/-- **Attaching the ends does not fail.** -/
theorem rebindAll_runs_iff {u : Unit} : Edit.Runs (rebindAll s ends) d u d' ↔
    ends.foldl (attachTo (interfacesIn d s)) d = d' := by
  rw [rebindAll, Edit.runs_read_bind]
  generalize interfacesIn d s = interfaces
  have hloop : ∀ d, (∃ units, Edit.Runs (Edit.forEach (rebind interfaces) ends) d units d') ↔
      ends.foldl (attachTo interfaces) d = d' := by
    induction ends with
    | nil =>
      intro d
      constructor
      · rintro ⟨units, h⟩
        exact (Edit.runs_forEach_nil.mp h).2
      · exact fun h => ⟨[], Edit.runs_forEach_nil.mpr ⟨rfl, h⟩⟩
    | cons l ends ih =>
      intro d
      rw [List.foldl_cons, ← ih]
      constructor
      · rintro ⟨units, h⟩
        obtain ⟨_, d₁, rest, hone, hrest, -⟩ := Edit.runs_forEach_cons.mp h
        rw [rebind_runs_iff.mp hone]
        exact ⟨rest, hrest⟩
      · rintro ⟨rest, hrest⟩
        exact ⟨() :: rest,
          Edit.runs_forEach_cons.mpr ⟨(), _, rest, rebind_runs_iff.mpr rfl, hrest, rfl⟩⟩
  rw [Edit.runs_bind, ← hloop]
  constructor
  · rintro ⟨units, d₁, h, hpure⟩
    obtain ⟨-, rfl⟩ := Edit.runs_pure.mp hpure
    exact ⟨units, h⟩
  · rintro ⟨units, h⟩
    exact ⟨units, d', h, Edit.runs_pure.mpr ⟨rfl, rfl⟩⟩

/-! ## What becomes of an element -/

/-- An element with some loose ends attached. -/
def attachAll (find : String → Option Slot) (ends : List LooseEnd) (e : Element) : Element :=
  ends.foldl (fun e l => match find l.label with | some i => l.attach i e | none => e) e

theorem labelled?_congr (h : ∀ j, d'.core? j = d.core? j) (interfaces : List Slot)
    (label : String) : labelled? d' interfaces label = labelled? d interfaces label := by
  have hlabel : ∀ (d : Diagram) j, ((d.get? j).any fun e => e.label == label) =
      (d.core? j).any fun e => e.label == label := by
    intro d j
    rw [Diagram.core?]
    cases d.get? j <;> rfl
  rw [labelled?, labelled?]
  simp only [hlabel, h]

theorem core?_attachTo (interfaces : List Slot) (d : Diagram) (l : LooseEnd) (j : Slot) :
    (attachTo interfaces d l).core? j = d.core? j :=
  (rebind_frame (u := ()) (rebind_runs_iff.mpr rfl)).2 j

/-- **The loose ends of an element are attached where they were looked up at the start.** -/
theorem get?_foldl_attachTo (ends : List LooseEnd) (interfaces : List Slot) (d : Diagram) (j : Slot) :
    (ends.foldl (attachTo interfaces) d).get? j =
      (d.get? j).map (attachAll (labelled? d interfaces) (ends.filter fun l => l.connector == j)) := by
  induction ends generalizing d with
  | nil =>
    have hid : attachAll (labelled? d interfaces) [] = id := rfl
    show d.get? j = (d.get? j).map (attachAll (labelled? d interfaces) [])
    rw [hid, Option.map_id, id]
  | cons l ends ih =>
    have hsame : labelled? (attachTo interfaces d l) interfaces = labelled? d interfaces :=
      funext (labelled?_congr (core?_attachTo interfaces d l) interfaces)
    rw [List.foldl_cons, ih, hsame, attachTo]
    by_cases hj : l.connector = j
    · rw [List.filter_cons_of_pos (by rw [hj, beq_self_eq_true])]
      cases hfound : labelled? d interfaces l.label with
      | none =>
        dsimp only
        congr 1
        funext e
        rw [attachAll, attachAll, List.foldl_cons, hfound]
      | some i =>
        dsimp only
        rw [Diagram.get?_modify, if_pos hj, Option.map_map]
        congr 1
        funext e
        rw [Function.comp_apply, attachAll, attachAll, List.foldl_cons, hfound]
    · rw [List.filter_cons_of_neg (by simpa using hj)]
      cases labelled? d interfaces l.label with
      | none => rfl
      | some i =>
        dsimp only
        rw [Diagram.get?_modify, if_neg hj]

theorem endAt_attach (l : LooseEnd) (i : Slot) (e : Element) (isSource : Bool) :
    (l.attach i e).endAt isSource = if l.isSource = isSource then some i else e.endAt isSource := by
  rw [LooseEnd.attach]
  cases l.isSource <;> cases isSource <;> rfl

/-- **Where an end is attached**: if it has come loose with a label, at the interface that
is found for the label. Without one it stays as it is. -/
theorem endAt_attachAll (hlabel : ∀ l ∈ ends, l.isSource = isSource → l.label = label) :
    (attachAll find ends e).endAt isSource =
      if ∃ l ∈ ends, l.isSource = isSource then (find label).or (e.endAt isSource)
      else e.endAt isSource := by
  induction ends generalizing e with
  | nil => simp [attachAll]
  | cons l ends ih =>
    obtain ⟨hl, hends⟩ := List.forall_mem_cons.mp hlabel
    have hcons : attachAll find (l :: ends) e = attachAll find ends
        (match find l.label with | some i => l.attach i e | none => e) := rfl
    rw [hcons, ih hends]
    -- A loose end of the other side does not touch this one.
    by_cases hside : l.isSource = isSource
    · have hone : (match find l.label with | some i => l.attach i e | none => e).endAt isSource =
          (find label).or (e.endAt isSource) := by
        rw [hl hside]
        cases find label with
        | none => rfl
        | some i =>
          dsimp only
          rw [endAt_attach, if_pos hside]
          rfl
      rw [if_pos (⟨l, List.mem_cons_self, hside⟩ : ∃ l' ∈ l :: ends, l'.isSource = isSource), hone]
      split
      · cases find label <;> rfl
      · rfl
    · have hone : (match find l.label with | some i => l.attach i e | none => e).endAt isSource =
          e.endAt isSource := by
        cases find l.label with
        | none => rfl
        | some i =>
          dsimp only
          rw [endAt_attach, if_neg hside]
      have hiff : (∃ l' ∈ l :: ends, l'.isSource = isSource) ↔ ∃ l' ∈ ends, l'.isSource = isSource := by
        simp [hside]
      rw [hone]
      simp only [hiff]

end Netlist.Assembly
