import Netlist.Element

/-!
# Diagrams

A diagram keeps the elements of one document in numbered slots. Parents and
edge ends are slots, so they stay valid while other elements come and go: a
removed element leaves its slot empty for good, and a new element always gets
a slot that was never used. Slot `0` holds the root, which cannot be removed.

`Diagram.get?` is the view the operations are described by: what each of them
does to every slot is stated beside it.
-/

namespace Netlist

/-- An identity that another element already has. -/
structure DuplicateIdentity where
  id : String
deriving DecidableEq, Repr

/-- The wording of a duplicate identity. -/
def DuplicateIdentity.message (e : DuplicateIdentity) : String :=
  "identity `" ++ e.id ++ "` is used by more than one element"

/-- The elements of a document by slot. -/
structure Diagram where
  slots : Array (Option Element)
deriving DecidableEq

namespace Diagram

/-- The slot of the root. -/
def root : Slot := 0

/-- The identity of the root of a new diagram. -/
def rootId : String := "__netweave_root__"

/-- The diagram with nothing but its root. -/
def empty : Diagram := ⟨#[some { id := rootId, role := .root }]⟩

instance : Inhabited Diagram := ⟨empty⟩

/-- The element in a slot, if the slot was issued and still holds one. -/
def get? (d : Diagram) (i : Slot) : Option Element := (d.slots[i]?).join

/-- The number of slots ever issued. -/
def bound (d : Diagram) : Nat := d.slots.size

/-- Whether a slot holds an element. -/
def isLive (d : Diagram) (i : Slot) : Bool := (d.get? i).isSome

/-- The occupied slots whose element passes a test, in increasing order. -/
def select (d : Diagram) (p : Element → Bool) : List Slot :=
  (List.range d.bound).filter fun i => (d.get? i).any p

/-- The elements with their slots, in increasing order. -/
def elements (d : Diagram) : List (Slot × Element) :=
  (List.range d.bound).filterMap fun i => (d.get? i).map fun e => (i, e)

/-- The slot of the element with an identity. -/
def find? (d : Diagram) (id : String) : Option Slot :=
  (List.range d.bound).find? fun i => (d.get? i).any fun e => e.id == id

/-- The number of elements, the root included. -/
def size (d : Diagram) : Nat := d.elements.length

/-- Whether there is nothing but the root. -/
def isEmpty (d : Diagram) : Bool := d.size ≤ 1

/-- The elements directly inside `parent`, in order; never `parent` itself. -/
def children (d : Diagram) (parent : Slot) : List Slot :=
  (d.select fun e => e.parent == some parent).filter (· != parent)

/-- The elements with an end at `i`, in order. -/
def edgesTouching (d : Diagram) (i : Slot) : List Slot :=
  d.select fun e => e.touches i

/-- Whether some element plays a role that passes a test. -/
def hasRole (d : Diagram) (p : Role → Bool) : Bool :=
  d.elements.any fun e => p e.2.role

theorem mem_select {d : Diagram} {p : Element → Bool} {i : Slot} :
    i ∈ d.select p ↔ ∃ e, d.get? i = some e ∧ p e = true := by
  simp only [select, List.mem_filter, List.mem_range, Option.any_eq_true]
  constructor
  · exact fun ⟨_, h⟩ => h
  · intro ⟨e, he, hp⟩
    refine ⟨?_, e, he, hp⟩
    simp only [get?, Option.join_eq_some_iff] at he
    exact (Array.getElem?_eq_some_iff.1 he).1

theorem mem_elements {d : Diagram} {i : Slot} {e : Element} :
    (i, e) ∈ d.elements ↔ d.get? i = some e := by
  simp only [elements, List.mem_filterMap, List.mem_range, Option.map_eq_some_iff, Prod.mk.injEq]
  constructor
  · rintro ⟨j, _, e', he', rfl, rfl⟩
    exact he'
  · intro he
    refine ⟨i, ?_, e, he, rfl, rfl⟩
    simp only [get?, Option.join_eq_some_iff] at he
    exact (Array.getElem?_eq_some_iff.1 he).1

/-! ## Edits -/

/-- Puts an element into a new slot; one without a parent goes under the root.
Fails if its identity is taken. -/
def insert (d : Diagram) (e : Element) : Except DuplicateIdentity (Slot × Diagram) :=
  match d.find? e.id with
  | some _ => .error ⟨e.id⟩
  | none => .ok (d.bound, ⟨d.slots.push (some { e with parent := some (e.parent.getD root) })⟩)

/-- Changes the element in a slot; an empty slot stays empty. -/
def modify (d : Diagram) (i : Slot) (f : Element → Element) : Diagram :=
  ⟨d.slots.modify i (Option.map f)⟩

/-- Gives an element a new identity, which no other element may have. -/
def rename (d : Diagram) (i : Slot) (id : String) : Except DuplicateIdentity Diagram :=
  match d.find? id with
  | some owner =>
    if owner = i then .ok (d.modify i fun e => { e with id := id }) else .error ⟨id⟩
  | none => .ok (d.modify i fun e => { e with id := id })

/-- The element that removing a slot would take out; none for the root. -/
def removable? (d : Diagram) (i : Slot) : Option Element :=
  if i = root then none else d.get? i

/-- Empties a slot and clears the edge ends that were there. The root stays. -/
def remove (d : Diagram) (i : Slot) : Diagram :=
  match d.removable? i with
  | none => d
  | some _ => ⟨(d.slots.setIfInBounds i none).map (Option.map (Element.detach i))⟩

/-- Adds to a list of slots the elements whose parent is in it, until there are
no more; `fuel` bounds the rounds. -/
def growSubtree (d : Diagram) : Nat → List Slot → List Slot
  | 0, marked => marked
  | fuel + 1, marked =>
    match (d.select fun e => e.parent.any marked.contains).filter (!marked.contains ·) with
    | [] => marked
    | more => growSubtree d fuel (marked ++ more)

/-- A slot and everything inside it, in increasing order. -/
def subtree (d : Diagram) (i : Slot) : List Slot :=
  (List.range d.bound).filter (d.growSubtree d.bound [i]).contains

/-- Removes an element and everything inside it; gives how many went. -/
def removeSubtree (d : Diagram) (i : Slot) : Nat × Diagram :=
  match d.removable? i with
  | none => (0, d)
  | some _ =>
    let doomed := d.subtree i
    (doomed.countP fun j => (d.removable? j).isSome, doomed.foldl remove d)

/-! ## What edits do to the slots -/

@[simp] theorem get?_modify (d : Diagram) (i j : Slot) (f : Element → Element) :
    (d.modify i f).get? j = if i = j then (d.get? j).map f else d.get? j := by
  simp only [get?, modify, Array.getElem?_modify]
  by_cases h : i = j <;> simp only [h, if_true, if_false]
  cases d.slots[j]? with
  | none => rfl
  | some o => cases o <;> rfl

@[simp] theorem bound_modify (d : Diagram) (i : Slot) (f : Element → Element) :
    (d.modify i f).bound = d.bound := by
  simp [modify, bound]

theorem get?_insert {d d' : Diagram} {e : Element} {i : Slot} (h : d.insert e = .ok (i, d'))
    (j : Slot) :
    d'.get? j = if j = i then some { e with parent := some (e.parent.getD root) } else d.get? j := by
  unfold insert at h
  split at h
  · cases h
  · cases h
    simp only [get?, Array.getElem?_push, bound]
    by_cases hj : j = d.slots.size <;> simp [hj]

theorem slot_insert {d d' : Diagram} {e : Element} {i : Slot} (h : d.insert e = .ok (i, d')) :
    i = d.bound ∧ d'.bound = d.bound + 1 := by
  unfold insert at h
  split at h
  · cases h
  · cases h
    simp [bound]

theorem get?_remove {d : Diagram} {i : Slot} (h : (d.removable? i).isSome) (j : Slot) :
    (d.remove i).get? j = if j = i then none else (d.get? j).map (Element.detach i) := by
  unfold remove
  split
  · rename_i hn
    rw [hn] at h
    cases h
  · simp only [get?, Array.getElem?_map, Array.getElem?_setIfInBounds]
    by_cases hj : j = i
    · subst hj
      by_cases hlt : j < d.slots.size <;> simp [hlt]
    · simp only [hj, Ne.symm hj, if_false]
      cases d.slots[j]? with
      | none => rfl
      | some o => cases o <;> rfl

@[simp] theorem bound_remove (d : Diagram) (i : Slot) : (d.remove i).bound = d.bound := by
  unfold remove
  split
  · rfl
  · simp [bound]

end Diagram

end Netlist
