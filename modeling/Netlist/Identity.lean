import Netlist.Diagram

/-!
# Generated identities

Elements that assembly adds need identities that nobody has. A naming proposes
one for every slot; `Naming.fresh` takes the proposal for the next slot, with
as many strokes after it as it takes to be new. A `Substitution` remembers
which identity stands in for which.
-/

namespace Netlist

/-- The proposed identity for the element of each slot. -/
abbrev Naming := Slot → String

namespace Naming

/-- A proposal with some strokes after it. -/
def stroked (proposal : String) (strokes : Nat) : String :=
  proposal ++ String.ofList (List.replicate strokes '~')

/-- An identity for the next slot of a diagram that no element has. -/
def fresh (naming : Naming) (d : Diagram) : String :=
  let proposal := naming d.bound
  let candidates := (List.range (d.bound + 1)).map (stroked proposal)
  (candidates.find? fun id => (d.find? id).isNone).getD proposal

/-- The characters of generated identities. -/
def alphabet : List Char :=
  "ABCDEFGHIJKLMNOPQRSTUVWXYZabcdefghijklmnopqrstuvwxyz0123456789".toList

/-- The number of characters of a generated identity. -/
def length : Nat := 20

/-- The last `width` digits of a number in the base of the alphabet. -/
def digits : Nat → Nat → List Char
  | 0, _ => []
  | width + 1, n =>
    digits width (n / alphabet.length) ++ [alphabet.getD (n % alphabet.length) 'A']

/-- The naming that counts on from a place that the seed determines. Different
seeds are far apart. -/
def seeded (seed : Nat) : Naming := fun slot =>
  String.ofList (digits length (seed * Nat.pow alphabet.length 9 + slot))

end Naming

/-- Stand-ins for the identities of a drawing. -/
structure Substitution where
  entries : List (String × String)
deriving DecidableEq, Repr

namespace Substitution

/-- No stand-ins. -/
def empty : Substitution := ⟨[]⟩

/-- The stand-in for an identity. -/
def get? (t : Substitution) (id : String) : Option String := t.entries.lookup id

/-- The number of identities with a stand-in. -/
def size (t : Substitution) : Nat := t.entries.length

/-- Whether there is no stand-in. -/
def isEmpty (t : Substitution) : Bool := t.entries.isEmpty

/-- The stand-in for an identity, which `proposal` becomes on first use. -/
def substitute (t : Substitution) (id proposal : String) : String × Substitution :=
  match t.get? id with
  | some standIn => (standIn, t)
  | none => (proposal, ⟨t.entries ++ [(id, proposal)]⟩)

end Substitution

end Netlist
