/-!
# Machine words

Counts and numbers of nodes are kept in words of 64 bits: counts without a sign, numbers
with one. A sum that leaves the range of its word wraps around to the other end.
-/

namespace Netlist.Word

/-- A count as a word keeps it. -/
def count (n : Nat) : Nat := n % UInt64.size

/-- An integer as a word with a sign keeps it. -/
@[irreducible] def signed (n : Int) : Int := n.bmod UInt64.size

end Netlist.Word
