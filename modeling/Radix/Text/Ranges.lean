/-!
# Text/Ranges — sets of characters as ranges of code points

A property of characters that a standard fixes by enumeration is kept as the increasing list of the
inclusive ranges of code points that have it.  `Ranges.contains` reads such a table.
-/

namespace Radix.Text

/-- A set of characters: the inclusive ranges of code points it covers, in increasing order. -/
abbrev Ranges := List (Nat × Nat)

/-- Does some range of the table cover the character? -/
def Ranges.contains (table : Ranges) (c : Char) : Bool :=
  table.any fun (first, last) => first ≤ c.toNat && c.toNat ≤ last

theorem Ranges.contains_iff {table : Ranges} {c : Char} :
    table.contains c = true ↔ ∃ r ∈ table, r.1 ≤ c.toNat ∧ c.toNat ≤ r.2 := by
  simp [Ranges.contains]

end Radix.Text
