/-!
Sets of characters given as sorted, inclusive ranges of code points.
-/

namespace RichText.Text

/-- A set of characters, written as inclusive ranges of code points in ascending order. -/
abbrev Ranges := List (Nat × Nat)

/-- Whether the character lies in one of the ranges. -/
def Ranges.contains (ranges : Ranges) (c : Char) : Bool :=
  ranges.any fun (low, high) => low ≤ c.toNat && c.toNat ≤ high

end RichText.Text
