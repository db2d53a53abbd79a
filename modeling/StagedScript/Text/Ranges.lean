/-!
# Sets of characters

A set of characters as a list of ranges of code points.
-/

namespace StagedScript.Text

/-- Whether a code point lies in one of the ranges, the ends included. -/
def inRanges (ranges : List (Nat × Nat)) (c : Char) : Bool :=
  ranges.any fun (low, high) => decide (low ≤ c.toNat ∧ c.toNat ≤ high)

end StagedScript.Text
