/-
  Sets of characters as lists of ranges of code points.

  * `inRanges` tests one code point.
-/
namespace Reckon.Text

/-- Whether a code point lies in one of the ranges, both ends included. -/
def inRanges (ranges : List (Nat × Nat)) (n : Nat) : Bool :=
  ranges.any fun (low, high) => low ≤ n && n ≤ high

end Reckon.Text
