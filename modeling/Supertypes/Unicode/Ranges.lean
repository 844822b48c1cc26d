/-!
# Ranges of characters

Membership of a character in a list of ranges of code points, both ends included.
-/

namespace Supertypes.Unicode

/-- The code point of `c` lies in one of the ranges. -/
def inRanges (c : Char) (ranges : List (Nat × Nat)) : Bool :=
  ranges.any fun (first, last) => first ≤ c.toNat && c.toNat ≤ last

end Supertypes.Unicode
