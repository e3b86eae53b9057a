/-!
# Ranges of code points

A class of characters is given by the code points that belong to it, as a list of ranges in
ascending order.
-/

namespace Linkage.Text

/-- Inclusive ranges of code points. -/
abbrev CodeRanges := List (Nat × Nat)

def CodeRanges.contains (ranges : CodeRanges) (c : Char) : Bool :=
  ranges.any fun (first, last) => decide (first ≤ c.toNat) && decide (c.toNat ≤ last)

end Linkage.Text
