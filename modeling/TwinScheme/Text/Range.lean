/-!
# Ranges of code points

How the tables of characters are looked up.
-/

namespace TwinScheme.Text

/-- Whether a character lies in one of some ranges of code points, whose two
ends belong to them. -/
def inRanges (ranges : List (Nat × Nat)) (c : Char) : Bool :=
  ranges.any fun r => r.1 ≤ c.toNat && c.toNat ≤ r.2

end TwinScheme.Text
