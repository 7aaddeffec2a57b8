/-!
# Ranges of characters

Properties of characters are given by closed ranges of code points.
-/

namespace Leasehold.Text

/-- Whether a number lies in one of some closed ranges. -/
def inRanges (ranges : List (Nat × Nat)) (n : Nat) : Bool := ranges.any fun r => r.1 ≤ n && n ≤ r.2

end Leasehold.Text
