/-!
# `Stepwise.Text.Range`: classes of characters as ranges

A class of characters is given by ranges of code points with both ends included.
-/

set_option autoImplicit false

namespace Stepwise.Text

/-- Whether a code point lies in one of the ranges. -/
def inRanges (ranges : List (Nat × Nat)) (n : Nat) : Bool :=
  ranges.any fun r => r.1 ≤ n && n ≤ r.2

end Stepwise.Text
