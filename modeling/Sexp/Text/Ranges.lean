/-!
# Sets of characters as ranges

A property of characters is kept as the list of the ranges of code points that have it, both ends
included.
-/

namespace Sexp.Ranges

/-- Whether a code point lies in one of the ranges. -/
def contains (ranges : List (Nat × Nat)) (code : Nat) : Bool :=
  ranges.any fun r => r.1 ≤ code && code ≤ r.2

end Sexp.Ranges
