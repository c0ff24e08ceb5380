/-!
Membership in a sorted list of ranges.
-/

namespace ConfigCare.Text

/-- Whether `n` lies in one of the ranges; they are in increasing order, so the search ends at the
first that starts beyond `n`. -/
def inRanges : List (Nat × Nat) → Nat → Bool
  | [], _ => false
  | (lo, hi) :: rest, n => if n < lo then false else n ≤ hi || inRanges rest n

end ConfigCare.Text
