/-!
Sets of characters given by code point. A character property is a table of intervals, and a table
answers membership.
-/

namespace TableScript

/-- A set of code points as ascending closed intervals. Surrogates may lie inside an interval, since
no character has one as its code point. -/
structure CodePoints where
  intervals : List (Nat × Nat)

namespace CodePoints

/-- Searches ascending intervals and stops at the first one that lies above `n`. -/
def covers : List (Nat × Nat) → Nat → Bool
  | [], _ => false
  | (low, high) :: rest, n =>
    if n < low then false else if n ≤ high then true else covers rest n

def contains (set : CodePoints) (c : Char) : Bool :=
  covers set.intervals c.toNat

end CodePoints

end TableScript
