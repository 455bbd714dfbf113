import StepAtlas.Text.Basic

/-
A set of code points given by its switch points: the rising list of the numbers at which membership
changes.  The even places open a range and the odd places close it, so a number is a member exactly
when an odd number of switch points lie at or below it.
-/

namespace StepAtlas

/-- How many of the first `hi` entries of a rising array are at most `n`, given that `lo` of them
are. -/
def countAtMost (points : Array Nat) (n lo hi : Nat) : Nat :=
  if lo < hi then
    let mid := (lo + hi) / 2
    if points.getD mid 0 ≤ n then countAtMost points n (mid + 1) hi
    else countAtMost points n lo mid
  else lo
termination_by hi - lo

def CodePoint.within (points : Array Nat) (p : CodePoint) : Bool :=
  countAtMost points p.toNat 0 points.size % 2 == 1

end StepAtlas
