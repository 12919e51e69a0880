/-!
# Rounding a fraction to an integer

A fraction of naturals is rounded to its nearest integer.  A fraction that
lies halfway between two integers goes where the tie rule sends it.
-/

namespace MiddleEnd.Number

/-- Where a number halfway between two integers goes. -/
inductive Tie where
  /-- The even neighbour. -/
  | toEven
  /-- The larger neighbour in absolute value. -/
  | away
deriving DecidableEq, Repr

/--
The integer nearest to `numerator / denominator`, for a positive
denominator.
-/
def roundDiv (tie : Tie) (numerator denominator : Nat) : Nat :=
  let quotient := numerator / denominator
  let doubled := 2 * (numerator % denominator)
  if doubled < denominator then
    quotient
  else if denominator < doubled then
    quotient + 1
  else
    match tie with
    | .toEven => quotient + quotient % 2
    | .away => quotient + 1

end MiddleEnd.Number
