import MiddleEnd.Number.Binary64

/-!
# The exact value of a floating-point number

A finite binary64 number is a sign and a fraction whose denominator is a
power of two.  `Exact.ofBinary64` reads both off the bit pattern, so that
printing and rounding work on naturals.
-/

namespace MiddleEnd.Number

/-- The value of a binary64 number, with no rounding left in it. -/
inductive Exact where
  /-- No number, which has a sign all the same. -/
  | nan (negative : Bool)
  /-- An infinity. -/
  | infinite (negative : Bool)
  /-- A finite number of absolute value `numerator / denominator`. -/
  | finite (negative : Bool) (numerator denominator : Nat)
deriving DecidableEq, Repr

namespace Exact

/--
The value with sign `negative`, biased exponent `exponent` and fraction
field `fraction`.

The least exponent field has no implicit leading bit and shares the scale
of the next one.
-/
def ofFields (negative : Bool) (exponent fraction : Nat) : Exact :=
  if exponent = 2047 then
    if fraction = 0 then .infinite negative else .nan negative
  else if exponent = 0 then
    .finite negative fraction (Nat.pow 2 1074)
  else if exponent < 1075 then
    .finite negative (Nat.pow 2 52 + fraction) (Nat.pow 2 (1075 - exponent))
  else
    .finite negative
      ((Nat.pow 2 52 + fraction) * Nat.pow 2 (exponent - 1075)) 1

/-- The value of a floating-point number. -/
def ofBinary64 (number : Binary64) : Exact :=
  ofFields number.isNegative number.exponentField number.fractionField

end Exact

end MiddleEnd.Number
