import MiddleEnd.Number.Exact
import MiddleEnd.Number.Rounding

/-!
# Whole percentages

A fraction is shown as a whole percentage.  The product with one hundred is
a floating-point product, and its exact value is rounded to the nearest
integer, halves going away from zero.
-/

namespace MiddleEnd.Number

/-- The signed integer with the given absolute value. -/
def signed (negative : Bool) (magnitude : Nat) : Int :=
  if negative then -(magnitude : Int) else magnitude

/--
The nearest integer as a 64-bit word.  What has no nearest integer in the
range of the word becomes its least value.
-/
def Exact.toNearestWord : Exact → Int64
  | .finite negative numerator denominator =>
      let nearest := signed negative (roundDiv .away numerator denominator)
      if Int64.minValue.toInt ≤ nearest ∧ nearest ≤ Int64.maxValue.toInt then
        Int64.ofInt nearest
      else
        Int64.minValue
  | _ => Int64.minValue

/-- A fraction as a whole percentage. -/
def percent (fraction : Float) : Int64 :=
  (Exact.ofBinary64 (.ofFloat (fraction * 100.0))).toNearestWord

end MiddleEnd.Number
