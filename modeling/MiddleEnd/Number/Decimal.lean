import MiddleEnd.Number.Exact
import MiddleEnd.Number.Rounding

/-!
# Decimal text of floating-point numbers

A floating-point literal is written in positional notation only.  It has as
many decimals as seventeen significant digits take, when that is between
none and twenty of them, and sixteen decimals otherwise.  Zeros at the end
are dropped, and one decimal is always left.
-/

namespace MiddleEnd.Number

/-- How floating-point literals are written. -/
structure DecimalFormat where
  /-- Significant digits wanted. -/
  significant : Nat
  /-- Most decimals that the significant digits may take. -/
  mostDecimals : Nat
  /-- Decimals written when the significant digits do not fit. -/
  fallbackDecimals : Nat
  /-- Where a digit halfway between two goes. -/
  tie : Tie
deriving DecidableEq, Repr

namespace DecimalFormat

/-- The format of literals in source text. -/
def literal : DecimalFormat where
  significant := 17
  mostDecimals := 20
  fallbackDecimals := 16
  tie := .toEven

/-- The fraction as a count of units of the given decimal place. -/
def scaled
    (format : DecimalFormat)
    (numerator denominator decimals : Nat) : Nat :=
  roundDiv format.tie (numerator * Nat.pow 10 decimals) denominator

/-- Whether the count is written with the wanted number of digits. -/
def fits (format : DecimalFormat) (count : Nat) : Bool :=
  Nat.pow 10 (format.significant - 1) ≤ count &&
    count < Nat.pow 10 format.significant

/--
The number of decimals of a fraction: the most for which its rounded text
has the wanted significant digits.  Zero is a single digit before the point.
-/
def decimals (format : DecimalFormat) (numerator denominator : Nat) : Nat :=
  if numerator = 0 then
    0
  else
    ((List.range (format.mostDecimals + 1)).reverse.find? fun decimals =>
        format.fits (format.scaled numerator denominator decimals)).getD
      format.fallbackDecimals

end DecimalFormat

/-- The last `width` decimal digits of a natural, leading zeros included. -/
def lastDigits : (width : Nat) → Nat → List Char
  | 0, _ => []
  | width + 1, count => lastDigits width (count / 10) ++ [Nat.digitChar (count % 10)]

/-- The digits without the zeros at their end. -/
def dropFinalZeros (digits : List Char) : List Char :=
  (digits.reverse.dropWhile (· = '0')).reverse

/-- The decimals after the point: no zero at the end, but never none. -/
def decimalPart (digits : List Char) : List Char :=
  match dropFinalZeros digits with
  | [] => ['0']
  | kept => kept

/-- A count of units of the given decimal place, as positional text. -/
def positional (decimals count : Nat) : String :=
  toString (count / Nat.pow 10 decimals) ++ "." ++
    String.ofList (decimalPart (lastDigits decimals count))

/-- The sign written before a number. -/
def signText (negative : Bool) : String :=
  if negative then "-" else ""

/-- The text of an exact value in the given format. -/
def Exact.render (format : DecimalFormat) : Exact → String
  | .nan negative => signText negative ++ "nan.0"
  | .infinite negative => signText negative ++ "inf.0"
  | .finite negative numerator denominator =>
      let decimals := format.decimals numerator denominator
      signText negative ++
        positional decimals (format.scaled numerator denominator decimals)

/-- The source text of a floating-point literal. -/
def renderFloat (number : Binary64) : String :=
  (Exact.ofBinary64 number).render .literal

end MiddleEnd.Number
