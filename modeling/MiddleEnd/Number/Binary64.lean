/-!
# Floating-point numbers by their bits

A number is the 64 bits that stand for it: a sign, an exponent field and a
fraction field.  What is not a number has a sign too, and the sign is written,
so two numbers are the same only if all of their bits are.

The four operations round to the nearest number.  An operand that is not a
number is passed on, the left one first, and an operation that has no value
gives the one pattern that stands for this.
-/

namespace MiddleEnd.Number

/-- A floating-point number with 64 bits. -/
structure Binary64 where
  bits : UInt64
deriving DecidableEq, Repr

namespace Binary64

/-- Whether the sign bit is set. -/
def isNegative (number : Binary64) : Bool :=
  Nat.pow 2 63 ≤ number.bits.toNat

/-- The eleven bits behind the sign. -/
def exponentField (number : Binary64) : Nat :=
  number.bits.toNat / Nat.pow 2 52 % Nat.pow 2 11

/-- The last fifty-two bits. -/
def fractionField (number : Binary64) : Nat :=
  number.bits.toNat % Nat.pow 2 52

/-- Whether the bits stand for a number other than an infinity. -/
def isFinite (number : Binary64) : Bool :=
  number.exponentField ≠ 2047

/-- Whether the bits stand for no number. -/
def isNaN (number : Binary64) : Bool :=
  !number.isFinite && number.fractionField ≠ 0

/-- Whether the number equals zero, of either sign. -/
def isZero (number : Binary64) : Bool :=
  number.exponentField = 0 && number.fractionField = 0

/-- The number as arithmetic takes it. -/
def toFloat (number : Binary64) : Float :=
  Float.ofBits number.bits

/-- The bits of the result of arithmetic. -/
def ofFloat (number : Float) : Binary64 :=
  ⟨number.toBits⟩

/-- What is not a number, after it has been an operand. -/
def quiet (number : Binary64) : Binary64 :=
  ⟨number.bits ||| 0x0008000000000000⟩

/-- What an operation without a value gives.  Its sign bit is set. -/
def indefinite : Binary64 :=
  ⟨0xFFF8000000000000⟩

/-- The result of an operation on two numbers. -/
def combine
    (operation : Float → Float → Float)
    (left right : Binary64) : Binary64 :=
  if left.isNaN then
    left.quiet
  else if right.isNaN then
    right.quiet
  else
    let result := ofFloat (operation left.toFloat right.toFloat)
    if result.isNaN then indefinite else result

instance : Add Binary64 where
  add := combine (· + ·)

instance : Sub Binary64 where
  sub := combine (· - ·)

instance : Mul Binary64 where
  mul := combine (· * ·)

instance : Div Binary64 where
  div := combine (· / ·)

/-- The sign bit is flipped, whatever the others stand for. -/
instance : Neg Binary64 where
  neg number := ⟨number.bits ^^^ 0x8000000000000000⟩

end Binary64

end MiddleEnd.Number
