import Mathlib.Order.Monotone.Basic
import MiddleEnd.Proofs.Number.Significant

/-!
# Finite numbers in units of the least

Every finite number is a multiple of the least positive one.  The bits without
the sign count these multiples in order.  From one pattern to the next the
multiple grows by a power of two, which is more than one part in `2 ^ 53` of it.
-/

namespace MiddleEnd.Number

/-! ## Bit patterns in order -/

/-- The multiple of the least positive number that the two fields stand for. -/
def unitsOfFields (exponent fraction : Nat) : Nat :=
  if exponent = 0 then
    fraction
  else
    (2 ^ 52 + fraction) * 2 ^ (exponent - 1)

/-- The multiple of the least positive number that a pattern without sign stands for. -/
def units (magnitude : Nat) : Nat :=
  unitsOfFields (magnitude / 2 ^ 52) (magnitude % 2 ^ 52)

/-- How far the number after a pattern is away. -/
def gap (magnitude : Nat) : Nat :=
  2 ^ (magnitude / 2 ^ 52 - 1)

theorem unitsOfFields_succ (exponent fraction : Nat) :
    unitsOfFields exponent (fraction + 1) =
      unitsOfFields exponent fraction + 2 ^ (exponent - 1) := by
  unfold unitsOfFields
  split
  next least =>
    rw [least]
    rfl
  next => rw [← Nat.add_assoc, Nat.succ_mul]

/-- The first pattern of an exponent follows the last one of the exponent before. -/
theorem unitsOfFields_carry (exponent : Nat) :
    unitsOfFields (exponent + 1) 0 = unitsOfFields exponent (2 ^ 52) := by
  unfold unitsOfFields
  cases exponent with
  | zero => rfl
  | succ exponent =>
      rw [if_neg (Nat.succ_ne_zero _), if_neg (Nat.succ_ne_zero _),
        Nat.add_sub_cancel, Nat.add_sub_cancel, Nat.pow_succ]
      omega

theorem units_succ (magnitude : Nat) :
    units (magnitude + 1) = units magnitude + gap magnitude := by
  unfold units gap
  rw [← unitsOfFields_succ]
  -- A full fraction carries into the exponent, with no jump in the value.
  by_cases last : magnitude % 2 ^ 52 + 1 = 2 ^ 52
  · rw [show (magnitude + 1) / 2 ^ 52 = magnitude / 2 ^ 52 + 1 by omega,
      show (magnitude + 1) % 2 ^ 52 = 0 by omega, last, unitsOfFields_carry]
  · rw [show (magnitude + 1) / 2 ^ 52 = magnitude / 2 ^ 52 by omega,
      show (magnitude + 1) % 2 ^ 52 = magnitude % 2 ^ 52 + 1 by omega]

theorem units_strictMono : StrictMono units := by
  apply strictMono_nat_of_lt_succ
  intro magnitude
  rw [units_succ]
  exact Nat.lt_add_of_pos_right (Nat.two_pow_pos _)

theorem units_lt (magnitude : Nat) : units magnitude < 2 ^ 53 * gap magnitude := by
  have bounded := Nat.mod_lt magnitude (Nat.two_pow_pos 52)
  unfold units gap unitsOfFields
  split
  next least =>
    rw [least]
    omega
  next => exact Nat.mul_lt_mul_of_pos_right (by omega) (Nat.two_pow_pos _)

theorem units_spaced (magnitude other : Nat) : Spaced (units magnitude) (units other) := by
  intro less
  have next : units (magnitude + 1) ≤ units other :=
    units_strictMono.monotone (units_strictMono.lt_iff_lt.1 less)
  have small := units_lt magnitude
  rw [units_succ] at next
  omega

/-! ## The value of a finite number -/

/-- The bits without the sign. -/
def magnitude (number : Binary64) : Nat :=
  number.bits.toNat % 2 ^ 63

/-- The multiples of the least positive number that make one. -/
def unitsOfOne : Nat :=
  2 ^ 1074

theorem unitsOfOne_pos : 0 < unitsOfOne := by
  decide +kernel

theorem unitsOfOne_eq_mul
    {low high : Nat}
    (whole : low + high = 1074) :
    unitsOfOne = 2 ^ low * 2 ^ high := by
  rw [← Nat.pow_add, whole, unitsOfOne]

/-- The sign and the multiple of the least positive number determine the bits. -/
theorem bits_eq_iff {number other : Binary64} :
    number.bits = other.bits ↔
      number.isNegative = other.isNegative ∧
        units (magnitude number) = units (magnitude other) := by
  rw [units_strictMono.injective.eq_iff]
  constructor
  · intro bits
    rw [Binary64.isNegative, magnitude, bits]
    exact ⟨rfl, rfl⟩
  · rintro ⟨sign, same⟩
    have bounded := number.bits.toNat_lt
    have otherBounded := other.bits.toNat_lt
    have signs : 2 ^ 63 ≤ number.bits.toNat ↔ 2 ^ 63 ≤ other.bits.toNat :=
      decide_eq_decide.1 sign
    rw [magnitude, magnitude] at same
    apply UInt64.toNat.inj
    omega

theorem exponentField_eq (number : Binary64) :
    number.exponentField = magnitude number / 2 ^ 52 := by
  show number.bits.toNat / 2 ^ 52 % 2 ^ 11 = number.bits.toNat % 2 ^ 63 / 2 ^ 52
  omega

theorem fractionField_eq (number : Binary64) :
    number.fractionField = magnitude number % 2 ^ 52 := by
  show number.bits.toNat % 2 ^ 52 = number.bits.toNat % 2 ^ 63 % 2 ^ 52
  omega

theorem ofFields_eq_finite
    (negative : Bool)
    {exponent : Nat}
    (finite : exponent ≠ 2047)
    (fraction : Nat) :
    ∃ numerator denominator,
      Exact.ofFields negative exponent fraction =
          .finite negative numerator denominator ∧
        0 < denominator ∧
        numerator * unitsOfOne =
          unitsOfFields exponent fraction * denominator := by
  unfold Exact.ofFields
  rw [if_neg finite]
  split
  next least =>
    have scale : Nat.pow 2 1074 = unitsOfOne := by decide +kernel
    rw [unitsOfFields, if_pos least]
    exact
      ⟨fraction, unitsOfOne, congrArg (Exact.finite negative fraction) scale,
        unitsOfOne_pos, rfl⟩
  next normal =>
    rw [unitsOfFields, if_neg normal]
    split
    next small =>
      refine ⟨_, _, rfl, Nat.two_pow_pos (1075 - exponent), ?_⟩
      rw [unitsOfOne_eq_mul (show exponent - 1 + (1075 - exponent) = 1074 by omega),
        ← Nat.mul_assoc]
      rfl
    next large =>
      refine ⟨_, _, rfl, Nat.one_pos, ?_⟩
      rw [Nat.mul_one, Nat.mul_assoc,
        show exponent - 1 = exponent - 1075 + 1074 by omega, Nat.pow_add]
      rfl

/-- A finite number is its multiple of the least positive one. -/
theorem ofBinary64_eq_finite
    {number : Binary64}
    (finite : number.isFinite = true) :
    ∃ numerator denominator,
      Exact.ofBinary64 number =
          .finite number.isNegative numerator denominator ∧
        0 < denominator ∧
        numerator * unitsOfOne = units (magnitude number) * denominator := by
  have exponent : number.exponentField ≠ 2047 := of_decide_eq_true finite
  rw [units, ← exponentField_eq, ← fractionField_eq]
  exact ofFields_eq_finite _ exponent _

end MiddleEnd.Number
