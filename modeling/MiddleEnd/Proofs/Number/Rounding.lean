import Mathlib.Algebra.Order.Ring.Nat
import MiddleEnd.Number.Rounding

/-!
# Bounds for rounded fractions

A rounded fraction is no more than one half away from the fraction itself, which
is stated on naturals: twice the numerator against odd multiples of the
denominator.  Whatever the tie rule is, rounding depends on the value of the
fraction alone, and fractions that are more than one apart stay apart.
-/

namespace MiddleEnd.Number

/-- The nearest integer is the quotient, or the next one from one half on. -/
theorem roundDiv_cases (tie : Tie) (numerator denominator : Nat) :
    (roundDiv tie numerator denominator = numerator / denominator ∧
      2 * (numerator % denominator) ≤ denominator) ∨
      (roundDiv tie numerator denominator = numerator / denominator + 1 ∧
        denominator ≤ 2 * (numerator % denominator)) := by
  unfold roundDiv
  dsimp only
  split
  · exact Or.inl ⟨rfl, by omega⟩
  · split
    · exact Or.inr ⟨rfl, by omega⟩
    · -- Halfway, the rule decides between the two neighbours.
      cases tie with
      | toEven =>
          rcases Nat.mod_two_eq_zero_or_one (numerator / denominator) with even | odd
          · exact Or.inl ⟨by rw [even, Nat.add_zero], by omega⟩
          · exact Or.inr ⟨by rw [odd], by omega⟩
      | away => exact Or.inr ⟨rfl, by omega⟩

/-- Rounding adds at most one half. -/
theorem two_mul_roundDiv_mul_le (tie : Tie) (numerator denominator : Nat) :
    2 * (roundDiv tie numerator denominator * denominator) ≤
      2 * numerator + denominator := by
  have parts := Nat.div_add_mod' numerator denominator
  rcases roundDiv_cases tie numerator denominator with ⟨rounded, _⟩ | ⟨rounded, half⟩
  · rw [rounded]
    omega
  · rw [rounded, Nat.add_mul]
    omega

/-- Rounding takes away at most one half. -/
theorem two_mul_le_roundDiv_mul
    (tie : Tie)
    (numerator : Nat)
    {denominator : Nat}
    (positive : 0 < denominator) :
    2 * numerator ≤
      2 * (roundDiv tie numerator denominator * denominator) + denominator := by
  have parts := Nat.div_add_mod' numerator denominator
  have remainder := Nat.mod_lt numerator positive
  rcases roundDiv_cases tie numerator denominator with ⟨rounded, half⟩ | ⟨rounded, _⟩
  · rw [rounded]
    omega
  · rw [rounded, Nat.add_mul]
    omega

section

variable {tie : Tie} {numerator denominator bound : Nat}

theorem roundDiv_le
    (below : 2 * numerator < 2 * (bound * denominator) + denominator) :
    roundDiv tie numerator denominator ≤ bound := by
  by_contra above
  have least := Nat.mul_le_mul_right denominator (Nat.lt_of_not_le above)
  rw [Nat.succ_mul] at least
  have bounded := two_mul_roundDiv_mul_le tie numerator denominator
  omega

theorem le_roundDiv
    (positive : 0 < denominator)
    (above : 2 * (bound * denominator) < 2 * numerator + denominator) :
    bound ≤ roundDiv tie numerator denominator := by
  by_contra below
  have most := Nat.mul_le_mul_right denominator (Nat.lt_of_not_le below)
  rw [Nat.succ_mul] at most
  have bounded := two_mul_le_roundDiv_mul tie numerator positive
  omega

theorem two_mul_le_of_roundDiv_le
    (positive : 0 < denominator)
    (most : roundDiv tie numerator denominator ≤ bound) :
    2 * numerator ≤ 2 * (bound * denominator) + denominator := by
  have bounded := two_mul_le_roundDiv_mul tie numerator positive
  have scaled := Nat.mul_le_mul_right denominator most
  omega

theorem two_mul_le_of_le_roundDiv
    (least : bound ≤ roundDiv tie numerator denominator) :
    2 * (bound * denominator) ≤ 2 * numerator + denominator := by
  have bounded := two_mul_roundDiv_mul_le tie numerator denominator
  have scaled := Nat.mul_le_mul_right denominator least
  omega

end

/-- Fractions that are more than one apart round to different integers. -/
theorem roundDiv_lt_roundDiv
    (tie : Tie)
    {numerator other denominator : Nat}
    (positive : 0 < denominator)
    (apart : numerator + denominator < other) :
    roundDiv tie numerator denominator < roundDiv tie other denominator := by
  have lower := two_mul_roundDiv_mul_le tie numerator denominator
  have upper := two_mul_le_roundDiv_mul tie other positive
  apply Nat.lt_of_mul_lt_mul_right (a := denominator)
  omega

/-- Rounding depends on the value of the fraction only. -/
theorem roundDiv_mul_right
    (tie : Tie)
    (numerator denominator : Nat)
    {factor : Nat}
    (positive : 0 < factor) :
    roundDiv tie (numerator * factor) (denominator * factor) =
      roundDiv tie numerator denominator := by
  have doubled :
      2 * (numerator % denominator * factor) =
        2 * (numerator % denominator) * factor := by
    rw [Nat.mul_assoc]
  simp only [roundDiv, Nat.mul_div_mul_right _ _ positive,
    Nat.mul_mod_mul_right, doubled, Nat.mul_lt_mul_right positive]

theorem roundDiv_congr
    (tie : Tie)
    {numerator denominator other otherDenominator : Nat}
    (positive : 0 < denominator)
    (otherPositive : 0 < otherDenominator)
    (same : numerator * otherDenominator = other * denominator) :
    roundDiv tie numerator denominator = roundDiv tie other otherDenominator := by
  rw [← roundDiv_mul_right tie numerator denominator otherPositive, same,
    Nat.mul_comm denominator, roundDiv_mul_right tie other otherDenominator positive]

end MiddleEnd.Number
