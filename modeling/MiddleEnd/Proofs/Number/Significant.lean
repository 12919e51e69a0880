import MiddleEnd.Proofs.Number.Positional
import MiddleEnd.Proofs.Number.Rounding

/-!
# Seventeen significant digits

A number is written with seventeen significant digits if they take no more than
twenty decimals, and with sixteen decimals otherwise.  What is left out then
depends on the size of the number.  A large number has its digits before the
point and loses none.  A faint one, which is at most `0.0001` when it is rounded
to twenty decimals, is told by its first sixteen decimals alone.

Numbers that are not faint keep all of their significant digits, and the text
shows how many of these are decimals.
-/

namespace MiddleEnd.Number

open DecimalFormat (literal)

theorem scaled_eq (numerator denominator decimals : Nat) :
    literal.scaled numerator denominator decimals =
      roundDiv .toEven (numerator * 10 ^ decimals) denominator :=
  rfl

theorem fits_iff (count : Nat) :
    literal.fits count = true ↔ 10 ^ 16 ≤ count ∧ count < 10 ^ 17 := by
  rw [DecimalFormat.fits, Bool.and_eq_true, decide_eq_true_iff,
    decide_eq_true_iff]
  rfl

theorem mul_pow_add (numerator decimals more : Nat) :
    numerator * 10 ^ (decimals + more) =
      10 ^ more * (numerator * 10 ^ decimals) := by
  rw [Nat.pow_add, ← Nat.mul_assoc, Nat.mul_comm]

/-- The count of decimal units that is written. -/
def printed (numerator denominator : Nat) : Nat :=
  literal.scaled numerator denominator (literal.decimals numerator denominator)

/-- The number is at most `0.0001` when it is rounded to twenty decimals. -/
def IsFaint (numerator denominator : Nat) : Prop :=
  literal.scaled numerator denominator 20 ≤ 10 ^ 16

instance (numerator denominator : Nat) : Decidable (IsFaint numerator denominator) :=
  Nat.decLe _ _

/-! ## The number of decimals -/

section

variable {numerator denominator : Nat} (positive : 0 < denominator)

include positive

theorem scaled_zero (decimals : Nat) : literal.scaled 0 denominator decimals = 0 := by
  rw [scaled_eq, Nat.zero_mul]
  apply Nat.le_zero.1
  apply roundDiv_le
  omega

/-- One more decimal adds no more than one digit. -/
theorem scaled_succ_lt
    {decimals : Nat}
    (below : literal.scaled numerator denominator decimals < 10 ^ 16) :
    literal.scaled numerator denominator (decimals + 1) < 10 ^ 17 := by
  rw [scaled_eq] at below
  have bounded := two_mul_le_of_roundDiv_le positive (Nat.le_sub_one_of_lt below)
  have most :
      literal.scaled numerator denominator (decimals + 1) ≤ 10 ^ 17 - 1 := by
    rw [scaled_eq, mul_pow_add]
    apply roundDiv_le
    omega
  omega

/-- Seventeen digits fit, or sixteen decimals are taken for want of a place. -/
theorem decimals_cases (nonzero : numerator ≠ 0) :
    (literal.decimals numerator denominator ≤ 20 ∧
      10 ^ 16 ≤ printed numerator denominator ∧
      printed numerator denominator < 10 ^ 17) ∨
      (literal.decimals numerator denominator = 16 ∧
        (literal.scaled numerator denominator 20 < 10 ^ 16 ∨
          10 ^ 17 ≤ literal.scaled numerator denominator 0)) := by
  have chosen :
      literal.decimals numerator denominator =
        ((List.range 21).reverse.find? fun decimals =>
          literal.fits
            (literal.scaled numerator denominator decimals)).getD 16 :=
    if_neg nonzero
  cases found :
    (List.range 21).reverse.find? fun decimals =>
      literal.fits (literal.scaled numerator denominator decimals) with
  | some place =>
      rw [found, Option.getD_some] at chosen
      have inRange := List.mem_of_find?_eq_some found
      have fitting := List.find?_some found
      rw [List.mem_reverse, List.mem_range] at inRange
      rw [fits_iff] at fitting
      left
      rw [printed, chosen]
      exact ⟨Nat.le_of_lt_succ inRange, fitting⟩
  | none =>
      rw [found, Option.getD_none] at chosen
      refine Or.inr ⟨chosen, ?_⟩
      have unfit :
          ∀ place ≤ 20,
            ¬ (10 ^ 16 ≤ literal.scaled numerator denominator place ∧
              literal.scaled numerator denominator place < 10 ^ 17) := by
        intro place bounded
        rw [← fits_iff]
        apply List.find?_eq_none.1 found
        rw [List.mem_reverse, List.mem_range]
        exact Nat.lt_succ_of_le bounded
      by_contra between
      rw [not_or, Nat.not_lt, Nat.not_le] at between
      -- From below the window of seventeen digits, no step leads beyond it.
      have below :
          ∀ place ≤ 20,
            literal.scaled numerator denominator place < 10 ^ 16 := by
        intro place bounded
        induction place with
        | zero =>
            have here := unfit 0 bounded
            omega
        | succ place hypothesis =>
            have here := unfit (place + 1) bounded
            have next := scaled_succ_lt positive (hypothesis (by omega))
            omega
      have twenty := below 20 le_rfl
      omega

/-! ## Faint numbers -/

theorem not_isFaint_of_le_scaled
    {decimals : Nat}
    (few : decimals < 20)
    (least : 10 ^ 16 ≤ literal.scaled numerator denominator decimals) :
    ¬ IsFaint numerator denominator := by
  intro faint
  rw [scaled_eq] at least
  rw [IsFaint, scaled_eq] at faint
  have lower := two_mul_le_of_le_roundDiv least
  have upper := two_mul_le_of_roundDiv_le positive faint
  have tenfold :
      10 * (numerator * 10 ^ decimals) ≤ numerator * 10 ^ 20 := by
    rw [show 20 = decimals + (20 - decimals) by omega, mul_pow_add]
    apply Nat.mul_le_mul_right
    exact Nat.le_self_pow (by omega) 10
  omega

theorem scaled_sixteen_le (faint : IsFaint numerator denominator) :
    literal.scaled numerator denominator 16 ≤ 10 ^ 12 := by
  rw [IsFaint, scaled_eq, mul_pow_add numerator 16 4] at faint
  have upper := two_mul_le_of_roundDiv_le positive faint
  rw [scaled_eq]
  apply roundDiv_le
  omega

theorem le_scaled_sixteen
    (least : 10 ^ 16 ≤ literal.scaled numerator denominator 20) :
    10 ^ 12 ≤ literal.scaled numerator denominator 16 := by
  rw [scaled_eq, mul_pow_add numerator 16 4] at least
  have lower := two_mul_le_of_le_roundDiv least
  rw [scaled_eq]
  apply le_roundDiv positive
  omega

/-- A faint number is written with sixteen decimals, or as if it were. -/
theorem positional_of_isFaint (faint : IsFaint numerator denominator) :
    positional (literal.decimals numerator denominator)
        (printed numerator denominator) =
      positional 16 (literal.scaled numerator denominator 16) := by
  by_cases zero : numerator = 0
  · subst zero
    rw [printed, scaled_zero positive, scaled_zero positive, positional_eq_iff,
      Nat.zero_mul, Nat.zero_mul]
  · rcases decimals_cases positive zero with ⟨few, least, _⟩ | ⟨sixteen, _⟩
    · have twenty : literal.decimals numerator denominator = 20 := by
        by_contra other
        exact not_isFaint_of_le_scaled positive (by omega) least faint
      rw [printed, twenty] at least ⊢
      have count : literal.scaled numerator denominator 20 = 10 ^ 16 :=
        Nat.le_antisymm faint least
      have sixteen : literal.scaled numerator denominator 16 = 10 ^ 12 :=
        Nat.le_antisymm (scaled_sixteen_le positive faint)
          (le_scaled_sixteen positive least)
      rw [count, sixteen, positional_eq_iff, ← Nat.pow_add, ← Nat.pow_add]
    · rw [printed, sixteen]

end

/-! ## Full numbers -/

/--
A count that shows all significant digits: seventeen of them, or those of a
number that has at least seventeen before its point.
-/
inductive IsFull : (decimals count : Nat) → Prop where
  | fitting
      {decimals count : Nat}
      (few : decimals ≤ 20)
      (least : 10 ^ 16 ≤ count)
      (most : count < 10 ^ 17) :
      IsFull decimals count
  | large
      {decimals count : Nat}
      (sixteen : decimals = 16)
      (least : (10 ^ 17 - 1) * 10 ^ 16 < count) :
      IsFull decimals count

section

variable {numerator denominator : Nat} (positive : 0 < denominator)

include positive

theorem isFull_of_not_isFaint (bright : ¬ IsFaint numerator denominator) :
    IsFull (literal.decimals numerator denominator)
      (printed numerator denominator) := by
  rw [IsFaint, Nat.not_le] at bright
  have nonzero : numerator ≠ 0 := by
    rintro rfl
    rw [scaled_zero positive] at bright
    exact Nat.not_lt_zero _ bright
  rcases decimals_cases positive nonzero with
    ⟨few, least, most⟩ | ⟨sixteen, faint | large⟩
  · exact .fitting few least most
  · omega
  · refine .large sixteen ?_
    rw [scaled_eq, Nat.pow_zero, Nat.mul_one] at large
    have lower := two_mul_le_of_le_roundDiv large
    rw [printed, sixteen, scaled_eq]
    apply le_roundDiv positive
    omega

/-- What is written for a number that is not faint stands for more than `0.0001`. -/
theorem pow_lt_of_not_isFaint (bright : ¬ IsFaint numerator denominator) :
    10 ^ literal.decimals numerator denominator <
      printed numerator denominator * 10 ^ 4 := by
  cases isFull_of_not_isFaint positive bright with
  | fitting few least most =>
      by_cases twenty : literal.decimals numerator denominator = 20
      · rw [IsFaint, Nat.not_le] at bright
        rw [printed, twenty]
        omega
      · have fewer : literal.decimals numerator denominator ≤ 19 := by omega
        have bounded := Nat.pow_le_pow_right (by decide : 0 < 10) fewer
        omega
  | large sixteen least =>
      rw [sixteen]
      omega

end

namespace IsFull

variable {decimals count otherDecimals other : Nat}

/-- More decimals of the same number are more digits. -/
theorem not_lt
    (least : 10 ^ 16 ≤ count)
    (most : other < 10 ^ 17)
    (same : count * 10 ^ otherDecimals = other * 10 ^ decimals) :
    ¬ decimals < otherDecimals := by
  intro fewer
  rw [show otherDecimals = decimals + (otherDecimals - decimals) by omega,
    mul_pow_add, ← Nat.mul_assoc,
    Nat.mul_right_cancel_iff (Nat.pow_pos (by decide))] at same
  have tenfold := Nat.le_self_pow (show otherDecimals - decimals ≠ 0 by omega) 10
  have scaled := Nat.mul_le_mul_right count tenfold
  omega

theorem ne_of_large
    (most : count < 10 ^ 17)
    (least : (10 ^ 17 - 1) * 10 ^ 16 < other) :
    count * 10 ^ 16 ≠ other * 10 ^ decimals := by
  intro same
  have grown := Nat.le_mul_of_pos_right other
    (Nat.pow_pos (n := decimals) (by decide : 0 < 10))
  omega

/-- The text of a full number shows how many decimals were taken. -/
theorem decimals_eq
    (full : IsFull decimals count)
    (otherFull : IsFull otherDecimals other)
    (same : count * 10 ^ otherDecimals = other * 10 ^ decimals) :
    decimals = otherDecimals := by
  cases full with
  | fitting few least most =>
      cases otherFull with
      | fitting otherFew otherLeast otherMost =>
          have notLess := not_lt least otherMost same
          have notGreater := not_lt otherLeast most same.symm
          omega
      | large sixteen otherLeast =>
          rw [sixteen] at same
          exact absurd same (ne_of_large most otherLeast)
  | large sixteen least =>
      cases otherFull with
      | fitting otherFew otherLeast otherMost =>
          rw [sixteen] at same
          exact absurd same.symm (ne_of_large otherMost least)
      | large otherSixteen otherLeast => rw [sixteen, otherSixteen]

theorem le_count (full : IsFull decimals count) : 10 ^ 16 ≤ count := by
  cases full with
  | fitting few least most => exact least
  | large sixteen least => omega

end IsFull

/-! ## Numbers that keep their distance -/

/--
The larger of two numbers is more than one part in `2 ^ 53` larger, as it is for
numbers with `53` binary digits.
-/
def Spaced (number larger : Nat) : Prop :=
  number < larger → number < 2 ^ 53 * (larger - number)

section

variable {numerator other denominator : Nat} (positive : 0 < denominator)

include positive

/-- Seventeen decimal digits tell numbers with `53` binary digits apart. -/
theorem scaled_lt_scaled
    (spaced : Spaced numerator other)
    (less : numerator < other)
    {decimals : Nat}
    (least : 10 ^ 16 ≤ literal.scaled numerator denominator decimals) :
    literal.scaled numerator denominator decimals <
      literal.scaled other denominator decimals := by
  have gap := Nat.mul_lt_mul_of_pos_right (spaced less)
    (Nat.pow_pos (n := decimals) (by decide : 0 < 10))
  have whole :
      other * 10 ^ decimals =
        numerator * 10 ^ decimals + (other - numerator) * 10 ^ decimals := by
    rw [← Nat.add_mul, Nat.add_sub_cancel' less.le]
  rw [scaled_eq] at least
  have lower := two_mul_le_of_le_roundDiv least
  rw [Nat.mul_assoc] at gap
  apply roundDiv_lt_roundDiv _ positive
  show numerator * 10 ^ decimals + denominator < other * 10 ^ decimals
  omega

theorem positional_ne_of_isFaint
    (faint : IsFaint numerator denominator)
    (bright : ¬ IsFaint other denominator) :
    positional (literal.decimals numerator denominator)
        (printed numerator denominator) ≠
      positional (literal.decimals other denominator)
        (printed other denominator) := by
  rw [positional_of_isFaint positive faint, Ne, positional_eq_iff]
  intro same
  have most := scaled_sixteen_le positive faint
  have least := pow_lt_of_not_isFaint positive bright
  have upper := Nat.mul_le_mul_right
    (10 ^ literal.decimals other denominator) most
  omega

/-- Numbers that are not faint are told apart by their texts. -/
theorem eq_of_positional_eq_of_not_isFaint
    (spaced : Spaced numerator other)
    (otherSpaced : Spaced other numerator)
    (bright : ¬ IsFaint numerator denominator)
    (otherBright : ¬ IsFaint other denominator)
    (same :
      positional (literal.decimals numerator denominator)
          (printed numerator denominator) =
        positional (literal.decimals other denominator)
          (printed other denominator)) :
    numerator = other := by
  have full := isFull_of_not_isFaint positive bright
  have otherFull := isFull_of_not_isFaint positive otherBright
  have decimals := full.decimals_eq otherFull ((positional_eq_iff ..).1 same)
  rw [decimals] at same
  have counts := eq_of_positional_eq same
  have least := full.le_count
  have otherLeast := otherFull.le_count
  rw [printed, printed, decimals] at counts
  rw [printed, decimals] at least
  rw [printed] at otherLeast
  rcases Nat.lt_trichotomy numerator other with less | equal | greater
  · exact absurd counts (scaled_lt_scaled positive spaced less least).ne
  · exact equal
  · exact absurd counts
      (scaled_lt_scaled positive otherSpaced greater otherLeast).ne'

/-- Texts are the same for equal numbers, and for faint ones that share them. -/
theorem positional_decimals_eq_iff
    (spaced : Spaced numerator other)
    (otherSpaced : Spaced other numerator) :
    positional (literal.decimals numerator denominator)
          (printed numerator denominator) =
        positional (literal.decimals other denominator)
          (printed other denominator) ↔
      numerator = other ∨
        (IsFaint numerator denominator ∧ IsFaint other denominator ∧
          literal.scaled numerator denominator 16 =
            literal.scaled other denominator 16) := by
  constructor
  · intro same
    by_cases faint : IsFaint numerator denominator
    · by_cases otherFaint : IsFaint other denominator
      · rw [positional_of_isFaint positive faint,
          positional_of_isFaint positive otherFaint] at same
        exact Or.inr ⟨faint, otherFaint, eq_of_positional_eq same⟩
      · exact absurd same (positional_ne_of_isFaint positive faint otherFaint)
    · by_cases otherFaint : IsFaint other denominator
      · exact absurd same.symm
          (positional_ne_of_isFaint positive otherFaint faint)
      · exact Or.inl
          (eq_of_positional_eq_of_not_isFaint positive spaced otherSpaced faint
            otherFaint same)
  · rintro (rfl | ⟨faint, otherFaint, same⟩)
    · rfl
    · rw [positional_of_isFaint positive faint,
        positional_of_isFaint positive otherFaint, same]

end

end MiddleEnd.Number
