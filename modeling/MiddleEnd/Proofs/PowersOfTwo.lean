import Mathlib.Algebra.Order.Ring.Int
import MiddleEnd.Pass.StrengthReduction

/-!
# Powers of two among the words

A word is tested by its bits and its exponent is found by halving.  Read as
numbers, the words that pass the test are the powers of two from the zeroth to
the sixty-second, and the exponent is the one that the word was made with.

`Halving.Ends` follows the halvings one by one.  They come to an end from every
word, after as many rounds as its logarithm says, and what is left then is the
quotient by the power of two with this exponent.
-/

namespace MiddleEnd

/-- A power of two is positive, so clamping it loses nothing. -/
theorem toNatClampNeg_eq_two_pow_iff (word : Int64) (exponent : Nat) :
    word.toNatClampNeg = 2 ^ exponent ↔ word.toInt = 2 ^ exponent := by
  have positive := Nat.two_pow_pos exponent
  have cast : ((2 ^ exponent : Nat) : Int) = 2 ^ exponent :=
    Nat.cast_pow 2 exponent
  rw [Int64.toNatClampNeg, ← cast]
  omega

theorem le_of_toInt_eq_two_pow
    {word : Int64}
    {exponent : Nat}
    (power : word.toInt = 2 ^ exponent) :
    exponent ≤ 62 := by
  have number := (toNatClampNeg_eq_two_pow_iff word exponent).2 power
  have bound := word.toNatClampNeg_lt
  rw [number, Nat.pow_lt_pow_iff_right (by decide)] at bound
  omega

theorem isPowerOfTwo_eq (word : Int64) :
    isPowerOfTwo word = (decide (0 < word) && word &&& (word - 1) == 0) := by
  by_cases positive : 0 < word
  · simp [isPowerOfTwo, testPowerOfTwo, positive]
  · simp [isPowerOfTwo, testPowerOfTwo, positive]

/-- On a positive word the test by bits is the one on the number. -/
theorem isPowerOfTwo_iff_toNatClampNeg {word : Int64} (positive : 0 < word) :
    isPowerOfTwo word = true ↔ word.toNatClampNeg.isPowerOfTwo := by
  have number : word.toBitVec.toNat = word.toNatClampNeg :=
    Int64.toNat_toBitVec_of_le (Int64.le_of_lt positive)
  have nonzero : word.toNatClampNeg ≠ 0 := by
    rw [← Nat.pos_iff_ne_zero, Int64.toNatClampNeg_pos_iff]
    exact positive
  have predecessor :
      (word - 1).toBitVec.toNat = word.toNatClampNeg - 1 := by
    have bound := word.toNatClampNeg_lt
    rw [Int64.toBitVec_sub, Int64.toBitVec_one, BitVec.toNat_sub, number]
    simp
    omega
  have bits :
      (word &&& (word - 1)).toBitVec.toNat =
        word.toNatClampNeg &&& (word.toNatClampNeg - 1) := by
    rw [Int64.toBitVec_and, BitVec.toNat_and, number, predecessor]
  rw [← Nat.and_sub_one_eq_zero_iff_isPowerOfTwo nonzero, ← bits]
  simp [isPowerOfTwo_eq, positive, ← Int64.toBitVec_inj, ← BitVec.toNat_inj]

/-- The words that pass the test, as numbers. -/
theorem isPowerOfTwo_iff (word : Int64) :
    isPowerOfTwo word = true ↔ ∃ exponent ≤ 62, word.toInt = 2 ^ exponent := by
  constructor
  · intro power
    have positive : 0 < word := by
      simp only [isPowerOfTwo_eq, Bool.and_eq_true, decide_eq_true_eq] at power
      exact power.1
    rcases (isPowerOfTwo_iff_toNatClampNeg positive).1 power with
      ⟨exponent, number⟩
    have power := (toNatClampNeg_eq_two_pow_iff word exponent).1 number
    exact ⟨exponent, le_of_toInt_eq_two_pow power, power⟩
  · rintro ⟨exponent, _, power⟩
    have number := (toNatClampNeg_eq_two_pow_iff word exponent).2 power
    have positive : 0 < word := by
      rw [← Int64.toNatClampNeg_pos_iff, number]
      exact Nat.two_pow_pos exponent
    exact (isPowerOfTwo_iff_toNatClampNeg positive).2 ⟨exponent, number⟩

/-! ## Halving -/

namespace Halving

/-- So many halvings lead from one state to the other, where no more is made. -/
inductive Ends : Nat → Halving → Halving → Prop where
  | stop {state : Halving} (halted : state.next? = none) : Ends 0 state state
  | round
      {rounds : Nat}
      {state next last : Halving}
      (halved : state.next? = some next)
      (later : Ends rounds next last) :
      Ends (rounds + 1) state last

theorem log2_of_next?_eq_none
    {state : Halving}
    (halted : state.next? = none) :
    state.rest.toNatClampNeg.log2 = 0 := by
  have few : ¬ 1 < state.rest := by
    intro more
    rw [next?, if_pos more] at halted
    cases halted
  rw [Int64.lt_iff_toInt_lt, Int64.toInt_one] at few
  rw [Nat.log2_def, if_neg]
  rw [Int64.toNatClampNeg]
  omega

theorem log2_of_next?_eq_some
    {state next : Halving}
    (halved : state.next? = some next) :
    state.rest.toNatClampNeg.log2 = next.rest.toNatClampNeg.log2 + 1 := by
  rcases (next?_eq_some_iff state next).1 halved with ⟨more, rfl⟩
  rw [Int64.lt_iff_toInt_lt, Int64.toInt_one] at more
  rw [Nat.log2_def, if_pos, toNatClampNeg_shiftRight_one]
  rw [Int64.toNatClampNeg]
  omega

/-- The halvings end, after as many rounds as the logarithm says. -/
theorem ends_finish (state : Halving) :
    Ends state.rest.toNatClampNeg.log2 state state.finish := by
  -- Each round takes one off the logarithm of what is left.
  fun_induction finish state with
  | case1 state next halved hypothesis =>
      rw [log2_of_next?_eq_some halved]
      exact .round halved hypothesis
  | case2 state halted =>
      rw [log2_of_next?_eq_none halted]
      exact .stop halted

namespace Ends

variable {rounds : Nat} {state last : Halving}

theorem count_eq (ends : Ends rounds state last) :
    last.count = state.count + Int64.ofNat rounds := by
  induction ends with
  | stop => exact (Int64.add_zero _).symm
  | @round rounds state next last halved _ hypothesis =>
      rcases (next?_eq_some_iff state next).1 halved with ⟨_, rfl⟩
      rw [hypothesis, Int64.add_assoc, Int64.add_comm 1, Int64.ofNat_add]
      rfl

theorem toInt_rest (ends : Ends rounds state last) :
    last.rest.toInt = state.rest.toInt / 2 ^ rounds := by
  induction ends with
  | stop => exact (Int.ediv_one _).symm
  | @round rounds state next last halved _ hypothesis =>
      rcases (next?_eq_some_iff state next).1 halved with ⟨_, rfl⟩
      rw [hypothesis, toInt_shiftRight_one,
        Int.ediv_ediv_of_nonneg (by decide), Int.pow_succ']

end Ends

end Halving

theorem exponentOf_eq_log2 (word : Int64) :
    exponentOf word = Int64.ofNat word.toNatClampNeg.log2 := by
  have count := (Halving.ends_finish ⟨word, 0⟩).count_eq
  rw [exponentOf, count, Int64.zero_add]

/-- A power of two is halved until one is left, once for each factor. -/
theorem Halving.ends_of_eq_two_pow
    {word : Int64}
    {exponent : Nat}
    (power : word.toInt = 2 ^ exponent) :
    Halving.Ends exponent ⟨word, 0⟩ ⟨1, exponentOf word⟩ := by
  have ends := Halving.ends_finish ⟨word, 0⟩
  have number := (toNatClampNeg_eq_two_pow_iff word exponent).2 power
  rw [number, Nat.log2_two_pow] at ends
  have one : (Halving.finish ⟨word, 0⟩).rest = 1 := by
    rw [← Int64.toInt_inj, ends.toInt_rest, power, Int64.toInt_one]
    exact Int.ediv_self (Int.pow_ne_zero (by decide))
  rw [exponentOf, ← one]
  exact ends

theorem exponentOf_eq
    {word : Int64}
    {exponent : Nat}
    (power : word.toInt = 2 ^ exponent) :
    exponentOf word = Int64.ofNat exponent := by
  have number := (toNatClampNeg_eq_two_pow_iff word exponent).2 power
  rw [exponentOf_eq_log2, number, Nat.log2_two_pow]

end MiddleEnd
