import Mathlib.Algebra.Order.Group.Unbundled.Int
import Mathlib.Data.Int.ModEq
import MiddleEnd.Pass.Folding

/-!
# Folding of integers as arithmetic on words

A word stands for the numbers that differ from its own by a multiple of
`2 ^ 64`, and no two words stand for the same number.  Folding an operator
between two words gives the word that stands for the exact result, where a
quotient is truncated toward zero.  The least word divided by minus one has a
quotient that is no word, and is looked out for: the dividend itself stands for
it.  So folding puts every dividend back together from its quotient and its
remainder.
-/

namespace MiddleEnd

/-! ## Words that stand for numbers -/

/-- The word stands for the number: they differ by a multiple of `2 ^ 64`. -/
def StandsFor (word : Int64) (number : Int) : Prop :=
  word.toInt ≡ number [ZMOD 2 ^ 64]

namespace StandsFor

variable {first second : Int64} {number other : Int}

theorem toInt (word : Int64) : StandsFor word word.toInt :=
  Int.ModEq.refl _

/-- A word whose value is reduced to the range of words stands for it all the same. -/
theorem of_bmod
    {word : Int64}
    (reduced : word.toInt = number.bmod (2 ^ 64)) :
    StandsFor word number := by
  rw [StandsFor, reduced]
  exact Int.bmod_emod

/-- No two words stand for one number. -/
theorem eq
    (firstStands : StandsFor first number)
    (secondStands : StandsFor second number) :
    first = second := by
  have apart : (2 ^ 64 : Int) ∣ second.toInt - first.toInt :=
    (firstStands.trans secondStands.symm).dvd
  have firstLow := first.le_toInt
  have firstHigh := first.toInt_lt
  have secondLow := second.le_toInt
  have secondHigh := second.toInt_lt
  rw [← Int64.toInt_inj]
  omega

theorem add
    (firstStands : StandsFor first number)
    (secondStands : StandsFor second other) :
    StandsFor (first + second) (number + other) :=
  (of_bmod (first.toInt_add second)).trans
    (Int.ModEq.add firstStands secondStands)

theorem sub
    (firstStands : StandsFor first number)
    (secondStands : StandsFor second other) :
    StandsFor (first - second) (number - other) :=
  (of_bmod (first.toInt_sub second)).trans
    (Int.ModEq.sub firstStands secondStands)

theorem mul
    (firstStands : StandsFor first number)
    (secondStands : StandsFor second other) :
    StandsFor (first * second) (number * other) :=
  (of_bmod (first.toInt_mul second)).trans
    (Int.ModEq.mul firstStands secondStands)

theorem neg (stands : StandsFor first number) : StandsFor (-first) (-number) :=
  (of_bmod first.toInt_neg).trans (Int.ModEq.neg stands)

end StandsFor

/-! ## Operators -/

namespace BinaryOp

/-- The operation on integers that an operator of arithmetic is meant to be. -/
def onIntegers? : BinaryOp → Option (Int → Int → Int)
  | .add => some (· + ·)
  | .subtract => some (· - ·)
  | .multiply => some (· * ·)
  | .divide => some Int.tdiv
  | .modulo => some Int.tmod
  | _ => none

theorem fold_add (left right : Int64) :
    BinaryOp.add.fold (.int left) (.int right) =
      .ok (some (.int (left + right))) :=
  rfl

theorem fold_multiply (left right : Int64) :
    BinaryOp.multiply.fold (.int left) (.int right) =
      .ok (some (.int (left * right))) :=
  rfl

/-- Elsewhere than at the least word and minus one, the quotient is a word. -/
theorem toInt_div_of_inside
    {left right : Int64}
    (inside : ¬ (left = Int64.minValue ∧ right = -1)) :
    (left / right).toInt = left.toInt.tdiv right.toInt := by
  by_cases least : left = Int64.minValue
  · exact left.toInt_div_of_ne_right right fun minusOne => inside ⟨least, minusOne⟩
  · exact left.toInt_div_of_ne_left right least

theorem exists_fold_divide
    {right : Int64}
    (left : Int64)
    (nonzero : right ≠ 0) :
    ∃ quotient,
      BinaryOp.divide.fold (.int left) (.int right) =
          .ok (some (.int quotient)) ∧
        StandsFor quotient (left.toInt.tdiv right.toInt) := by
  by_cases outside : left = Int64.minValue ∧ right = -1
  · have folds :
        BinaryOp.divide.fold (.int left) (.int right) = .ok (some (.int left)) := by
      rw [fold, foldInt, if_neg nonzero, if_pos outside]
    refine ⟨left, folds, ?_⟩
    rw [outside.1, outside.2]
    exact (by decide : Int64.minValue.toInt ≡ 2 ^ 63 [ZMOD 2 ^ 64])
  · have folds :
        BinaryOp.divide.fold (.int left) (.int right) =
          .ok (some (.int (left / right))) := by
      rw [fold, foldInt, if_neg nonzero, if_neg outside]
    refine ⟨left / right, folds, ?_⟩
    rw [← toInt_div_of_inside outside]
    exact .toInt _

theorem exists_fold_modulo
    {right : Int64}
    (left : Int64)
    (nonzero : right ≠ 0) :
    ∃ remainder,
      BinaryOp.modulo.fold (.int left) (.int right) =
          .ok (some (.int remainder)) ∧
        remainder.toInt = left.toInt.tmod right.toInt := by
  by_cases minusOne : right = -1
  · have folds :
        BinaryOp.modulo.fold (.int left) (.int right) = .ok (some (.int 0)) := by
      rw [fold, foldInt, if_neg nonzero, if_pos minusOne]
    have one : (-1 : Int64).toInt = -1 := by decide
    refine ⟨0, folds, ?_⟩
    rw [minusOne, one, Int.tmod_neg, Int.tmod_one, Int64.toInt_zero]
  · have folds :
        BinaryOp.modulo.fold (.int left) (.int right) =
          .ok (some (.int (left % right))) := by
      rw [fold, foldInt, if_neg nonzero, if_neg minusOne]
    exact ⟨left % right, folds, left.toInt_mod right⟩

/-- Only a division by zero has no value. -/
theorem exists_fold_eq_error_iff (op : BinaryOp) (left right : Int64) :
    (∃ fault, op.fold (.int left) (.int right) = .error fault) ↔
      (op = .divide ∨ op = .modulo) ∧ right = 0 := by
  by_cases zero : right = 0
  · subst zero
    cases op <;> simp [fold, foldInt]
  · constructor
    · rintro ⟨fault, fails⟩
      cases op with
      | divide =>
          rcases exists_fold_divide left zero with ⟨_, folds, _⟩
          rw [folds] at fails
          cases fails
      | modulo =>
          rcases exists_fold_modulo left zero with ⟨_, folds, _⟩
          rw [folds] at fails
          cases fails
      | _ => cases fails
    · rintro ⟨_, divisor⟩
      exact absurd divisor zero

/-- An operator that has a value on two words gives the word for it. -/
theorem exists_fold_standsFor
    {op : BinaryOp}
    {operation : Int → Int → Int}
    {right : Int64}
    (meant : op.onIntegers? = some operation)
    (defined : op = .divide ∨ op = .modulo → right ≠ 0)
    (left : Int64) :
    ∃ word,
      op.fold (.int left) (.int right) = .ok (some (.int word)) ∧
        StandsFor word (operation left.toInt right.toInt) := by
  cases op with
  | add =>
      cases meant
      exact ⟨left + right, rfl, (StandsFor.toInt left).add (.toInt right)⟩
  | subtract =>
      cases meant
      exact ⟨left - right, rfl, (StandsFor.toInt left).sub (.toInt right)⟩
  | multiply =>
      cases meant
      exact ⟨left * right, rfl, (StandsFor.toInt left).mul (.toInt right)⟩
  | divide =>
      cases meant
      exact exists_fold_divide left (defined (Or.inl rfl))
  | modulo =>
      cases meant
      rcases exists_fold_modulo left (defined (Or.inr rfl)) with
        ⟨remainder, folds, number⟩
      exact ⟨remainder, folds, number ▸ StandsFor.toInt remainder⟩
  | _ => cases meant

end BinaryOp

/-! ## Quotients and remainders -/

theorem toInt_ne_zero {word : Int64} (nonzero : word ≠ 0) : word.toInt ≠ 0 := by
  rw [← Int64.toInt_zero, ne_eq, Int64.toInt_inj]
  exact nonzero

theorem abs_tmod_lt {divisor : Int} (dividend : Int) (nonzero : divisor ≠ 0) :
    |dividend.tmod divisor| < |divisor| := by
  rw [← Int.natCast_natAbs, ← Int.natCast_natAbs, Int.natAbs_tmod, Int.ofNat_lt]
  exact Nat.mod_lt _ (Int.natAbs_pos.2 nonzero)

/-- A remainder is zero or has the sign of the dividend. -/
theorem tmod_eq_zero_or_sign_eq (dividend divisor : Int) :
    dividend.tmod divisor = 0 ∨
      (dividend.tmod divisor).sign = dividend.sign := by
  rw [← Int.dvd_iff_tmod_eq_zero]
  by_cases divides : divisor ∣ dividend
  · exact Or.inl divides
  · right
    rw [Int.sign_tmod, if_neg divides]

/-- Whatever word stands for the quotient, the dividend comes back. -/
theorem StandsFor.recombine
    {left right quotient remainder : Int64}
    (quotientStands : StandsFor quotient (left.toInt.tdiv right.toInt))
    (number : remainder.toInt = left.toInt.tmod right.toInt) :
    quotient * right + remainder = left := by
  have together := (quotientStands.mul (.toInt right)).add (.toInt remainder)
  rw [number, Int.tdiv_mul_add_tmod] at together
  exact together.eq (.toInt left)

/-- An operator between operands that fold to words is folded after them. -/
theorem Expr.foldConstants_binary_of_words
    {op : BinaryOp}
    {left right : Expr}
    {first second word : Int64}
    {before after : Nat}
    (leftRun : left.foldConstants = ⟨.literal (.int first), .ok before⟩)
    (rightRun : right.foldConstants = ⟨.literal (.int second), .ok after⟩)
    (folds : op.fold (.int first) (.int second) = .ok (some (.int word))) :
    (Expr.binary op left right).foldConstants =
      ⟨.literal (.int word), .ok (before + after + 1)⟩ := by
  rw [foldConstants, transform]
  change (Transformed.andThen (Expr.binary op) left.foldConstants right
    right.foldConstants).bind Folding.rule.apply = _
  rw [leftRun, rightRun]
  simp [Transformed.andThen, Transformed.bind, Rule.apply, Folding.rule, folds,
    Except.map]

/-- The quotient times the divisor, plus the remainder. -/
def Expr.recombined (left right : Int64) : Expr :=
  let dividend := Expr.literal (.int left)
  let divisor := Expr.literal (.int right)
  .binary .add
    (.binary .multiply (.binary .divide dividend divisor) divisor)
    (.binary .modulo dividend divisor)

theorem Expr.foldConstants_recombined
    {right : Int64}
    (left : Int64)
    (nonzero : right ≠ 0) :
    (Expr.recombined left right).foldConstants =
      ⟨.literal (.int left), .ok 4⟩ := by
  have operand (word : Int64) :
      (Expr.literal (.int word)).foldConstants =
        ⟨.literal (.int word), .ok 0⟩ :=
    rfl
  rcases BinaryOp.exists_fold_divide left nonzero with
    ⟨quotient, divides, stands⟩
  rcases BinaryOp.exists_fold_modulo left nonzero with
    ⟨remainder, leaves, number⟩
  have quotientRun :=
    foldConstants_binary_of_words (operand left) (operand right) divides
  have remainderRun :=
    foldConstants_binary_of_words (operand left) (operand right) leaves
  have product :=
    foldConstants_binary_of_words quotientRun (operand right)
      (BinaryOp.fold_multiply _ _)
  have sum := foldConstants_binary_of_words product remainderRun
    (BinaryOp.fold_add _ _)
  rw [stands.recombine number] at sum
  exact sum

/--
Folding of integers is arithmetic modulo `2 ^ 64`.  An operator gives the word
that stands for the exact result, and so does negation, which undoes itself.  A
remainder is smaller than the divisor, zero or of the sign of the dividend, and
makes up the dividend together with the quotient, for all words.  Only a
division by zero fails.
-/
theorem BinaryOp.fold_words_modularly (left right : Int64) :
    (∀ (op : BinaryOp) (operation : Int → Int → Int),
      op.onIntegers? = some operation →
      (op = .divide ∨ op = .modulo → right ≠ 0) →
        ∃ word,
          op.fold (.int left) (.int right) = .ok (some (.int word)) ∧
            StandsFor word (operation left.toInt right.toInt)) ∧
    (∃ word,
      UnaryOp.negate.fold (.int left) = some (.int word) ∧
        StandsFor word (-left.toInt) ∧
        UnaryOp.negate.fold (.int word) = some (.int left)) ∧
    (right ≠ 0 →
      (∃ remainder,
        BinaryOp.modulo.fold (.int left) (.int right) =
            .ok (some (.int remainder)) ∧
          left.toInt.tdiv right.toInt * right.toInt + remainder.toInt =
            left.toInt ∧
          |remainder.toInt| < |right.toInt| ∧
          (remainder = 0 ∨ remainder.toInt.sign = left.toInt.sign)) ∧
      (Expr.recombined left right).foldConstants =
        ⟨.literal (.int left), .ok 4⟩) ∧
    (∀ op : BinaryOp,
      (∃ fault, op.fold (.int left) (.int right) = .error fault) ↔
        (op = .divide ∨ op = .modulo) ∧ right = 0) := by
  refine ⟨?_, ?_, ?_, ?_⟩
  · intro op operation meant defined
    exact exists_fold_standsFor meant defined left
  · refine ⟨-left, rfl, (StandsFor.toInt left).neg, ?_⟩
    show some (Literal.int (- -left)) = _
    rw [Int64.neg_neg]
  · intro nonzero
    refine ⟨?_, Expr.foldConstants_recombined left nonzero⟩
    rcases exists_fold_modulo left nonzero with ⟨remainder, leaves, number⟩
    refine ⟨remainder, leaves, ?_⟩
    rw [← Int64.toInt_inj, Int64.toInt_zero, number]
    exact ⟨Int.tdiv_mul_add_tmod _ _,
      abs_tmod_lt left.toInt (toInt_ne_zero nonzero),
      tmod_eq_zero_or_sign_eq left.toInt right.toInt⟩
  · intro op
    exact exists_fold_eq_error_iff op left right

/-- The least word divided by minus one, where the quotient does not fit. -/
theorem BinaryOp.fold_words_modularly_least :
    (-1 : Int64) ≠ 0 ∧
    (∃ word,
      BinaryOp.divide.fold (.int Int64.minValue) (.int (-1)) =
          .ok (some (.int word)) ∧
        StandsFor word (Int64.minValue.toInt.tdiv (-1 : Int64).toInt)) ∧
    (Expr.recombined Int64.minValue (-1)).foldConstants =
      ⟨.literal (.int Int64.minValue), .ok 4⟩ := by
  have nonzero : (-1 : Int64) ≠ 0 := by
    decide
  rcases fold_words_modularly Int64.minValue (-1) with
    ⟨operators, _, division, _⟩
  exact ⟨nonzero, operators .divide Int.tdiv rfl (fun _ => nonzero),
    (division nonzero).2⟩

end MiddleEnd
