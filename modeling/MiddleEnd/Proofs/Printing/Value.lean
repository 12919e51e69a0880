import MiddleEnd.Pass.Folding
import MiddleEnd.Proofs.Printing.Reader

/-!
# The value of a text

Arithmetic on integer literals folds to one literal, or fails where a divisor
is zero.  Regrouping keeps the value of a sum whose right operand is a sum or a
difference and of a product whose right operand is a product, for wrapping
words as for integers.  It does not keep the value of a product whose right
operand is a quotient or a remainder, which is written without parentheses all
the same.  Where no product has such an operand, the text of an expression
determines what folding makes of it.
-/

namespace MiddleEnd

namespace BinaryOp

/-- The operators of integer arithmetic. -/
def isArithmetic : BinaryOp → Bool
  | .add | .subtract | .multiply | .divide | .modulo => true
  | _ => false

/-- The word that an operator makes of two words, if it makes one. -/
def evaluate (op : BinaryOp) (left right : Int64) : Option Int64 :=
  match op.foldInt left right with
  | .ok (some (.int result)) => some result
  | _ => none

/-- Regrouping keeps the value, if a product is regrouped with products only. -/
theorem evaluate_regrouped
    {outer inner : BinaryOp}
    (regroups : outer.Regroups inner)
    (arithmetic : outer.isArithmetic = true)
    (whole : outer = .multiply → inner = .multiply)
    (left middle right : Int64) :
    ((inner.evaluate middle right).bind fun value => outer.evaluate left value) =
      (outer.evaluate left middle).bind fun value =>
        inner.evaluate value right := by
  rcases regroups with ⟨level, notSubtract, notDivide, notModulo⟩
  cases outer with
  | add =>
      cases inner with
      | add =>
          show some (left + (middle + right)) = some (left + middle + right)
          rw [Int64.add_assoc]
      | subtract =>
          show some (left + (middle - right)) = some (left + middle - right)
          rw [Int64.sub_eq_add_neg, Int64.sub_eq_add_neg, Int64.add_assoc]
      | _ => contradiction
  | multiply =>
      rw [whole rfl]
      show some (left * (middle * right)) = some (left * middle * right)
      rw [Int64.mul_assoc]
  | _ => contradiction

theorem evaluate_of_foldInt_ok
    {op : BinaryOp}
    {left right word : Int64}
    (folds : op.foldInt left right = .ok (some (.int word))) :
    op.evaluate left right = some word := by
  rw [evaluate, folds]

theorem evaluate_of_foldInt_error
    {op : BinaryOp}
    {left right : Int64}
    {fault : ArithmeticFault}
    (fails : op.foldInt left right = .error fault) :
    op.evaluate left right = none := by
  rw [evaluate, fails]

/-- Arithmetic on two words makes a word or fails. -/
theorem foldInt_of_isArithmetic
    {op : BinaryOp}
    (arithmetic : op.isArithmetic = true)
    (left right : Int64) :
    (∃ word, op.foldInt left right = .ok (some (.int word))) ∨
      ∃ fault, op.foldInt left right = .error fault := by
  cases op with
  | add => exact Or.inl ⟨left + right, rfl⟩
  | subtract => exact Or.inl ⟨left - right, rfl⟩
  | multiply => exact Or.inl ⟨left * right, rfl⟩
  | divide =>
      by_cases zero : right = 0
      · exact Or.inr ⟨.divisionByZero, if_pos zero⟩
      · rw [foldInt, if_neg zero]
        split
        · exact Or.inl ⟨left, rfl⟩
        · exact Or.inl ⟨left / right, rfl⟩
  | modulo =>
      by_cases zero : right = 0
      · exact Or.inr ⟨.moduloByZero, if_pos zero⟩
      · rw [foldInt, if_neg zero]
        split
        · exact Or.inl ⟨0, rfl⟩
        · exact Or.inl ⟨left % right, rfl⟩
  | _ => contradiction

end BinaryOp

/-- An expression of nonnegative integer literals and arithmetic. -/
inductive Arithmetic : Expr → Prop where
  | number {value : Int64} (nonnegative : 0 ≤ value) :
      Arithmetic (.literal (.int value))
  | binary {op : BinaryOp} {left right : Expr}
      (arithmetic : op.isArithmetic = true)
      (leftArithmetic : Arithmetic left)
      (rightArithmetic : Arithmetic right) :
      Arithmetic (.binary op left right)

theorem Arithmetic.plain
    {expression : Expr}
    (arithmetic : Arithmetic expression) :
    Plain expression := by
  induction arithmetic with
  | number nonnegative => exact Plain.number nonnegative
  | binary _ _ _ left right => exact Plain.binary _ left right

namespace Expr

/-- The word that an arithmetic expression evaluates to, if it has a value. -/
def value : Expr → Option Int64
  | .literal (.int word) => some word
  | .binary op left right =>
      left.value.bind fun first =>
        right.value.bind fun second => op.evaluate first second
  | _ => none

/-- No factor of the expression is a quotient or a remainder. -/
def wholeFactors : Expr → Bool
  | .binary .multiply left right => left.wholeFactors && right.wholeFactors
  | .binary .divide _ _ => false
  | .binary .modulo _ _ => false
  | _ => true

/-- No product has a quotient or a remainder among the factors on its right. -/
def WholeProducts (expression : Expr) : Prop :=
  ∀ node ∈ expression.subexprs, ∀ left right,
    node = .binary .multiply left right → right.wholeFactors = true

theorem wholeProducts_binary_iff (op : BinaryOp) (left right : Expr) :
    (Expr.binary op left right).WholeProducts ↔
      (op = .multiply → right.wholeFactors = true) ∧
        left.WholeProducts ∧ right.WholeProducts := by
  rw [WholeProducts, forall_subexprs_iff]
  simp [children, WholeProducts]

theorem wholeProducts_literal (literal : Literal) :
    (Expr.literal literal).WholeProducts := by
  simp [WholeProducts, subexprs]

theorem wholeFactors_of_precedence_ne
    {expression : Expr}
    (apart : expression.precedence ≠ BinaryOp.multiply.precedence) :
    expression.wholeFactors = true := by
  cases expression with
  | binary op left right =>
      cases op with
      | multiply => exact absurd rfl apart
      | divide => exact absurd rfl apart
      | modulo => exact absurd rfl apart
      | _ => rfl
  | _ => rfl

/-! ## Folding computes the value -/

theorem foldConstants_binary (op : BinaryOp) (left right : Expr) :
    (Expr.binary op left right).foldConstants =
      (Transformed.andThen (Expr.binary op) left.foldConstants right
        right.foldConstants).bind Folding.rule.apply := by
  rw [foldConstants, transform]
  rfl

/-- Folding makes the value of an arithmetic expression, or fails without one. -/
theorem foldConstants_of_arithmetic
    {expression : Expr}
    (arithmetic : Arithmetic expression) :
    (∃ word count,
      expression.value = some word ∧
        expression.foldConstants = ⟨.literal (.int word), .ok count⟩) ∨
    (expression.value = none ∧
      ∃ fault, expression.foldConstants.count = .error fault) := by
  induction arithmetic with
  | @number word _ => exact Or.inl ⟨word, 0, rfl, rfl⟩
  | @binary op left right arithmetic _ _ leftFolds rightFolds =>
      rw [foldConstants_binary, value]
      rcases leftFolds with ⟨first, before, leftValue, leftRun⟩ |
        ⟨leftValue, fault, leftFails⟩
      · rw [leftValue, leftRun]
        rcases rightFolds with ⟨second, after, rightValue, rightRun⟩ |
          ⟨rightValue, fault, rightFails⟩
        · rw [rightValue, rightRun]
          rcases BinaryOp.foldInt_of_isArithmetic arithmetic first second with
            ⟨word, folds⟩ | ⟨fault, fails⟩
          · refine Or.inl ⟨word, before + after + 1,
              BinaryOp.evaluate_of_foldInt_ok folds, ?_⟩
            simp [Transformed.andThen, Transformed.bind, Rule.apply,
              Folding.rule, BinaryOp.fold, folds, Except.map]
          · refine Or.inr
              ⟨BinaryOp.evaluate_of_foldInt_error fails, fault, ?_⟩
            simp [Transformed.andThen, Transformed.bind, Rule.apply,
              Folding.rule, BinaryOp.fold, fails, Except.map]
        · refine Or.inr ⟨by rw [rightValue]; rfl, fault, ?_⟩
          simp [Transformed.andThen, Transformed.bind, rightFails, Except.map]
      · refine Or.inr ⟨by rw [leftValue]; rfl, fault, ?_⟩
        simp [Transformed.andThen, Transformed.bind, leftFails]

/-! ## Rotating keeps the value -/

theorem value_regrouped
    {outer inner : BinaryOp}
    (regroups : outer.Regroups inner)
    (arithmetic : outer.isArithmetic = true)
    (whole : outer = .multiply → inner = .multiply)
    (left middle right : Expr) :
    (Expr.binary inner (.binary outer left middle) right).value =
      (Expr.binary outer left (.binary inner middle right)).value := by
  simp only [value]
  cases left.value with
  | none => rfl
  | some first =>
      cases middle.value with
      | none => rfl
      | some second =>
          cases right.value with
          | none => simp
          | some third =>
              exact (BinaryOp.evaluate_regrouped regroups arithmetic whole
                first second third).symm

/-- An operand of whole factors is a product if it is written like one. -/
theorem wholeFactors_regrouped
    {inner : BinaryOp}
    {middle right : Expr}
    (regroups : BinaryOp.multiply.Regroups inner)
    (whole : (Expr.binary inner middle right).wholeFactors = true) :
    inner = .multiply ∧
      middle.wholeFactors = true ∧ right.wholeFactors = true := by
  have level := regroups.1
  cases inner with
  | multiply => exact ⟨rfl, by simpa [wholeFactors] using whole⟩
  | _ => contradiction

theorem value_graft
    {op : BinaryOp}
    {left right : Expr}
    (arithmetic : op.isArithmetic = true)
    (whole : op = .multiply → right.wholeFactors = true) :
    (graft op left right).value = (Expr.binary op left right).value := by
  fun_induction graft op left right with
  | case1 inner middle right regroups hypothesis =>
      have products :
          op = .multiply → inner = .multiply ∧ middle.wholeFactors = true := by
        rintro rfl
        have factors := wholeFactors_regrouped regroups (whole rfl)
        exact ⟨factors.1, factors.2.1⟩
      rw [← value_regrouped regroups arithmetic fun same => (products same).1,
        value, hypothesis fun same => (products same).2]
      rfl
  | case2 => rfl
  | case3 => rfl

theorem wholeFactors_graft_multiply
    {left right : Expr}
    (leftWhole : left.wholeFactors = true)
    (rightWhole : right.wholeFactors = true) :
    (graft .multiply left right).wholeFactors = true := by
  generalize product : BinaryOp.multiply = op
  fun_induction graft op left right with
  | case1 inner middle right regroups hypothesis =>
      subst product
      rcases wholeFactors_regrouped regroups rightWhole with
        ⟨rfl, middleWhole, lastWhole⟩
      simp [wholeFactors, hypothesis middleWhole, lastWhole]
  | case2 =>
      subst product
      simp [wholeFactors, leftWhole, rightWhole]
  | case3 =>
      subst product
      simp [wholeFactors, leftWhole, rightWhole]

theorem wholeFactors_graft
    {op : BinaryOp}
    {left right leftForm rightForm : Expr}
    (leftWhole : left.wholeFactors = true → leftForm.wholeFactors = true)
    (rightWhole : right.wholeFactors = true → rightForm.wholeFactors = true)
    (whole : (Expr.binary op left right).wholeFactors = true) :
    (graft op leftForm rightForm).wholeFactors = true := by
  have level : (graft op leftForm rightForm).precedence = op.precedence :=
    (Reassociated.graft op leftForm rightForm).precedence_eq.symm
  cases op with
  | multiply =>
      simp only [wholeFactors, Bool.and_eq_true] at whole
      exact wholeFactors_graft_multiply (leftWhole whole.1) (rightWhole whole.2)
  | divide => contradiction
  | modulo => contradiction
  | _ =>
      apply wholeFactors_of_precedence_ne
      rw [level]
      decide

/-- Rotating keeps the value where no product is regrouped with a quotient. -/
theorem value_leftRotated
    {expression : Expr}
    (arithmetic : Arithmetic expression)
    (whole : expression.WholeProducts) :
    expression.leftRotated.value = expression.value ∧
      (expression.wholeFactors = true →
        expression.leftRotated.wholeFactors = true) := by
  induction arithmetic with
  | number => exact ⟨rfl, id⟩
  | @binary op left right arithmetic _ _ leftHypothesis rightHypothesis =>
      rcases (wholeProducts_binary_iff op left right).1 whole with
        ⟨here, leftWhole, rightWhole⟩
      have ⟨leftValue, leftFactors⟩ := leftHypothesis leftWhole
      have ⟨rightValue, rightFactors⟩ := rightHypothesis rightWhole
      rw [leftRotated_binary]
      refine ⟨?_, wholeFactors_graft leftFactors rightFactors⟩
      rw [value_graft arithmetic fun product => rightFactors (here product),
        value, value, leftValue, rightValue]

/--
Where no product has a quotient or a remainder among the factors on its right,
arithmetic expressions of one text fold alike: both fail, or both succeed and
leave expressions of one text.
-/
theorem foldConstants_determined_by_source
    {first second : Expr}
    (firstArithmetic : Arithmetic first)
    (secondArithmetic : Arithmetic second)
    (firstWhole : first.WholeProducts)
    (secondWhole : second.WholeProducts)
    (same : first.source = second.source) :
    ((∃ fault, first.foldConstants.count = .error fault) ∧
      (∃ fault, second.foldConstants.count = .error fault)) ∨
    ((∃ count, first.foldConstants.count = .ok count) ∧
      (∃ count, second.foldConstants.count = .ok count) ∧
      first.foldConstants.result.source =
        second.foldConstants.result.source) := by
  have forms := leftRotated_eq_of_source_eq firstArithmetic.plain
    secondArithmetic.plain same
  have values : first.value = second.value := by
    rw [← (value_leftRotated firstArithmetic firstWhole).1, forms,
      (value_leftRotated secondArithmetic secondWhole).1]
  rcases foldConstants_of_arithmetic firstArithmetic with
    ⟨word, firstCount, firstValue, firstRun⟩ | ⟨firstValue, firstFails⟩
  · rcases foldConstants_of_arithmetic secondArithmetic with
      ⟨other, secondCount, secondValue, secondRun⟩ | ⟨secondValue, _⟩
    · have words : word = other := by
        rw [firstValue, secondValue] at values
        exact Option.some.inj values
      refine Or.inr ⟨⟨firstCount, by rw [firstRun]⟩,
        ⟨secondCount, by rw [secondRun]⟩, ?_⟩
      rw [firstRun, secondRun, words]
    · rw [firstValue, secondValue] at values
      contradiction
  · rcases foldConstants_of_arithmetic secondArithmetic with
      ⟨other, secondCount, secondValue, _⟩ | ⟨_, secondFails⟩
    · rw [firstValue, secondValue] at values
      contradiction
    · exact Or.inl ⟨firstFails, secondFails⟩

/-- The text `2 + 7 - 4 * 3 * 5`, grouped to the right and to the left. -/
theorem foldConstants_determined_by_source_regrouped :
    let number word := Expr.literal (.int word)
    let first :=
      Expr.binary .add (number 2)
        (.binary .subtract (number 7)
          (.binary .multiply (number 4)
            (.binary .multiply (number 3) (number 5))))
    let second :=
      Expr.binary .subtract (.binary .add (number 2) (number 7))
        (.binary .multiply (.binary .multiply (number 4) (number 3)) (number 5))
    Arithmetic first ∧ Arithmetic second ∧
    first.WholeProducts ∧ second.WholeProducts ∧
    first.source = second.source ∧
    first.foldConstants.result.source =
      second.foldConstants.result.source := by
  intro number first second
  have numbers :
      Arithmetic (number 2) ∧ Arithmetic (number 3) ∧ Arithmetic (number 4) ∧
        Arithmetic (number 5) ∧ Arithmetic (number 7) :=
    ⟨.number (by decide), .number (by decide), .number (by decide),
      .number (by decide), .number (by decide)⟩
  rcases numbers with ⟨two, three, four, five, seven⟩
  have firstArithmetic : Arithmetic first :=
    .binary rfl two (.binary rfl seven
      (.binary rfl four (.binary rfl three five)))
  have secondArithmetic : Arithmetic second :=
    .binary rfl (.binary rfl two seven)
      (.binary rfl (.binary rfl four three) five)
  have firstWhole : first.WholeProducts := by
    simp [first, number, wholeProducts_binary_iff, wholeProducts_literal,
      wholeFactors]
  have secondWhole : second.WholeProducts := by
    simp [second, number, wholeProducts_binary_iff, wholeProducts_literal,
      wholeFactors]
  have same : first.source = second.source := by
    decide
  have alike := foldConstants_determined_by_source firstArithmetic
    secondArithmetic firstWhole secondWhole same
  have succeeds : first.foldConstants.count = .ok 4 := rfl
  refine ⟨firstArithmetic, secondArithmetic, firstWhole, secondWhole, same, ?_⟩
  rcases alike with ⟨⟨fault, fails⟩, _⟩ | ⟨_, _, results⟩
  · rw [succeeds] at fails
    contradiction
  · exact results

/-- A product with a quotient has the text of a quotient of a product. -/
theorem foldConstants_not_determined_by_source :
    let number word := Expr.literal (.int word)
    let first :=
      Expr.binary .multiply (number 2) (.binary .divide (number 3) (number 2))
    let second :=
      Expr.binary .divide (.binary .multiply (number 2) (number 3)) (number 2)
    Arithmetic first ∧ Arithmetic second ∧
    first.source = "2 * 3 / 2" ∧ second.source = "2 * 3 / 2" ∧
    first.foldConstants = ⟨number 2, .ok 2⟩ ∧
    second.foldConstants = ⟨number 3, .ok 2⟩ ∧
    (number 2).source ≠ (number 3).source := by
  intro number first second
  have two : Arithmetic (number 2) := .number (by decide)
  have three : Arithmetic (number 3) := .number (by decide)
  exact ⟨.binary rfl two (.binary rfl three two),
    .binary rfl (.binary rfl two three) two, by decide, by decide, rfl, rfl,
    by decide⟩

end Expr

end MiddleEnd
