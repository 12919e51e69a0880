import Mathlib.Data.List.Forall2
import Mathlib.Logic.Relation
import MiddleEnd.Pass.Folding
import MiddleEnd.Proofs.Children

/-!
# Folding as rewriting

One step of folding replaces a single operator on literals, anywhere in an
expression, by the literal it evaluates to.  Steps may be taken in any order.
They use up one operator each, so they end after as many of them as operators
vanish, and all orders arrive at the same expression.

That expression is computed by `Expr.normalForm`, which folds from the leaves
up and passes over operators that have no value.  Every step leaves the normal
form as it is, and every expression can be stepped to its own; confluence and
uniqueness are read off these two facts.
-/

namespace MiddleEnd

open Relation

namespace Folding

/-- One operator on literals is replaced by its value, at any position. -/
inductive Step : Expr → Expr → Prop where
  | unary {op : UnaryOp} {value result : Literal}
      (folds : op.fold value = some result) :
      Step (.unary op (.literal value)) (.literal result)
  | binary {op : BinaryOp} {left right result : Literal}
      (folds : op.fold left right = .ok (some result)) :
      Step (.binary op (.literal left) (.literal right)) (.literal result)
  | child {expression child next : Expr} {before after : List Expr}
      (position : expression.children = before ++ child :: after)
      (step : Step child next) :
      Step expression (expression.withChildren (before ++ next :: after))

/-- A given number of steps, one after the other. -/
inductive Steps : Nat → Expr → Expr → Prop where
  | none {expression : Expr} : Steps 0 expression expression
  | more {count : Nat} {first second last : Expr}
      (step : Step first second)
      (rest : Steps count second last) :
      Steps (count + 1) first last

/-- No step can be taken. -/
def Normal (expression : Expr) : Prop :=
  ∀ next, ¬ Step expression next

theorem exists_steps_of_reaches
    {first last : Expr}
    (reaches : ReflTransGen Step first last) :
    ∃ count, Steps count first last := by
  induction reaches using ReflTransGen.head_induction_on with
  | refl => exact ⟨0, Steps.none⟩
  | head step _ hypothesis =>
      rcases hypothesis with ⟨count, steps⟩
      exact ⟨count + 1, Steps.more step steps⟩

theorem Normal.eq_of_reaches
    {expression other : Expr}
    (normal : Normal expression)
    (reaches : ReflTransGen Step expression other) :
    other = expression := by
  rcases ReflTransGen.cases_head reaches with same | ⟨next, step, _⟩
  · exact same.symm
  · exact absurd step (normal next)

/-- Steps below a node are steps of the node. -/
theorem reaches_withChildren
    (expression : Expr)
    (before : List Expr)
    {children others : List Expr}
    (fits : (before ++ children).length = expression.children.length)
    (reaches : List.Forall₂ (ReflTransGen Step) children others) :
    ReflTransGen Step
      (expression.withChildren (before ++ children))
      (expression.withChildren (before ++ others)) := by
  induction reaches generalizing before with
  | nil => exact ReflTransGen.refl
  | @cons child other rest restOthers childReaches _ hypothesis =>
      have headReaches :
          ReflTransGen Step
            (expression.withChildren (before ++ child :: rest))
            (expression.withChildren (before ++ other :: rest)) := by
        induction childReaches with
        | refl => exact ReflTransGen.refl
        | @tail middle last _ step fromChild =>
            have middleFits :
                (before ++ middle :: rest).length =
                  expression.children.length := by
              simpa using fits
            have next :=
              Step.child (Expr.children_withChildren middleFits) step
            rw [Expr.withChildren_withChildren middleFits
              (by simpa using fits)] at next
            exact fromChild.tail next
      have restReaches := hypothesis (before ++ [other]) (by simpa using fits)
      simp only [List.append_assoc, List.singleton_append] at restReaches
      exact headReaches.trans restReaches

end Folding

/-! ## Operators are used up -/

namespace Expr

/-- Whether the node is an operator. -/
def isOperator : Expr → Bool
  | .unary _ _ => true
  | .binary _ _ _ => true
  | _ => false

/-- How many operators stand in the expressions of a list. -/
def operatorsIn (expressions : List Expr) : Nat :=
  (expressions.flatMap Expr.subexprs).countP isOperator

/-- How many operators stand in an expression. -/
def operators (expression : Expr) : Nat :=
  expression.subexprs.countP isOperator

@[simp]
theorem operatorsIn_nil : operatorsIn [] = 0 :=
  rfl

@[simp]
theorem operatorsIn_cons (expression : Expr) (rest : List Expr) :
    operatorsIn (expression :: rest) =
      expression.operators + operatorsIn rest := by
  simp [operatorsIn, operators]

@[simp]
theorem operatorsIn_append (expressions others : List Expr) :
    operatorsIn (expressions ++ others) =
      operatorsIn expressions + operatorsIn others := by
  simp [operatorsIn]

theorem operators_eq (expression : Expr) :
    expression.operators =
      operatorsIn expression.children + expression.isOperator.toNat := by
  rw [operators, subexprs_eq_cons, List.countP_cons]
  cases expression.isOperator <;> rfl

@[simp]
theorem isOperator_withChildren (expression : Expr) (children : List Expr) :
    (expression.withChildren children).isOperator = expression.isOperator := by
  unfold withChildren
  split <;> rfl

theorem operators_withChildren
    {expression : Expr}
    {children : List Expr}
    (fits : children.length = expression.children.length) :
    (expression.withChildren children).operators =
      operatorsIn children + expression.isOperator.toNat := by
  rw [operators_eq, children_withChildren fits, isOperator_withChildren]

end Expr

namespace Folding

/-- A step uses up exactly one operator. -/
theorem Step.operators_eq
    {expression next : Expr}
    (step : Step expression next) :
    expression.operators = next.operators + 1 := by
  induction step with
  | unary folds => rfl
  | binary folds => rfl
  | @child expression child next before after position _ hypothesis =>
      have fits :
          (before ++ next :: after).length = expression.children.length := by
        simp [position]
      rw [Expr.operators_withChildren fits, Expr.operators_eq, position]
      simp only [Expr.operatorsIn_append, Expr.operatorsIn_cons]
      omega

theorem Steps.operators_eq
    {count : Nat}
    {first last : Expr}
    (steps : Steps count first last) :
    first.operators = count + last.operators := by
  induction steps with
  | none => omega
  | more step _ hypothesis =>
      rw [step.operators_eq, hypothesis]
      omega

/-- No infinite sequence of steps starts anywhere. -/
theorem wellFounded_step : WellFounded (flip Step) := by
  apply Subrelation.wf _ (measure Expr.operators).wf
  intro next expression step
  have used := Step.operators_eq step
  show next.operators < expression.operators
  omega

end Folding

/-! ## The normal form -/

/-- The rule of folding, with a node that has no value kept. -/
def Folding.settle : Rule Empty :=
  fun node =>
    match Folding.rule node with
    | .replace result => .replace result
    | _ => .keep

/-- The expression with every operator on literals that has a value folded. -/
def Expr.normalForm (expression : Expr) : Expr :=
  (expression.transform Folding.settle).result

theorem Expr.normalForm_eq (expression : Expr) :
    expression.normalForm =
      Folding.settle.rewrite
        (expression.withChildren (expression.children.map Expr.normalForm)) :=
  Expr.result_transform Folding.settle expression

namespace Folding

/-- The rule replaces a node exactly by what a step at the node makes of it. -/
theorem rule_eq_replace_iff (node result : Expr) :
    rule node = .replace result ↔
      (∃ op value folded, node = .unary op (.literal value) ∧
        op.fold value = some folded ∧ result = .literal folded) ∨
      (∃ op left right folded,
        node = .binary op (.literal left) (.literal right) ∧
          op.fold left right = .ok (some folded) ∧
            result = .literal folded) := by
  unfold rule
  split
  · rename_i op value
    cases folds : op.fold value <;> simp [folds, eq_comm]
  · rename_i op left right
    rcases folds : op.fold left right with fault | (_ | folded) <;>
      simp [folds, eq_comm]
  · rename_i notUnary notBinary
    constructor
    · intro replaced
      cases replaced
    · rintro (⟨op, value, _, rfl, _⟩ | ⟨op, left, right, _, rfl, _⟩)
      · exact absurd rfl (notUnary op value)
      · exact absurd rfl (notBinary op left right)

theorem step_of_rule_eq_replace
    {node result : Expr}
    (replaced : rule node = .replace result) :
    Step node result := by
  rcases (rule_eq_replace_iff node result).1 replaced with
    ⟨op, value, folded, rfl, folds, rfl⟩ |
      ⟨op, left, right, folded, rfl, folds, rfl⟩
  · exact Step.unary folds
  · exact Step.binary folds

theorem rewrite_settle_of_replace
    {node result : Expr}
    (replaced : rule node = .replace result) :
    settle.rewrite node = result := by
  simp [Rule.rewrite, Rule.apply, settle, replaced]

theorem rewrite_settle_of_not_replace
    {node : Expr}
    (kept : ∀ result, rule node ≠ .replace result) :
    settle.rewrite node = node := by
  cases verdict : rule node with
  | keep => simp [Rule.rewrite, Rule.apply, settle, verdict]
  | replace result => exact absurd verdict (kept result)
  | stop fault => simp [Rule.rewrite, Rule.apply, settle, verdict]

theorem reaches_rewrite_settle (node : Expr) :
    ReflTransGen Step node (settle.rewrite node) := by
  by_cases replaced : ∃ result, rule node = .replace result
  · rcases replaced with ⟨result, verdict⟩
    rw [rewrite_settle_of_replace verdict]
    exact ReflTransGen.single (step_of_rule_eq_replace verdict)
  · rw [rewrite_settle_of_not_replace (by simpa using replaced)]

/-- Every expression can be stepped to its normal form. -/
theorem reaches_normalForm (expression : Expr) :
    ReflTransGen Step expression expression.normalForm := by
  induction expression using Expr.childrenInduction with
  | node expression hypothesis =>
      have below :
          List.Forall₂ (ReflTransGen Step) expression.children
            (expression.children.map Expr.normalForm) := by
        rw [List.forall₂_map_right_iff, List.forall₂_same]
        exact hypothesis
      have folded :
          ReflTransGen Step
            (expression.withChildren expression.children)
            (expression.withChildren
              (expression.children.map Expr.normalForm)) :=
        reaches_withChildren expression [] rfl below
      rw [Expr.withChildren_children] at folded
      rw [Expr.normalForm_eq]
      exact folded.trans (reaches_rewrite_settle _)

@[simp]
theorem normalForm_literal (value : Literal) :
    (Expr.literal value).normalForm = .literal value :=
  rfl

/-- A step leaves the normal form as it is. -/
theorem Step.normalForm_eq
    {expression next : Expr}
    (step : Step expression next) :
    next.normalForm = expression.normalForm := by
  induction step with
  | @unary op value result folds =>
      rw [Expr.normalForm_eq (.unary op (.literal value))]
      symm
      apply rewrite_settle_of_replace
      simp [Expr.children, Expr.withChildren, rule, folds]
  | @binary op left right result folds =>
      rw [Expr.normalForm_eq (.binary op (.literal left) (.literal right))]
      symm
      apply rewrite_settle_of_replace
      simp [Expr.children, Expr.withChildren, rule, folds]
  | @child expression child next before after position _ hypothesis =>
      have fits :
          (before ++ next :: after).length = expression.children.length := by
        simp [position]
      rw [Expr.normalForm_eq, Expr.children_withChildren fits,
        Expr.withChildren_withChildren fits (by simpa using fits),
        Expr.normalForm_eq expression, position]
      simp [hypothesis]

theorem normalForm_eq_of_reaches
    {expression other : Expr}
    (reaches : ReflTransGen Step expression other) :
    other.normalForm = expression.normalForm := by
  induction reaches with
  | refl => rfl
  | tail _ step hypothesis => rw [step.normalForm_eq, hypothesis]

@[simp]
theorem normalForm_normalForm (expression : Expr) :
    expression.normalForm.normalForm = expression.normalForm :=
  normalForm_eq_of_reaches (reaches_normalForm expression)

/-- A step out of a normal form would use up an operator and lead back to it. -/
theorem normal_normalForm (expression : Expr) : Normal expression.normalForm := by
  intro next step
  have used := step.operators_eq
  have back := reaches_normalForm next
  rw [step.normalForm_eq, normalForm_normalForm] at back
  rcases exists_steps_of_reaches back with ⟨count, steps⟩
  have usedAgain := steps.operators_eq
  omega

theorem normalForm_eq_self_of_normal
    {expression : Expr}
    (normal : Normal expression) :
    expression.normalForm = expression :=
  normal.eq_of_reaches (reaches_normalForm expression)

/-- All ways to the normal form have one length. -/
theorem steps_normalForm_iff (expression : Expr) (count : Nat) :
    Steps count expression expression.normalForm ↔
      count = expression.operators - expression.normalForm.operators := by
  constructor
  · intro steps
    have used := steps.operators_eq
    omega
  · rintro rfl
    rcases exists_steps_of_reaches (reaches_normalForm expression) with
      ⟨count, steps⟩
    have used := steps.operators_eq
    have same :
        expression.operators - expression.normalForm.operators = count := by
      omega
    rwa [same]

/-- The normal form is the only expression without steps that is reached. -/
theorem eq_normalForm
    {expression other : Expr}
    (reaches : ReflTransGen Step expression other)
    (normal : Normal other) :
    other = expression.normalForm := by
  rw [← normalForm_eq_of_reaches reaches, normalForm_eq_self_of_normal normal]

/-- Steps taken in different orders can be continued to one expression. -/
theorem confluent_step
    {expression left right : Expr}
    (reachesLeft : ReflTransGen Step expression left)
    (reachesRight : ReflTransGen Step expression right) :
    Join (ReflTransGen Step) left right := by
  refine ⟨expression.normalForm, ?_, ?_⟩
  · rw [← normalForm_eq_of_reaches reachesLeft]
    exact reaches_normalForm left
  · rw [← normalForm_eq_of_reaches reachesRight]
    exact reaches_normalForm right

end Folding

end MiddleEnd
