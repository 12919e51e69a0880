import MiddleEnd.Metrics
import MiddleEnd.Proofs.Folding.Meaning
import MiddleEnd.Proofs.StrengthReduction

/-!
# Passes and weights

A node weighs no more when its children weigh less, whatever statements weigh,
as long as a statement weighs no less for holding more.  A folding step replaces
an operator and its operands by one literal, so it takes weight away wherever
that place is weighed at all.  Strength reduction replaces a literal by a
literal, which weighs the same.
-/

namespace MiddleEnd

open Relation

/-- A statement weighs no less for holding a heavier expression. -/
structure Weighting.IsMonotone (weighting : Weighting) : Prop where
  expr : Monotone weighting.expr
  bind : Monotone weighting.bind
  ret : Monotone fun held => weighting.ret (some held)
  function : Monotone weighting.function

theorem Weighting.isMonotone_complexity : Weighting.complexity.IsMonotone where
  expr := monotone_id
  bind := monotone_id
  ret := monotone_id
  function := monotone_const

theorem Weighting.isMonotone_size : Weighting.size.IsMonotone where
  expr := monotone_const
  bind := monotone_const
  ret := monotone_const
  function := fun _ _ lighter => Nat.add_le_add_left lighter 10

/-! ## Lighter children -/

/-- The first expression weighs no more than the second. -/
def Expr.NoHeavier (weighting : Weighting) (expression other : Expr) : Prop :=
  expression.weight weighting ≤ other.weight weighting

section

variable {weighting : Weighting}

theorem Stmt.length_refill (statements : List Stmt) (expressions : List Expr) :
    (Stmt.refill statements expressions).length = statements.length := by
  induction statements generalizing expressions with
  | nil => rfl
  | cons statement rest hypothesis =>
      rw [Stmt.refill, List.length_cons, List.length_cons, hypothesis]

theorem Expr.weightOfList_le
    {expressions others : List Expr}
    (lighter : List.Forall₂ (Expr.NoHeavier weighting) expressions others) :
    Expr.weightOfList weighting expressions ≤
      Expr.weightOfList weighting others := by
  induction lighter with
  | nil => exact Nat.le_refl _
  | cons head _ hypothesis => exact Nat.add_le_add head hypothesis

variable (monotone : weighting.IsMonotone)
include monotone

theorem Stmt.weight_withHeld_le
    {statement : Stmt}
    {expressions : List Expr}
    (lighter :
      List.Forall₂ (Expr.NoHeavier weighting) expressions statement.held) :
    (statement.withHeld expressions).weight weighting ≤
      statement.weight weighting := by
  cases statement with
  | expr expression =>
      rcases lighter with _ | ⟨head, _ | _⟩
      exact monotone.expr head
  | bind name value =>
      rcases lighter with _ | ⟨head, _ | _⟩
      exact monotone.bind head
  | ret value =>
      cases value with
      | none => exact Nat.le_refl _
      | some value =>
          rcases lighter with _ | ⟨head, _ | _⟩
          exact monotone.ret head
  | function name parameters body =>
      rcases lighter with _ | ⟨head, _ | _⟩
      exact monotone.function head
  | use path => exact Nat.le_refl _

theorem Stmt.weightOfList_refill_le
    {statements : List Stmt}
    {expressions : List Expr}
    (lighter :
      List.Forall₂ (Expr.NoHeavier weighting) expressions
        (statements.flatMap Stmt.held)) :
    Stmt.weightOfList weighting (Stmt.refill statements expressions) ≤
      Stmt.weightOfList weighting statements := by
  induction statements generalizing expressions with
  | nil => exact Nat.le_refl _
  | cons statement rest hypothesis =>
      rw [List.flatMap_cons] at lighter
      have head := List.forall₂_take_append expressions _ _ lighter
      have tail := List.forall₂_drop_append expressions _ _ lighter
      exact Nat.add_le_add
        (Stmt.weight_withHeld_le monotone head) (hypothesis tail)

/-- A node with lighter children weighs no more. -/
theorem Expr.weight_withChildren_le
    {expression : Expr}
    {children : List Expr}
    (lighter :
      List.Forall₂ (Expr.NoHeavier weighting) children expression.children) :
    (expression.withChildren children).weight weighting ≤
      expression.weight weighting := by
  cases expression with
  | literal _ => exact Nat.le_refl _
  | ident _ => exact Nat.le_refl _
  | unary _ _ =>
      rcases lighter with _ | ⟨operand, _ | _⟩
      exact Nat.add_le_add_left operand 1
  | binary _ _ _ =>
      rcases lighter with _ | ⟨left, _ | ⟨right, _ | _⟩⟩
      exact Nat.add_le_add (Nat.add_le_add_left left 1) right
  | call _ _ =>
      rcases lighter with _ | ⟨callee, arguments⟩
      exact Nat.add_le_add (Nat.add_le_add_left callee 1)
        (Expr.weightOfList_le arguments)
  | branch _ _ elseBranch =>
      cases elseBranch with
      | none =>
          rcases lighter with _ | ⟨condition, _ | ⟨thenBranch, _ | _⟩⟩
          exact Nat.add_le_add
            (Nat.add_le_add (Nat.add_le_add_left condition 1) thenBranch)
            (Nat.le_refl 0)
      | some elseBranch =>
          rcases lighter with
            _ | ⟨condition, _ | ⟨thenBranch, _ | ⟨elseBranch, _ | _⟩⟩⟩
          exact Nat.add_le_add
            (Nat.add_le_add (Nat.add_le_add_left condition 1) thenBranch)
            elseBranch
  | loop _ _ =>
      rcases lighter with _ | ⟨condition, _ | ⟨body, _ | _⟩⟩
      exact Nat.add_le_add (Nat.add_le_add_left condition 1) body
  | block statements =>
      exact Nat.add_le_add (Stmt.length_refill statements children).le
        (Stmt.weightOfList_refill_le monotone lighter)
  | assign _ _ =>
      rcases lighter with _ | ⟨value, _ | _⟩
      exact Nat.le_refl 1

/-- A node weighs the same with children of the same weights. -/
theorem Expr.weight_withChildren
    {expression : Expr}
    {children : List Expr}
    (same :
      children.map (Expr.weight weighting) =
        expression.children.map (Expr.weight weighting)) :
    (expression.withChildren children).weight weighting =
      expression.weight weighting := by
  have fits : children.length = expression.children.length := by
    simpa using congrArg List.length same
  rw [← List.forall₂_eq_eq_eq, List.forall₂_map_left_iff,
    List.forall₂_map_right_iff] at same
  apply Nat.le_antisymm
  · exact Expr.weight_withChildren_le monotone
      (same.imp fun _ _ equal => equal.le)
  · -- The old children in the new node give the old node back.
    have back :
        (expression.withChildren children).withChildren expression.children =
          expression := by
      rw [Expr.withChildren_withChildren fits rfl, Expr.withChildren_children]
    nth_rewrite 1 [← back]
    apply Expr.weight_withChildren_le monotone
    rw [Expr.children_withChildren fits]
    exact same.flip.imp fun _ _ equal => equal.ge

/-! ## Folding and reduction -/

theorem Folding.Step.weight_le
    {expression next : Expr}
    (step : Folding.Step expression next) :
    next.weight weighting ≤ expression.weight weighting := by
  induction step with
  | unary => exact Nat.le_add_right 1 _
  | binary => exact Nat.le_trans (Nat.le_add_right 1 _) (Nat.le_add_right _ _)
  | @child expression child next before after position _ hypothesis =>
      apply Expr.weight_withChildren_le monotone
      have others :
          ∀ expressions,
            List.Forall₂ (Expr.NoHeavier weighting) expressions expressions :=
        fun expressions => List.forall₂_same.2 fun _ _ => Nat.le_refl _
      rw [position]
      exact List.rel_append (others before) (.cons hypothesis (others after))

theorem Folding.weight_le_of_reaches
    {expression other : Expr}
    (reaches : ReflTransGen Folding.Step expression other) :
    other.weight weighting ≤ expression.weight weighting := by
  induction reaches with
  | refl => exact Nat.le_refl _
  | tail _ step hypothesis =>
      exact Nat.le_trans (step.weight_le monotone) hypothesis

theorem Expr.weight_foldConstants_le (expression : Expr) :
    expression.foldConstants.result.weight weighting ≤
      expression.weight weighting :=
  Folding.weight_le_of_reaches monotone
    (Folding.reaches_foldConstants expression)

theorem Expr.weight_reduced (expression : Expr) :
    expression.reduced.weight weighting = expression.weight weighting := by
  induction expression using childrenInduction with
  | node expression hypothesis =>
      rcases expression.reduced_cases with
        ⟨left, word, rfl, _, product⟩ | ⟨_, kept⟩
      · have leftWeight := hypothesis left List.mem_cons_self
        rw [product, Expr.weight, Expr.weight, leftWeight]
        rfl
      · rw [kept]
        apply Expr.weight_withChildren monotone
        rw [List.map_map]
        exact List.map_congr_left hypothesis

end

end MiddleEnd
