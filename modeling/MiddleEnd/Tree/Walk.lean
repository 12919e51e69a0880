import MiddleEnd.Tree.Basic

/-!
# Walks over a program

`Expr.children` lists the immediate subexpressions of an expression in source
order; the statements of a block contribute the expressions that they hold.
`Expr.withChildren` puts other subexpressions in their places.
`Expr.subexprs` lists an expression and everything below it, each node before
its children.  The main statement says that the walk is the one that
`children` describes.
-/

namespace MiddleEnd

/-- The expressions that a statement holds: one, or none. -/
def Stmt.held : Stmt → List Expr
  | .expr expression => [expression]
  | .bind _ value => [value]
  | .ret value => value.toList
  | .function _ _ body => [body]
  | .use _ => []

/-- The immediate subexpressions, in source order. -/
def Expr.children : Expr → List Expr
  | .literal _ => []
  | .ident _ => []
  | .unary _ operand => [operand]
  | .binary _ left right => [left, right]
  | .call callee arguments => callee :: arguments
  | .branch condition thenBranch elseBranch =>
      condition :: thenBranch :: elseBranch.toList
  | .loop condition body => [condition, body]
  | .block statements => statements.flatMap Stmt.held
  | .assign _ value => [value]

/-- The statement with another expression in place of the one it holds. -/
def Stmt.withHeld : Stmt → List Expr → Stmt
  | .expr _, [expression] => .expr expression
  | .bind name _, [value] => .bind name value
  | .ret (some _), [value] => .ret (some value)
  | .function name parameters _, [body] => .function name parameters body
  | statement, _ => statement

/-- The statements with other expressions, dealt out in order. -/
def Stmt.refill : List Stmt → List Expr → List Stmt
  | [], _ => []
  | statement :: rest, expressions =>
      statement.withHeld (expressions.take statement.held.length) ::
        Stmt.refill rest (expressions.drop statement.held.length)

/-- The expression with other children. -/
def Expr.withChildren : Expr → List Expr → Expr
  | .unary op _, [operand] => .unary op operand
  | .binary op _ _, [left, right] => .binary op left right
  | .call _ _, callee :: arguments => .call callee arguments
  | .branch _ _ none, [condition, thenBranch] =>
      .branch condition thenBranch none
  | .branch _ _ (some _), [condition, thenBranch, elseBranch] =>
      .branch condition thenBranch (some elseBranch)
  | .loop _ _, [condition, body] => .loop condition body
  | .block statements, expressions => .block (Stmt.refill statements expressions)
  | .assign target _, [value] => .assign target value
  | expression, _ => expression

mutual

/-- The expression and all of its subexpressions, each before its children. -/
def Expr.subexprs : Expr → List Expr
  | .literal value => [.literal value]
  | .ident name => [.ident name]
  | .unary op operand => .unary op operand :: operand.subexprs
  | .binary op left right =>
      .binary op left right :: (left.subexprs ++ right.subexprs)
  | .call callee arguments =>
      .call callee arguments ::
        (callee.subexprs ++ Expr.subexprsOfList arguments)
  | .branch condition thenBranch elseBranch =>
      .branch condition thenBranch elseBranch ::
        (condition.subexprs ++
          (thenBranch.subexprs ++ Expr.subexprsOfOption elseBranch))
  | .loop condition body =>
      .loop condition body :: (condition.subexprs ++ body.subexprs)
  | .block statements => .block statements :: Stmt.subexprsOfList statements
  | .assign target value => .assign target value :: value.subexprs

/-- The walks over the expressions of a list, one after the other. -/
def Expr.subexprsOfList : List Expr → List Expr
  | [] => []
  | expression :: rest => expression.subexprs ++ Expr.subexprsOfList rest

/-- The walk over an expression that may be missing. -/
def Expr.subexprsOfOption : Option Expr → List Expr
  | none => []
  | some expression => expression.subexprs

/-- The walk over the expression that a statement holds. -/
def Stmt.subexprs : Stmt → List Expr
  | .expr expression => expression.subexprs
  | .bind _ value => value.subexprs
  | .ret value => Expr.subexprsOfOption value
  | .function _ _ body => body.subexprs
  | .use _ => []

/-- The walks over the statements of a list, one after the other. -/
def Stmt.subexprsOfList : List Stmt → List Expr
  | [] => []
  | statement :: rest => statement.subexprs ++ Stmt.subexprsOfList rest

end

theorem Expr.subexprsOfList_eq_flatMap (expressions : List Expr) :
    Expr.subexprsOfList expressions = expressions.flatMap Expr.subexprs := by
  induction expressions with
  | nil => rfl
  | cons expression rest hypothesis =>
      simp [Expr.subexprsOfList, hypothesis]

theorem Expr.subexprsOfOption_eq_flatMap (expression : Option Expr) :
    Expr.subexprsOfOption expression =
      expression.toList.flatMap Expr.subexprs := by
  cases expression <;> simp [Expr.subexprsOfOption]

theorem Stmt.subexprs_eq_flatMap (statement : Stmt) :
    statement.subexprs = statement.held.flatMap Expr.subexprs := by
  cases statement <;>
    simp [Stmt.subexprs, Stmt.held, Expr.subexprsOfOption_eq_flatMap]

theorem Stmt.subexprsOfList_eq_flatMap (statements : List Stmt) :
    Stmt.subexprsOfList statements =
      (statements.flatMap Stmt.held).flatMap Expr.subexprs := by
  induction statements with
  | nil => rfl
  | cons statement rest hypothesis =>
      simp [Stmt.subexprsOfList, Stmt.subexprs_eq_flatMap, hypothesis]

/-- The walk visits an expression and then its children in source order. -/
theorem Expr.subexprs_eq_cons (expression : Expr) :
    expression.subexprs =
      expression :: expression.children.flatMap Expr.subexprs := by
  cases expression <;>
    simp [Expr.subexprs, Expr.children, Expr.subexprsOfList_eq_flatMap,
      Expr.subexprsOfOption_eq_flatMap, Stmt.subexprsOfList_eq_flatMap]

theorem Expr.length_subexprs_lt
    {expression child : Expr}
    (member : child ∈ expression.children) :
    child.subexprs.length < expression.subexprs.length := by
  rcases List.append_of_mem member with ⟨before, after, split⟩
  rw [expression.subexprs_eq_cons, split, List.length_cons,
    List.flatMap_append, List.flatMap_cons, List.length_append,
    List.length_append]
  omega

end MiddleEnd
