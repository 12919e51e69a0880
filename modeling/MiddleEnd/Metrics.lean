import MiddleEnd.Tree.Basic

/-!
# Weights of a program

Complexity and size are two readings of one structural weight.  They agree on
expressions: a leaf weighs one, an operator, a conditional, a loop or a call
weighs one more than its parts, and a block weighs as many units as it has
statements, plus the weights of these.  They differ in what a statement
weighs, and a `Weighting` says just that.

The value of an assignment carries no weight.
-/

namespace MiddleEnd

/-- What each kind of statement weighs, given the weight of what it holds. -/
structure Weighting where
  expr : Nat → Nat
  bind : Nat → Nat
  ret : Option Nat → Nat
  function : Nat → Nat
  use : Nat

namespace Weighting

/--
How hard code is to follow: a statement is as complex as the expression it
holds, and a nested function counts as one unit.
-/
def complexity : Weighting where
  expr := fun held => held
  bind := fun held => held
  ret := fun held => held.getD 0
  function := fun _ => 1
  use := 1

/--
How large code is: each kind of statement has a fixed size, and a function
adds the size of its body.
-/
def size : Weighting where
  expr := fun _ => 8
  bind := fun _ => 5
  ret := fun _ => 3
  function := fun held => 10 + held
  use := 1

end Weighting

mutual

/-- The weight of an expression. -/
def Expr.weight (weighting : Weighting) : Expr → Nat
  | .literal _ => 1
  | .ident _ => 1
  | .unary _ operand => 1 + operand.weight weighting
  | .binary _ left right =>
      1 + left.weight weighting + right.weight weighting
  | .call callee arguments =>
      1 + callee.weight weighting + Expr.weightOfList weighting arguments
  | .branch condition thenBranch elseBranch =>
      1 + condition.weight weighting + thenBranch.weight weighting +
        (Expr.weightOfOption weighting elseBranch).getD 0
  | .loop condition body =>
      1 + condition.weight weighting + body.weight weighting
  | .block statements =>
      statements.length + Stmt.weightOfList weighting statements
  | .assign _ _ => 1

/-- The summed weight of the expressions of a list. -/
def Expr.weightOfList (weighting : Weighting) : List Expr → Nat
  | [] => 0
  | expression :: rest =>
      expression.weight weighting + Expr.weightOfList weighting rest

/-- The weight of an expression that may be missing. -/
def Expr.weightOfOption (weighting : Weighting) : Option Expr → Option Nat
  | none => none
  | some expression => some (expression.weight weighting)

/-- The weight of a statement. -/
def Stmt.weight (weighting : Weighting) : Stmt → Nat
  | .expr expression => weighting.expr (expression.weight weighting)
  | .bind _ value => weighting.bind (value.weight weighting)
  | .ret value => weighting.ret (Expr.weightOfOption weighting value)
  | .function _ _ body => weighting.function (body.weight weighting)
  | .use _ => weighting.use

/-- The summed weight of the statements of a list. -/
def Stmt.weightOfList (weighting : Weighting) : List Stmt → Nat
  | [] => 0
  | statement :: rest =>
      statement.weight weighting + Stmt.weightOfList weighting rest

end

/-- How complex an expression is. -/
def Expr.complexity (expression : Expr) : Nat :=
  expression.weight .complexity

/-- How large an expression is. -/
def Expr.size (expression : Expr) : Nat :=
  expression.weight .size

/-- How complex a statement is. -/
def Stmt.complexity (statement : Stmt) : Nat :=
  statement.weight .complexity

/-- How large a statement is. -/
def Stmt.size (statement : Stmt) : Nat :=
  statement.weight .size

/-- How complex a function is: as complex as its body. -/
def FunctionDef.complexity (definition : FunctionDef) : Nat :=
  definition.body.complexity

/-- How large a program is. -/
def Program.size (program : Program) : Nat :=
  Stmt.weightOfList .size program.statements

end MiddleEnd
