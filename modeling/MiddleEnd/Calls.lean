import MiddleEnd.Tree.Walk

/-!
# Calls in an expression

A call is by name when its callee is a name.  Two collections of such names
are used.  `Expr.calledNames` has every call by name below an expression.
`Expr.directCalls` has those that a call graph records for a function body:
the body itself, what stands in the branches of conditionals and in the bodies
of loops, and the calls that are statements of a block by themselves.
-/

namespace MiddleEnd

namespace Expr

/-- The name that the expression calls, if it is a call by name. -/
def callee? : Expr → Option String
  | .call (.ident name) _ => some name
  | _ => none

/-- The names called anywhere in the expression, in source order. -/
def calledNames (expression : Expr) : List String :=
  expression.subexprs.filterMap callee?

end Expr

/-- The name that the statement calls, if it is nothing but a call by name. -/
def Stmt.callee? : Stmt → Option String
  | .expr expression => expression.callee?
  | _ => none

/-- The names that a call graph records for a function body. -/
def Expr.directCalls : Expr → List String
  | .call (.ident name) _ => [name]
  | .branch _ thenBranch none => thenBranch.directCalls
  | .branch _ thenBranch (some elseBranch) =>
      thenBranch.directCalls ++ elseBranch.directCalls
  | .loop _ body => body.directCalls
  | .block statements => statements.filterMap Stmt.callee?
  | _ => []

/-- The names called by the expressions that a statement holds. -/
def Stmt.calledNames (statement : Stmt) : List String :=
  statement.held.flatMap Expr.calledNames

end MiddleEnd
