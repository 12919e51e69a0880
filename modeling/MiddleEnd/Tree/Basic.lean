import MiddleEnd.Tree.Literal
import MiddleEnd.Tree.Operator

/-!
# Programs

The tree that every analysis reads and every pass transforms.  Expressions and
statements hold each other: a block is an expression made of statements, and
the body of a function is an expression.
-/

namespace MiddleEnd

mutual

/-- An expression. -/
inductive Expr where
  /-- A constant. -/
  | literal (value : Literal)
  /-- A name. -/
  | ident (name : String)
  /-- A unary operator applied to its operand. -/
  | unary (op : UnaryOp) (operand : Expr)
  /-- A binary operator between its operands. -/
  | binary (op : BinaryOp) (left right : Expr)
  /-- A call. -/
  | call (callee : Expr) (arguments : List Expr)
  /-- A conditional, with or without a second branch. -/
  | branch (condition thenBranch : Expr) (elseBranch : Option Expr)
  /-- A loop. -/
  | loop (condition body : Expr)
  /-- A sequence of statements. -/
  | block (statements : List Stmt)
  /-- An assignment to a variable. -/
  | assign (target : String) (value : Expr)

/-- A statement. -/
inductive Stmt where
  /-- An expression evaluated for its effect or its value. -/
  | expr (expression : Expr)
  /-- A variable bound to a value. -/
  | bind (name : String) (value : Expr)
  /-- The end of a function, with or without a value. -/
  | ret (value : Option Expr)
  /-- A function. -/
  | function (name : String) (parameters : List String) (body : Expr)
  /-- A reference to another module. -/
  | use (path : String)

end

/-- A function statement, taken apart. -/
structure FunctionDef where
  name : String
  parameters : List String
  body : Expr

/-- A module path with the statements of the module, in source order. -/
structure Program where
  /-- The module path, empty for the root module. -/
  module : String := ""
  statements : List Stmt

namespace Stmt

/-- The function that a statement defines, if it defines one. -/
def function? : Stmt → Option FunctionDef
  | .function name parameters body => some ⟨name, parameters, body⟩
  | _ => none

/-- Whether the statement defines a function. -/
def isFunction (statement : Stmt) : Bool :=
  statement.function?.isSome

end Stmt

namespace Program

/-- The functions defined at the top of the program, in source order. -/
def functions (program : Program) : List FunctionDef :=
  program.statements.filterMap Stmt.function?

/-- How many functions the program defines at its top. -/
def functionCount (program : Program) : Nat :=
  program.functions.length

/-- Whether the program defines a function with the given name at its top. -/
def defines (program : Program) (name : String) : Bool :=
  program.functions.any (·.name == name)

end Program

end MiddleEnd
