import MiddleEnd.Transform

/-!
# Constant folding

An operator applied to literals is replaced by the literal it evaluates to.
Integer arithmetic is that of 64-bit words: sums, differences, products and
negations wrap, and a quotient is truncated toward zero.  An operand pair of
mixed kinds, a comparison and a connective of two literals are left alone.

Dividing by a literal zero is an error of the program being compiled, and it
ends the run.
-/

namespace MiddleEnd

/-- A constant expression that has no value. -/
inductive ArithmeticFault where
  | divisionByZero
  | moduloByZero
deriving DecidableEq, Repr

/-- What is said about a constant expression without a value. -/
def ArithmeticFault.message : ArithmeticFault → String
  | .divisionByZero => "division by zero"
  | .moduloByZero => "modulo by zero"

/-- The value of an operator on literals: none where it is left alone. -/
abbrev Folded : Type :=
  Except ArithmeticFault (Option Literal)

/-- The value of a binary operator between two integers. -/
def BinaryOp.foldInt (op : BinaryOp) (left right : Int64) : Folded :=
  match op with
  | .add => .ok (some (.int (left + right)))
  | .subtract => .ok (some (.int (left - right)))
  | .multiply => .ok (some (.int (left * right)))
  | .divide =>
      if right = 0 then
        .error .divisionByZero
      else if left = Int64.minValue ∧ right = -1 then
        -- No word is the quotient, and the dividend stands for it.
        .ok (some (.int left))
      else
        .ok (some (.int (left / right)))
  | .modulo =>
      if right = 0 then
        .error .moduloByZero
      else if right = -1 then
        .ok (some (.int 0))
      else
        .ok (some (.int (left % right)))
  | _ => .ok none

/-- The value of a binary operator between two floating-point numbers. -/
def BinaryOp.foldFloat (op : BinaryOp) (left right : Number.Binary64) : Folded :=
  match op with
  | .add => .ok (some (.float (left + right)))
  | .subtract => .ok (some (.float (left - right)))
  | .multiply => .ok (some (.float (left * right)))
  | .divide =>
      if right.isZero then
        .error .divisionByZero
      else
        .ok (some (.float (left / right)))
  | _ => .ok none

/-- The value of a binary operator between two literals. -/
def BinaryOp.fold (op : BinaryOp) : Literal → Literal → Folded
  | .int left, .int right => op.foldInt left right
  | .float left, .float right => op.foldFloat left right
  | _, _ => .ok none

/-- The value of a unary operator applied to a literal. -/
def UnaryOp.fold : UnaryOp → Literal → Option Literal
  | .negate, .int value => some (.int (-value))
  | .negate, .float value => some (.float (-value))
  | .not, .bool value => some (.bool (!value))
  | _, _ => none

namespace Folding

/-- What folding makes of a node whose operands are folded. -/
def rule : Rule ArithmeticFault
  | .unary op (.literal value) =>
      match op.fold value with
      | some result => .replace (.literal result)
      | none => .keep
  | .binary op (.literal left) (.literal right) =>
      match op.fold left right with
      | .ok (some result) => .replace (.literal result)
      | .ok none => .keep
      | .error fault => .stop fault
  | _ => .keep

end Folding

/-- Folds the constants of an expression. -/
def Expr.foldConstants (expression : Expr) : Transformed ArithmeticFault Expr :=
  expression.transform Folding.rule

/-- Folds the constants of a statement. -/
def Stmt.foldConstants (statement : Stmt) : Transformed ArithmeticFault Stmt :=
  statement.transform Folding.rule

/-- Folds the constants of every statement of a program. -/
def Program.foldConstants (program : Program) :
    Transformed ArithmeticFault Program :=
  program.transformWith Stmt.foldConstants

end MiddleEnd
