import MiddleEnd.Tree.Basic

/-!
# Source text

Programs are written with two spaces of indentation a level and with the
parentheses that precedence asks for.  Levels are 32-bit words, whose arithmetic
wraps.  A left operand of the same precedence
is never put in parentheses, and a right one only under a subtraction, a
division or a remainder.
-/

namespace MiddleEnd

/-! ## Precedence -/

namespace Precedence

/-- Conditionals and loops. -/
def control : Nat := 5

/-- Assignments. -/
def assignment : Nat := 10

/-- Unary operators. -/
def unary : Nat := 60

/-- Calls. -/
def call : Nat := 70

/-- Literals, names and blocks. -/
def primary : Nat := 80

end Precedence

namespace BinaryOp

/-- How tightly the operator binds. -/
def precedence : BinaryOp → Nat
  | .or => 15
  | .and => 17
  | .equal | .notEqual => 20
  | .less | .lessEqual | .greater | .greaterEqual => 30
  | .add | .subtract => 40
  | .multiply | .divide | .modulo => 50

/-- Whether a right operand of the same precedence has to be grouped. -/
def groupsRight : BinaryOp → Bool
  | .subtract | .divide | .modulo => true
  | _ => false

end BinaryOp

namespace Expr

/-- How tightly the outermost form of the expression binds. -/
def precedence : Expr → Nat
  | .literal _ | .ident _ | .block _ => Precedence.primary
  | .unary _ _ => Precedence.unary
  | .binary op _ _ => op.precedence
  | .call _ _ => Precedence.call
  | .branch _ _ _ | .loop _ _ => Precedence.control
  | .assign _ _ => Precedence.assignment

/-- Whether the text of the expression ends with the brace of a block. -/
def endsWithBlock : Expr → Bool
  | .block _ => true
  | .branch _ thenBranch none => thenBranch.endsWithBlock
  | .branch _ _ (some elseBranch) => elseBranch.endsWithBlock
  | .loop _ body => body.endsWithBlock
  | _ => false

/-- What closes a statement that ends with the expression. -/
def terminator (expression : Expr) : String :=
  if expression.endsWithBlock then "\n" else ";\n"

end Expr

/-! ## Text -/

/--
The spaces before a statement: as many as the word `level * 2` counts, and none
if it is negative.
-/
def indentation (level : Int32) : String :=
  String.ofList (List.replicate (level * 2).toNatClampNeg ' ')

/-- The text, in parentheses if they are needed. -/
def parenthesize (needed : Bool) (text : String) : String :=
  if needed then "(" ++ text ++ ")" else text

mutual

/-- The text of an expression that stands on a line of the given level. -/
def Expr.render (level : Int32) : Expr → String
  | .literal value => value.render
  | .ident name => name
  | .unary op operand =>
      op.spelling ++
        parenthesize (operand.precedence ≤ Precedence.unary)
          (operand.render level)
  | .binary op left right =>
      parenthesize (left.precedence < op.precedence) (left.render level) ++
        " " ++ op.spelling ++ " " ++
        parenthesize
          (right.precedence < op.precedence ||
            (right.precedence == op.precedence && op.groupsRight))
          (right.render level)
  | .call callee arguments =>
      parenthesize (callee.precedence < Precedence.call)
          (callee.render level) ++
        "(" ++ ", ".intercalate (Expr.renderList level arguments) ++ ")"
  | .branch condition thenBranch elseBranch =>
      "if (" ++ condition.render level ++ ") " ++ thenBranch.render level ++
        Expr.renderElse level elseBranch
  | .loop condition body =>
      "while (" ++ condition.render level ++ ") " ++ body.render level
  | .block statements =>
      "\x7b\n" ++ Stmt.renderList (level + 1) statements ++
        indentation level ++ "\x7d"
  | .assign target value =>
      target ++ " = " ++
        parenthesize (value.precedence < Precedence.assignment)
          (value.render level)

/-- The texts of the expressions of a list. -/
def Expr.renderList (level : Int32) : List Expr → List String
  | [] => []
  | expression :: rest =>
      expression.render level :: Expr.renderList level rest

/-- The text of the second branch of a conditional, empty if there is none. -/
def Expr.renderElse (level : Int32) : Option Expr → String
  | none => ""
  | some elseBranch => " else " ++ elseBranch.render level

/-- The text of a value that a statement returns, empty if there is none. -/
def Expr.renderReturned (level : Int32) : Option Expr → String
  | none => ""
  | some value => " " ++ value.render level

/-- The text of a statement at the given level. -/
def Stmt.render (level : Int32) : Stmt → String
  | .expr expression =>
      indentation level ++ expression.render level ++ expression.terminator
  | .bind name value =>
      indentation level ++ "let " ++ name ++ " = " ++ value.render level ++
        ";\n"
  | .ret value =>
      indentation level ++ "return" ++ Expr.renderReturned level value ++
        ";\n"
  | .function name parameters body =>
      indentation level ++ "fn " ++ name ++ "(" ++
        ", ".intercalate parameters ++ ") " ++ body.render level ++
        body.terminator
  | .use path => indentation level ++ "use " ++ path ++ ";\n"

/-- The texts of the statements of a list, one after the other. -/
def Stmt.renderList (level : Int32) : List Stmt → String
  | [] => ""
  | statement :: rest =>
      statement.render level ++ Stmt.renderList level rest

end

theorem Expr.renderList_eq_map (level : Int32) (expressions : List Expr) :
    Expr.renderList level expressions =
      expressions.map (Expr.render level) := by
  induction expressions with
  | nil => rfl
  | cons expression rest hypothesis =>
      rw [Expr.renderList, hypothesis, List.map_cons]

/-- The text of an expression that stands on an unindented line. -/
def Expr.source (expression : Expr) : String :=
  expression.render 0

namespace Program

/-- The text of a program whose statements start at the given level. -/
def render (level : Int32) (program : Program) : String :=
  Stmt.renderList level program.statements

/-- The text of a program. -/
def source (program : Program) : String :=
  program.render 0

end Program

end MiddleEnd
