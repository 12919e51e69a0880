/-!
# Operators

The unary and binary operators of the language, with the spelling used in
source text, the name used in descriptions and the number used in compact
encodings.
-/

namespace MiddleEnd

/-- A unary operator. -/
inductive UnaryOp where
  | negate
  | not
deriving DecidableEq, Repr

/-- A binary operator. -/
inductive BinaryOp where
  | add
  | subtract
  | multiply
  | divide
  | modulo
  | equal
  | notEqual
  | less
  | lessEqual
  | greater
  | greaterEqual
  | and
  | or
deriving DecidableEq, Repr

/-- A number that stands for no operator. -/
inductive UnknownOperator where
  | unary
  | binary
deriving DecidableEq, Repr

/-- What is said about a number that stands for no operator. -/
def UnknownOperator.message : UnknownOperator → String
  | .unary => "Invalid unary operator"
  | .binary => "Invalid binary operator"

/-- The entry of a list at an integer position, if there is one. -/
def entryAt? {α : Type} (entries : List α) (position : Int) : Option α :=
  if position < 0 then none else entries[position.toNat]?

namespace UnaryOp

/-- The unary operators in the order of their numbers. -/
def all : List UnaryOp := [.negate, .not]

/-- The operator with the given number. -/
def ofNumber (number : Int) : Except UnknownOperator UnaryOp :=
  match entryAt? all number with
  | some op => .ok op
  | none => .error .unary

/-- The operator as it stands in source text. -/
def spelling : UnaryOp → String
  | .negate => "-"
  | .not => "!"

/-- The operator in words. -/
def name : UnaryOp → String
  | .negate => "Negate"
  | .not => "Not"

end UnaryOp

namespace BinaryOp

/-- The binary operators in the order of their numbers. -/
def all : List BinaryOp :=
  [.add, .subtract, .multiply, .divide, .modulo, .equal, .notEqual,
    .less, .lessEqual, .greater, .greaterEqual, .and, .or]

/-- The operator with the given number. -/
def ofNumber (number : Int) : Except UnknownOperator BinaryOp :=
  match entryAt? all number with
  | some op => .ok op
  | none => .error .binary

/-- The operator as it stands in source text. -/
def spelling : BinaryOp → String
  | .add => "+"
  | .subtract => "-"
  | .multiply => "*"
  | .divide => "/"
  | .modulo => "%"
  | .equal => "=="
  | .notEqual => "!="
  | .less => "<"
  | .lessEqual => "<="
  | .greater => ">"
  | .greaterEqual => ">="
  | .and => "&&"
  | .or => "||"

/-- The operator in words. -/
def name : BinaryOp → String
  | .add => "Add"
  | .subtract => "Subtract"
  | .multiply => "Multiply"
  | .divide => "Divide"
  | .modulo => "Modulo"
  | .equal => "Equal"
  | .notEqual => "NotEqual"
  | .less => "LessThan"
  | .lessEqual => "LessThanOrEqual"
  | .greater => "GreaterThan"
  | .greaterEqual => "GreaterThanOrEqual"
  | .and => "And"
  | .or => "Or"

end BinaryOp

end MiddleEnd
