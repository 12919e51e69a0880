import MiddleEnd.Number.Decimal

/-!
# Literals

The constants that source text can hold, and how they are written.  Integers
are 64-bit words, floating-point numbers are told apart by their bits, and a
string is quoted with five escapes.
-/

namespace MiddleEnd

/-- A constant of the language. -/
inductive Literal where
  | null
  | bool (value : Bool)
  | int (value : Int64)
  | float (value : Number.Binary64)
  | string (value : String)
deriving DecidableEq

namespace Literal

/-- Whether both literals are integers. -/
def bothInt : Literal → Literal → Bool
  | .int _, .int _ => true
  | _, _ => false

/-- Whether both literals are floating-point numbers. -/
def bothFloat : Literal → Literal → Bool
  | .float _, .float _ => true
  | _, _ => false

/--
A character inside a quoted string.  The backslash, the quote and the three
layout characters are escaped, and every other character stands for itself.
-/
def escape : Char → List Char
  | '\\' => ['\\', '\\']
  | '"' => ['\\', '"']
  | '\n' => ['\\', 'n']
  | '\t' => ['\\', 't']
  | '\r' => ['\\', 'r']
  | other => [other]

/-- A string between quotes. -/
def quote (text : String) : String :=
  "\"" ++ String.ofList (text.toList.flatMap escape) ++ "\""

/-- The literal as it stands in source text. -/
def render : Literal → String
  | .null => "null"
  | .bool true => "true"
  | .bool false => "false"
  | .int value => toString value.toInt
  | .float value => Number.renderFloat value
  | .string value => quote value

end Literal

end MiddleEnd
