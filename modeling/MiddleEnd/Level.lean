import MiddleEnd.Message

/-!
# Optimization levels

A level is written as a digit or as a word, in any case.  A digit or a word
may follow the dash and the letter of a compiler switch, and a digit may
follow the letter alone.
-/

namespace MiddleEnd

/-- How much optimization is wanted. -/
inductive Level where
  | none
  | basic
  | standard
  | aggressive
deriving DecidableEq, Repr

/-- A text that names no level. -/
structure UnknownLevel where
  text : String
deriving DecidableEq, Repr

/-- What is said about a text that names no level. -/
def UnknownLevel.message (unknown : UnknownLevel) : String :=
  terminated ("invalid optimization level: '" ++ unknown.text ++ "'")

namespace Level

/-- The number of the level. -/
def number : Level → Nat
  | .none => 0
  | .basic => 1
  | .standard => 2
  | .aggressive => 3

/-- The level with the given number; any other number asks for the standard. -/
def ofInt : Int → Level
  | 0 => .none
  | 1 => .basic
  | 2 => .standard
  | 3 => .aggressive
  | _ => .standard

/-- The name of the level. -/
def name : Level → String
  | .none => "none"
  | .basic => "basic"
  | .standard => "standard"
  | .aggressive => "aggressive"

/-- Whether one level asks for all that another one asks for. -/
def includes (level required : Level) : Bool :=
  required.number ≤ level.number

/-- The level that a digit or a word in small letters names. -/
def ofWord? (word : List Char) : Option Level :=
  if word = ['0'] ∨ word = "none".toList then
    some .none
  else if word = ['1'] ∨ word = "basic".toList then
    some .basic
  else if word = ['2'] ∨ word = "standard".toList then
    some .standard
  else if word = ['3'] ∨ word = "aggressive".toList then
    some .aggressive
  else
    Option.none

/-- The text without the letter of a compiler switch. -/
def withoutSwitch : List Char → List Char
  | '-' :: 'o' :: word => word
  | ['o', digit] => [digit]
  | word => word

/-- The level that a text names. -/
def parse (text : String) : Except UnknownLevel Level :=
  match ofWord? (withoutSwitch (text.toList.map Char.toLower)) with
  | some level => .ok level
  | Option.none => .error ⟨text⟩

end Level

end MiddleEnd
