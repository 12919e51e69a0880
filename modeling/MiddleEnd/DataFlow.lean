import Std.Data.TreeMap
import Std.Data.TreeSet
import MiddleEnd.Location
import MiddleEnd.Tree.Printer
import MiddleEnd.Tree.Walk

/-!
# Data flow

A summary in one pass over the functions of a program, with no fixed point
behind it.  A variable is live in a function whose body mentions it.  A
definition is a variable bound directly in a block, and reaches whatever
follows.  The expressions available in a function are the operator
expressions of its body, by their text.

The summary of a function is added to what is known: live ranges and
definitions accumulate, while the expressions of a later function replace
those of an earlier one with the same name.
-/

namespace MiddleEnd

/-- The stretch of a program in which a variable is live. -/
structure LiveRange where
  start : Location
  stop : Location
  /-- The function to which the range belongs. -/
  scope : String
deriving DecidableEq, Repr

/-- Where a variable is live. -/
structure Liveness where
  variableName : String
  ranges : List LiveRange := []
  firstDefinition : Option Location := none
  lastUse : Option Location := none
deriving DecidableEq, Repr

/-- A variable bound to a value. -/
structure Definition where
  variableName : String
  location : Location
  /-- The source text of the value. -/
  value : String
deriving DecidableEq, Repr

/-- The data-flow summary of a program; maps are sorted by their keys. -/
structure DataFlow where
  /-- The live ranges of each variable. -/
  liveness : Std.TreeMap String Liveness := ∅
  /-- The definitions of each variable. -/
  reaching : Std.TreeMap String (List Definition) := ∅
  /-- The operator expressions of each function. -/
  available : Std.TreeMap String (Std.TreeSet String) := ∅

/-- The name that a statement binds to a value, with the value. -/
def Stmt.binding? : Stmt → Option (String × Expr)
  | .bind name value => some (name, value)
  | _ => none

namespace Expr

/-- The bindings that stand directly in the expression, if it is a block. -/
def bindings : Expr → List (String × Expr)
  | .block statements => statements.filterMap Stmt.binding?
  | _ => []

/-- The names that the outermost node of the expression mentions. -/
def mentions : Expr → List String
  | .ident name => [name]
  | expression => expression.bindings.map Prod.fst

/-- Whether the outermost node of the expression is an operator. -/
def isOperation : Expr → Bool
  | .unary _ _ => true
  | .binary _ _ _ => true
  | _ => false

/-- The variables mentioned anywhere in the expression. -/
def variableNames (expression : Expr) : Std.TreeSet String :=
  .ofList (expression.subexprs.flatMap mentions)

/-- The definitions in the blocks of the expression, outer blocks first. -/
def definitions (expression : Expr) : List Definition :=
  (expression.subexprs.flatMap bindings).map fun (name, value) =>
    ⟨name, .unknown, value.source⟩

/-- The texts of the operator expressions anywhere in the expression. -/
def operations (expression : Expr) : Std.TreeSet String :=
  .ofList ((expression.subexprs.filter isOperation).map Expr.source)

end Expr

namespace DataFlow

/-- Notes that a variable is live in a function. -/
def addRange
    (scope : String)
    (liveness : Std.TreeMap String Liveness)
    (variableName : String) : Std.TreeMap String Liveness :=
  let range : LiveRange := ⟨.unknown, .unknown, scope⟩
  liveness.alter variableName fun known =>
    let known := known.getD { variableName }
    some { known with ranges := known.ranges ++ [range] }

/-- Notes a definition under its variable. -/
def addDefinition
    (reaching : Std.TreeMap String (List Definition))
    (definition : Definition) : Std.TreeMap String (List Definition) :=
  reaching.alter definition.variableName fun known =>
    some (known.getD [] ++ [definition])

/-- Adds the summary of a function. -/
def addFunction (flow : DataFlow) (function : FunctionDef) : DataFlow where
  liveness :=
    function.body.variableNames.toList.foldl (addRange function.name) flow.liveness
  reaching := function.body.definitions.foldl addDefinition flow.reaching
  available := flow.available.insert function.name function.body.operations

/-- The data-flow summary of a program. -/
def ofProgram (program : Program) : DataFlow :=
  program.functions.foldl addFunction {}

end DataFlow

end MiddleEnd
