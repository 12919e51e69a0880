import Std.Data.TreeMap
import MiddleEnd.Tree.Basic

/-!
# Control flow

Every function is one basic block, which is both where it is entered and
where it is left.  The loops of a function are those at the top of its body;
a loop nested deeper is not seen.
-/

namespace MiddleEnd

/-- A stretch of code without jumps. -/
structure BasicBlock where
  id : String
  statementCount : Nat := 0
  predecessors : List String := []
  successors : List String := []
  isEntry : Bool := false
  isExit : Bool := false
deriving DecidableEq, Repr

/-- The dominance relation between the blocks of a function. -/
structure Dominance where
  function : String
  dominators : Std.TreeMap String (List String) := ∅
  immediateDominators : Std.TreeMap String String := ∅

/-- A loop of a function, by the names of its blocks. -/
structure LoopShape where
  function : String
  header : String
  body : List String := []
  exits : List String := []
  /-- How often the loop runs, if that is known. -/
  tripCount : Option Int64 := none
  /-- The expressions that the loop does not change. -/
  invariant : List String := []
deriving DecidableEq, Repr

/-- The control-flow summary of a program; maps are sorted by function. -/
structure ControlFlow where
  blocks : Std.TreeMap String (List BasicBlock) := ∅
  dominance : Std.TreeMap String Dominance := ∅
  loops : List LoopShape := []

/-- Whether the expression is a loop. -/
def Expr.isLoop : Expr → Bool
  | .loop _ _ => true
  | _ => false

/-- Whether the statement is nothing but a loop. -/
def Stmt.isLoop : Stmt → Bool
  | .expr expression => expression.isLoop
  | _ => false

/--
How many loops stand at the top of a body: the body itself, or the statements
of a body that is a block.
-/
def Expr.topLoops : Expr → Nat
  | .loop _ _ => 1
  | .block statements => statements.countP Stmt.isLoop
  | _ => 0

namespace ControlFlow

/-- The block that stands for a whole function. -/
def wholeBody : BasicBlock where
  id := "entry"
  isEntry := true
  isExit := true

/-- A loop at the top of the named function. -/
def topLoop (function : String) : LoopShape where
  function := function
  header := "while_loop"
  body := ["body"]
  exits := ["exit"]

/-- Adds the summary of a function. -/
def addFunction (flow : ControlFlow) (function : FunctionDef) : ControlFlow where
  blocks := flow.blocks.insert function.name [wholeBody]
  dominance :=
    flow.dominance.insert function.name { function := function.name }
  loops :=
    flow.loops ++
      List.replicate function.body.topLoops (topLoop function.name)

/-- The control-flow summary of a program. -/
def ofProgram (program : Program) : ControlFlow :=
  program.functions.foldl addFunction {}

end ControlFlow

end MiddleEnd
