import MiddleEnd.Level

/-!
# Passes

The passes in the order in which they run, each with the least level that
enables it.
-/

namespace MiddleEnd

/-- A pass. -/
inductive PassKind where
  | constantFolding
  | deadCodeElimination
  | functionInlining
  | loopOptimization
  | strengthReduction
  | commonSubexpressionElimination
  | tailCallOptimization
  | vectorization
deriving DecidableEq, Repr

namespace PassKind

/-- The passes in the order in which they run. -/
def all : List PassKind :=
  [.constantFolding, .deadCodeElimination, .functionInlining,
    .loopOptimization, .strengthReduction, .commonSubexpressionElimination,
    .tailCallOptimization, .vectorization]

/-- The position of the pass in the order. -/
def number : PassKind → Nat
  | .constantFolding => 0
  | .deadCodeElimination => 1
  | .functionInlining => 2
  | .loopOptimization => 3
  | .strengthReduction => 4
  | .commonSubexpressionElimination => 5
  | .tailCallOptimization => 6
  | .vectorization => 7

/-- The name of the pass. -/
def name : PassKind → String
  | .constantFolding => "constant_folding"
  | .deadCodeElimination => "dead_code_elimination"
  | .functionInlining => "function_inlining"
  | .loopOptimization => "loop_optimization"
  | .strengthReduction => "strength_reduction"
  | .commonSubexpressionElimination => "common_subexpression_elimination"
  | .tailCallOptimization => "tail_call_optimization"
  | .vectorization => "vectorization"

/-- What the pass is for. -/
def description : PassKind → String
  | .constantFolding => "Fold constant expressions at compile time"
  | .deadCodeElimination => "Remove unreachable and unused code"
  | .functionInlining => "Inline small functions to reduce call overhead"
  | .loopOptimization => "Optimize loops for better performance"
  | .strengthReduction =>
      "Replace expensive operations with cheaper equivalents"
  | .commonSubexpressionElimination => "Eliminate redundant computations"
  | .tailCallOptimization => "Optimize tail recursive calls"
  | .vectorization => "Vectorize operations where possible"

/-- The least level that enables the pass. -/
def minimumLevel : PassKind → Level
  | .constantFolding => .basic
  | .deadCodeElimination => .basic
  | .functionInlining => .standard
  | .loopOptimization => .standard
  | .strengthReduction => .standard
  | .commonSubexpressionElimination => .standard
  | .tailCallOptimization => .aggressive
  | .vectorization => .aggressive

/-- Whether the level enables the pass. -/
def enabledAt (kind : PassKind) (level : Level) : Bool :=
  level.includes kind.minimumLevel

end PassKind

end MiddleEnd
