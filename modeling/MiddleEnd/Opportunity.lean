import MiddleEnd.CallGraph.Basic
import MiddleEnd.ControlFlow

/-!
# Optimization opportunities

What a program could gain, read off its call graph and its control flow:
first the functions worth inlining, in order of declaration, then the loops
worth unrolling, then one entry each for dead code and for expensive
operations, which are always worth a look.
-/

namespace MiddleEnd

/-- A kind of optimization. -/
inductive OptimizationKind where
  | functionInlining
  | loopUnrolling
  | deadCodeElimination
  | constantFolding
  | strengthReduction
  | commonSubexpressionElimination
  | tailCallOptimization
  | vectorization
  | memoryOptimization
deriving DecidableEq, Repr

namespace OptimizationKind

/-- The kinds in the order of their numbers. -/
def all : List OptimizationKind :=
  [.functionInlining, .loopUnrolling, .deadCodeElimination, .constantFolding,
    .strengthReduction, .commonSubexpressionElimination,
    .tailCallOptimization, .vectorization, .memoryOptimization]

/-- The name of the kind. -/
def name : OptimizationKind → String
  | .functionInlining => "FunctionInlining"
  | .loopUnrolling => "LoopUnrolling"
  | .deadCodeElimination => "DeadCodeElimination"
  | .constantFolding => "ConstantFolding"
  | .strengthReduction => "StrengthReduction"
  | .commonSubexpressionElimination => "CommonSubexpressionElimination"
  | .tailCallOptimization => "TailCallOptimization"
  | .vectorization => "Vectorization"
  | .memoryOptimization => "MemoryOptimization"

end OptimizationKind

/-- A place where an optimization could help. -/
structure Opportunity where
  kind : OptimizationKind
  location : Location := .unknown
  description : String
  /-- The expected gain, as a fraction. -/
  improvement : Float
  /-- How sure the gain is, as a fraction. -/
  confidence : Float
  /-- What would be done. -/
  implementation : String
deriving DecidableEq

namespace Opportunity

/-- Inlining the function of a node. -/
def inlining (node : CallNode) : Opportunity :=
  let name := node.symbol.render
  { kind := .functionInlining
    description :=
      "Inline function '" ++ name ++ "' (complexity: " ++
        toString node.complexity ++ ", calls: " ++
        toString node.callCount ++ ")"
    improvement := 0.15
    confidence := 0.8
    implementation := "Replace calls to '" ++ name ++ "' with function body" }

/-- Unrolling a loop. -/
def unrolling (loop : LoopShape) : Opportunity where
  kind := .loopUnrolling
  description := "Unroll loop at '" ++ loop.header ++ "'"
  improvement := 0.25
  confidence := 0.7
  implementation := "Replace loop with unrolled iterations"

/-- Removing dead code. -/
def deadCode : Opportunity where
  kind := .deadCodeElimination
  description := "Remove unreachable code"
  improvement := 0.05
  confidence := 0.9
  implementation := "Remove unreachable basic blocks"

/-- Replacing expensive operations. -/
def cheaperOperations : Opportunity where
  kind := .strengthReduction
  description := "Replace expensive operations with cheaper equivalents"
  improvement := 0.1
  confidence := 0.8
  implementation := "Replace multiplication by powers of 2 with shifts"

end Opportunity

/-- Whether inlining the function is worth proposing. -/
def CallNode.worthInlining (node : CallNode) : Bool :=
  node.inlinable && node.callCount != 0 && !node.recursive

/-- The opportunities in a program with the given call graph and control flow. -/
def Opportunity.identify
    (graph : CallGraph)
    (flow : ControlFlow) : List Opportunity :=
  (graph.declaredNodes.filter CallNode.worthInlining).map inlining ++
    flow.loops.map unrolling ++ [deadCode, cheaperOperations]

end MiddleEnd
