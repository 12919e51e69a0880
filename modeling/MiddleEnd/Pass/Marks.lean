import MiddleEnd.ControlFlow
import MiddleEnd.Metrics

/-!
# Marks

Passes that change nothing yet: each of them only counts the places in which
it would have something to do.
-/

namespace MiddleEnd

namespace Program

/-- A function of lower complexity than this is marked for inlining. -/
def inlineMarkThreshold : Nat := 5

/-- How many functions are simple enough to be inlined. -/
def inlinableFunctions (program : Program) : Nat :=
  program.functions.countP (·.complexity < inlineMarkThreshold)

/-- How many loops stand at the top of the functions. -/
def topLoops (program : Program) : Nat :=
  program.functions.foldr
    (fun definition loops => definition.body.topLoops + loops) 0

/-- How many functions are searched for common subexpressions: all. -/
def commonSubexpressionMarks (program : Program) : Nat :=
  program.functionCount

/-- How many functions are searched for tail calls: all. -/
def tailCallMarks (program : Program) : Nat :=
  program.functionCount

/-- How many functions are searched for vectorizable code: all. -/
def vectorizationMarks (program : Program) : Nat :=
  program.functionCount

end Program

end MiddleEnd
