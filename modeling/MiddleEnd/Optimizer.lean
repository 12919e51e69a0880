import MiddleEnd.Pass.DeadFunctions
import MiddleEnd.Pass.Folding
import MiddleEnd.Pass.Kind
import MiddleEnd.Pass.Marks
import MiddleEnd.Pass.StrengthReduction

/-!
# The optimizer

The passes that a level enables run over a program one after the other.  A
run that fails leaves the program as far as it got; one whose entry point is
not a function of the program fails before any pass.  An optimizer keeps the
statistics of the runs that succeeded until its history is cleared.
-/

namespace MiddleEnd

/-- What an optimizer is asked to do. -/
structure Options where
  level : Level := .standard
  /-- The function from which a program is entered, if one is given. -/
  entryPoint : Option String := none
deriving DecidableEq, Repr

/-- Why a program could not be optimized. -/
inductive OptimizationError where
  /-- The entry point is not a function of the program. -/
  | unknownEntryPoint (name : String)
  /-- A constant expression has no value. -/
  | arithmetic (fault : ArithmeticFault)
deriving DecidableEq, Repr

/-- What is said about a program that could not be optimized. -/
def OptimizationError.message : OptimizationError → String
  | .unknownEntryPoint name =>
      terminated
        ("entry point '" ++ name ++ "' is not a function of the program")
  | .arithmetic fault => fault.message

/-- What a run did. -/
structure Statistics where
  /-- The names of the passes that ran, in order. -/
  passes : List String := []
  transformations : Nat := 0
  sizeBefore : Nat := 0
  sizeAfter : Nat := 0
  /-- The time that the run took in microseconds, if it was measured. -/
  elapsed : Int := 0
deriving DecidableEq, Repr

/-- What a run leaves behind. -/
structure Optimized where
  /-- The program, as far as the run got. -/
  program : Program
  result : Except OptimizationError Statistics

namespace Options

/-- Whether the pass is enabled. -/
def enables (options : Options) (kind : PassKind) : Bool :=
  kind.enabledAt options.level

/-- The enabled passes, in the order in which they run. -/
def enabledPasses (options : Options) : List PassKind :=
  PassKind.all.filter options.enables

/-- Runs one pass. -/
def runPass
    (options : Options)
    (kind : PassKind)
    (program : Program) : Transformed ArithmeticFault Program :=
  match kind with
  | .constantFolding => program.foldConstants
  | .deadCodeElimination =>
      ⟨(program.removeDeadFunctions options.entryPoint).program, .ok 1⟩
  | .functionInlining => ⟨program, .ok program.inlinableFunctions⟩
  | .loopOptimization => ⟨program, .ok program.topLoops⟩
  | .strengthReduction =>
      let reduced := program.reduceStrength
      ⟨reduced.result, .ok reduced.total⟩
  | .commonSubexpressionElimination =>
      ⟨program, .ok program.commonSubexpressionMarks⟩
  | .tailCallOptimization => ⟨program, .ok program.tailCallMarks⟩
  | .vectorization => ⟨program, .ok program.vectorizationMarks⟩

/-- Runs passes one after the other, until one of them stops. -/
def runPasses (options : Options) :
    List PassKind → Program → Transformed ArithmeticFault Program
  | [], program => .unchanged program
  | kind :: rest, program =>
      (options.runPass kind program).bind (options.runPasses rest)

/--
The entry point, if dead functions are to be removed and the program has no
function of that name.
-/
def missingEntryPoint? (options : Options) (program : Program) :
    Option String :=
  options.entryPoint.filter fun name =>
    options.enables .deadCodeElimination && !program.defines name

/-- Optimizes a program. -/
def optimize (options : Options) (program : Program) : Optimized :=
  match options.missingEntryPoint? program with
  | some name => ⟨program, .error (.unknownEntryPoint name)⟩
  | none =>
      let passes := options.enabledPasses
      let run := options.runPasses passes program
      { program := run.result
        result :=
          match run.count with
          | .error fault => .error (.arithmetic fault)
          | .ok transformations =>
              .ok
                { passes := passes.map PassKind.name
                  transformations
                  sizeBefore := program.size
                  sizeAfter := run.result.size } }

end Options

/-- An optimizer with the statistics of its successful runs, oldest first. -/
structure Optimizer where
  options : Options := {}
  history : List Statistics := []

namespace Optimizer

/-- Optimizes a program and keeps the statistics of a run that succeeds. -/
def optimize (optimizer : Optimizer) (program : Program) :
    Optimizer × Optimized :=
  let optimized := optimizer.options.optimize program
  match optimized.result with
  | .ok statistics =>
      ({ optimizer with history := optimizer.history ++ [statistics] },
        optimized)
  | .error _ => (optimizer, optimized)

/-- The pass with the given name. -/
def findPass? (name : String) : Option PassKind :=
  PassKind.all.find? (·.name == name)

/-- The statistics of the last run that succeeded. -/
def last? (optimizer : Optimizer) : Option Statistics :=
  optimizer.history.getLast?

/-- Forgets the statistics of the runs so far. -/
def clearHistory (optimizer : Optimizer) : Optimizer :=
  { optimizer with history := [] }

end Optimizer

end MiddleEnd
