import MiddleEnd.CommandLine.Request
import MiddleEnd.Report
import MiddleEnd.Sample

/-!
# The command line

A request names a sample program, which is shown, analyzed and optimized as
asked.  What is written goes to two texts, so that a run is a value: output
for results, errors for everything else.
-/

namespace MiddleEnd

namespace CommandLine

/-- What a run leaves behind. -/
structure Output where
  exitCode : Nat
  out : String := ""
  err : String := ""
deriving DecidableEq, Repr

/-! ## Texts -/

/-- How the program is used. -/
def usage (programName : String) : String :=
  "Usage: " ++ programName ++
    " [-O<n> | --level <name>] [--entry <fn>] [--analyze] [--optimize]" ++
    " [--ast] --sample <name>\n" ++
    "  -O<n>, --level <name>  Optimization level: 0-3 or none, basic," ++
    " standard, aggressive (default 2)\n" ++
    "  --entry <fn>           Keep only functions reachable from <fn>\n" ++
    "  --sample <name>        Built-in program to process\n" ++
    "  --list-samples         List built-in programs\n" ++
    "  --ast                  Print the program source before optimizing\n" ++
    "  --analyze              Print the analysis reports\n" ++
    "  --optimize             Optimize and print the result and statistics" ++
    "\n" ++
    "Without --ast, --analyze or --optimize, all three are done.\n"

/-- The samples with their descriptions. -/
def sampleList : String :=
  concatMap
    (fun sample => sample.name ++ "  " ++ sample.description ++ "\n")
    Sample.catalog

/-- The text of a message that ends a run. -/
def errorLine (message : String) : String :=
  "[error] " ++ message ++ "\n"

/-! ## Runs -/

/-- What is left when the reading of the arguments ends early. -/
def Interruption.output (programName : String) : Interruption → Output
  | .help => { exitCode := 0, err := usage programName }
  | .listSamples => { exitCode := 0, out := sampleList }
  | .missingValue argument =>
      { exitCode := 1
        err := "Missing value for " ++ argument ++ "\n" ++ usage programName }
  | .unknownOption argument =>
      { exitCode := 1
        err := "Unknown option: " ++ argument ++ "\n" ++ usage programName }

/-- The options and the program that a request names, or what is wrong. -/
def Request.resolve (request : Request) : Except String (Options × Program) := do
  let level ←
    if request.levelText.isEmpty then
      pure Level.standard
    else
      (Level.parse request.levelText).mapError UnknownLevel.message
  let program ← (Sample.find request.sample).mapError UnknownSample.message
  pure ({ level, entryPoint := request.entryPoint }, program)

/-- The reports on a program. -/
def analysisText (program : Program) : String :=
  let analysis := Analysis.ofProgram program
  analysis.report ++ "\n" ++ analysis.dataFlow.report ++ "\n" ++
    analysis.controlFlow.report ++ "\n"

/-- Optimizes a program, taking the time that this took from outside. -/
def optimizeOutput
    (elapsed : Int)
    (options : Options)
    (program : Program) : Output :=
  let table := options.passTable ++ "\n"
  let optimized := options.optimize program
  match optimized.result with
  | .error error =>
      { exitCode := 2, out := table, err := errorLine error.message }
  | .ok statistics =>
      { exitCode := 0
        out :=
          table ++ optimized.program.source ++ "\n" ++
            { statistics with elapsed }.report }

/-- Processes a program as a request asks. -/
def Request.process
    (request : Request)
    (elapsed : Int)
    (options : Options)
    (program : Program) : Output :=
  let shown := if request.showSource then program.source ++ "\n" else ""
  let analyzed := if request.analyze then analysisText program else ""
  let optimized :=
    if request.optimize then
      optimizeOutput elapsed options program
    else
      { exitCode := 0 }
  { optimized with out := shown ++ analyzed ++ optimized.out }

/-- Carries out a request. -/
def Request.output
    (request : Request)
    (programName : String)
    (elapsed : Int) : Output :=
  if request.sample.isEmpty then
    { exitCode := 1, err := usage programName }
  else
    match request.resolve with
    | .error message => { exitCode := 2, err := errorLine message }
    | .ok (options, program) => request.orAll.process elapsed options program

/-- Runs the program with the given arguments. -/
def run
    (programName : String)
    (elapsed : Int)
    (arguments : List String) : Output :=
  match arguments with
  | [] => { exitCode := 1, err := usage programName }
  | _ =>
      match ({} : Request).read arguments with
      | .error interruption => interruption.output programName
      | .ok request => request.output programName elapsed

end CommandLine

end MiddleEnd
