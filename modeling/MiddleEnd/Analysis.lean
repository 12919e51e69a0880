import MiddleEnd.CallGraph.Build
import MiddleEnd.DataFlow
import MiddleEnd.Opportunity

/-!
# Whole-program analysis

An analysis holds the call graph, the data flow, the control flow and the
opportunities of one program.  An analyzer keeps the analyses it has made
until its history is cleared.
-/

namespace MiddleEnd

/-- What is known about a program. -/
structure Analysis where
  callGraph : CallGraph
  dataFlow : DataFlow
  controlFlow : ControlFlow
  opportunities : List Opportunity

/-- Analyzes a program. -/
def Analysis.ofProgram (program : Program) : Analysis :=
  let callGraph := CallGraph.ofProgram program
  let controlFlow := ControlFlow.ofProgram program
  { callGraph
    dataFlow := DataFlow.ofProgram program
    controlFlow
    opportunities := Opportunity.identify callGraph controlFlow }

/-- An analyzer with the analyses made so far, oldest first. -/
structure Analyzer where
  history : List Analysis := []

namespace Analyzer

/-- Analyzes a program and keeps the analysis. -/
def analyze (analyzer : Analyzer) (program : Program) : Analyzer × Analysis :=
  let analysis := Analysis.ofProgram program
  ({ analyzer with history := analyzer.history ++ [analysis] }, analysis)

/-- The last analysis made. -/
def last? (analyzer : Analyzer) : Option Analysis :=
  analyzer.history.getLast?

/-- Forgets the analyses made so far. -/
def clearHistory (analyzer : Analyzer) : Analyzer :=
  { analyzer with history := [] }

end Analyzer

end MiddleEnd
