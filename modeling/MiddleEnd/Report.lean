import MiddleEnd.Analysis
import MiddleEnd.Number.Percent
import MiddleEnd.Optimizer

/-!
# Reports

The texts in which analyses, statistics and passes are shown to a reader.
-/

namespace MiddleEnd

/-- The texts of the entries of a list, one after the other. -/
def concatMap {α : Type} (render : α → String) (entries : List α) : String :=
  String.join (entries.map render)

/-- One opportunity, as an item with its position in the list. -/
def Opportunity.reportItem (position : Nat) (opportunity : Opportunity) : String :=
  toString position ++ ". " ++ opportunity.description ++ " (" ++
    toString (Number.percent opportunity.improvement).toInt ++
    "% improvement, confidence: " ++
    toString (Number.percent opportunity.confidence).toInt ++ "%)\n"

/-- The functions and calls of a program, and what it could gain. -/
def Opportunity.report
    (graph : CallGraph)
    (opportunities : List Opportunity) : String :=
  "=== Optimization Analysis Report ===\n\n" ++
    "Call Graph Analysis:\n" ++
    "Total functions: " ++ toString graph.nodes.size ++ "\n" ++
    "Total calls: " ++ toString graph.edges.length ++ "\n" ++
    "Inlining candidates: " ++ toString (graph.countNodes (·.inlinable)) ++
    "\n" ++
    "Recursive functions: " ++ toString (graph.countNodes (·.recursive)) ++
    "\n" ++
    "\nOptimization Opportunities:\n" ++
    concatMap (fun (opportunity, index) => opportunity.reportItem (index + 1))
      opportunities.zipIdx

/-- The functions and calls of an analyzed program, and what it could gain. -/
def Analysis.report (analysis : Analysis) : String :=
  Opportunity.report analysis.callGraph analysis.opportunities

namespace DataFlow

/-- The line of a variable: the functions in which it is live. -/
def livenessLine (key : String) (liveness : Liveness) : String :=
  "  " ++ key ++ ":" ++ concatMap (" " ++ ·.scope) liveness.ranges ++ "\n"

/-- The lines of a variable: its definitions. -/
def definitionLines (key : String) (definitions : List Definition) : String :=
  concatMap (fun definition => "  " ++ key ++ " = " ++ definition.value ++ "\n")
    definitions

/-- The lines of a function: how many expressions it has, and which. -/
def expressionLines (key : String) (expressions : Std.TreeSet String) : String :=
  "  " ++ key ++ ": " ++ toString expressions.size ++ "\n" ++
    concatMap (fun text => "    " ++ text ++ "\n") expressions.toList

/-- The data flow of a program. -/
def report (flow : DataFlow) : String :=
  "=== Data Flow Analysis ===\n" ++
    "Live variables: " ++ toString flow.liveness.size ++ "\n" ++
    concatMap (fun (key, liveness) => livenessLine key liveness)
      flow.liveness.toList ++
    "Reaching definitions:\n" ++
    concatMap (fun (key, definitions) => definitionLines key definitions)
      flow.reaching.toList ++
    "Available expressions:\n" ++
    concatMap (fun (key, expressions) => expressionLines key expressions)
      flow.available.toList

end DataFlow

namespace ControlFlow

/-- What a block is besides being a block. -/
def blockRole (block : BasicBlock) : String :=
  match block.isEntry, block.isExit with
  | true, true => " (entry, exit)"
  | true, false => " (entry)"
  | false, true => " (exit)"
  | false, false => ""

/-- The line of a function: its blocks. -/
def blocksLine (function : String) (blocks : List BasicBlock) : String :=
  "  " ++ function ++ ": " ++ toString blocks.length ++ " block(s):" ++
    concatMap (fun block => " " ++ block.id ++ blockRole block) blocks ++ "\n"

/-- The control flow of a program. -/
def report (flow : ControlFlow) : String :=
  "=== Control Flow Analysis ===\n" ++
    concatMap (fun (function, blocks) => blocksLine function blocks)
      flow.blocks.toList ++
    "Loops: " ++ toString flow.loops.length ++ "\n" ++
    concatMap
      (fun loop => "  " ++ loop.function ++ ": " ++ loop.header ++ "\n")
      flow.loops

end ControlFlow

/-- What a run of the optimizer did. -/
def Statistics.report (statistics : Statistics) : String :=
  "=== Optimization Statistics ===\n" ++
    "Passes applied:" ++
    (if statistics.passes.isEmpty then " (none)" else "") ++
    concatMap (" " ++ ·) statistics.passes ++ "\n" ++
    "Transformations made: " ++ toString statistics.transformations ++ "\n" ++
    "Code size: " ++ toString statistics.sizeBefore ++ " -> " ++
    toString statistics.sizeAfter ++ "\n" ++
    "Optimization time: " ++ toString statistics.elapsed ++ " us\n"

namespace Options

/-- The line of a pass: whether it is on, and what it is for. -/
def passLine (options : Options) (kind : PassKind) : String :=
  "  " ++ (if options.enables kind then "[on]  " else "[off] ") ++
    kind.name ++ " (" ++ kind.minimumLevel.name ++ "): " ++
    kind.description ++ "\n"

/-- The passes, with those that are on. -/
def passTable (options : Options) : String :=
  "Optimization passes (level: " ++ options.level.name ++ "):\n" ++
    concatMap options.passLine PassKind.all

end Options

end MiddleEnd
