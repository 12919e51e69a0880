import MiddleEnd.CallGraph.Recursion
import MiddleEnd.Calls
import MiddleEnd.Metrics

/-!
# The call graph of a program

The graph is built in two rounds over the functions of a program.  The first
declares them: a later declaration of a name replaces the node of an earlier
one and is noted as a redefinition.  The second records the calls of every
declaration.
-/

namespace MiddleEnd

namespace CallGraph

/-- A function of lower complexity than this may be inlined. -/
def inliningThreshold : Nat := 10

/-- The graph with a node for the function. -/
def declare (graph : CallGraph) (definition : FunctionDef) : CallGraph :=
  let symbol := graph.symbolFor definition.name
  let node : CallNode :=
    { symbol
      complexity := definition.complexity
      inlinable := definition.complexity < inliningThreshold }
  let declared := { graph with nodes := graph.nodes.insert symbol node }
  if symbol ∈ graph.nodes then
    { declared with redefinitions := graph.redefinitions ++ [symbol] }
  else
    { declared with order := graph.order ++ [symbol] }

/-- The graph with one more call between two symbols. -/
def recordCall (graph : CallGraph) (caller callee : Symbol) : CallGraph :=
  { graph with
    edges := graph.edges ++ [{ caller, callee, sites := [.unknown] }]
    nodes := graph.nodes.modify callee fun node =>
      { node with callCount := node.callCount + 1 } }

/-- The graph with the calls that the body of the function makes. -/
def recordCalls (graph : CallGraph) (definition : FunctionDef) : CallGraph :=
  definition.body.directCalls.foldl
    (fun graph name =>
      graph.recordCall
        (graph.symbolFor definition.name)
        (graph.symbolFor name))
    graph

/-- The call graph of a program, before recursion is looked for. -/
def ofFunctions (module : String) (functions : List FunctionDef) : CallGraph :=
  functions.foldl recordCalls (functions.foldl declare { module })

/-- The call graph of a program. -/
def ofProgram (program : Program) : CallGraph :=
  (ofFunctions program.module program.functions).markRecursion

end CallGraph

end MiddleEnd
