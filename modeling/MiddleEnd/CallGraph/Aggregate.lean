import MiddleEnd.CallGraph.Basic

/-!
# Calls counted by pair

The edges of a call graph are summed up by caller and callee, in the order in
which each pair first occurs.  Frequencies add as 64-bit words.
-/

namespace MiddleEnd

/-- How often one function calls another. -/
structure CallTotal where
  caller : Symbol
  callee : Symbol
  frequency : UInt64
deriving DecidableEq, Repr

namespace CallTotal

/-- Whether the edge is between the functions of the total. -/
def covers (total : CallTotal) (edge : CallEdge) : Bool :=
  total.caller = edge.caller && total.callee = edge.callee

/-- The totals with one more edge counted. -/
def add : List CallTotal → CallEdge → List CallTotal
  | [], edge => [⟨edge.caller, edge.callee, edge.frequency⟩]
  | total :: rest, edge =>
      if total.covers edge then
        { total with frequency := total.frequency + edge.frequency } :: rest
      else
        total :: add rest edge

end CallTotal

/-- The calls of a graph, counted by caller and callee. -/
def CallGraph.totals (graph : CallGraph) : List CallTotal :=
  graph.edges.foldl CallTotal.add []

end MiddleEnd
