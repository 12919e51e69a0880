import MiddleEnd.CallGraph.Basic
import MiddleEnd.Cycle

/-!
# Recursion in a call graph

A function is recursive when calls that start from it can lead into a cycle,
whether or not the function lies on the cycle itself.  Only calls between
functions that have a node count.
-/

namespace MiddleEnd

namespace CallGraph

/-- The nodes that a node calls. -/
def callees (graph : CallGraph) (symbol : Symbol) : List Symbol :=
  if symbol ∈ graph.nodes then
    graph.edges.filterMap fun edge =>
      if edge.caller = symbol ∧ edge.callee ∈ graph.nodes then
        some edge.callee
      else
        none
  else
    []

/-- The calls between nodes. -/
def links (graph : CallGraph) : Links Symbol where
  sources := graph.nodes.keys
  targets := graph.callees
  targets_eq_nil := by
    intro symbol absent
    rw [Std.TreeMap.mem_keys] at absent
    simp [callees, absent]

/-- The declared symbols from which calls lead into a cycle. -/
def recursiveSymbols (graph : CallGraph) : List Symbol :=
  graph.order.filter graph.links.entersCycle

/-- Marks the nodes of the declared symbols that are recursive. -/
def markRecursion (graph : CallGraph) : CallGraph :=
  let recursive := graph.recursiveSymbols
  { graph with
    nodes := graph.nodes.map fun symbol node =>
      { node with recursive := node.recursive || symbol ∈ recursive } }

end CallGraph

end MiddleEnd
