import Std.Data.TreeMap
import MiddleEnd.Location
import MiddleEnd.Symbol

/-!
# Call graphs

A call graph has a node for every function and an edge for every recorded
call.  Nodes are looked up by symbol; `order` lists the symbols as they were
declared, and is what gives the nodes an order.  Nothing forces an entry of
`order`, or an end of an edge, to have a node: a call may leave the program.
-/

namespace MiddleEnd

/-- What is known about a function. -/
structure CallNode where
  symbol : Symbol
  complexity : Nat := 0
  /-- How many recorded calls name the function. -/
  callCount : Nat := 0
  /-- Whether the function is simple enough to be inlined. -/
  inlinable : Bool := false
  /-- Whether the function is called often; no analysis decides this yet. -/
  hot : Bool := false
  /-- Whether calls from the function can lead into a cycle of calls. -/
  recursive : Bool := false
deriving DecidableEq, Repr

/-- A recorded call. -/
structure CallEdge where
  caller : Symbol
  callee : Symbol
  sites : List Location := []
  frequency : UInt64 := 1
deriving DecidableEq, Repr

/-- The functions of a module and the calls between them. -/
structure CallGraph where
  /-- The path of the module. -/
  module : String := ""
  nodes : Std.TreeMap Symbol CallNode := ∅
  /-- The symbols in order of declaration. -/
  order : List Symbol := []
  edges : List CallEdge := []
  /-- The symbols declared again, once for each further declaration. -/
  redefinitions : List Symbol := []

namespace CallGraph

/-- The symbol of a name in the module of the graph. -/
def symbolFor (graph : CallGraph) (name : String) : Symbol :=
  ⟨graph.module, name⟩

/-- The node of a name in the module of the graph. -/
def find? (graph : CallGraph) (name : String) : Option CallNode :=
  graph.nodes[graph.symbolFor name]?

/-- The nodes in order of declaration, if every entry of the order has one. -/
def orderedNodes? (graph : CallGraph) : Option (List CallNode) :=
  graph.order.mapM (graph.nodes[·]?)

/-- The nodes in order of declaration; an entry without a node is passed over. -/
def declaredNodes (graph : CallGraph) : List CallNode :=
  graph.order.filterMap (graph.nodes[·]?)

/-- How many nodes have the property. -/
def countNodes (graph : CallGraph) (property : CallNode → Bool) : Nat :=
  graph.nodes.values.countP property

end CallGraph

end MiddleEnd
