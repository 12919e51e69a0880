import Mathlib.Data.List.Induction
import Mathlib.Data.List.Nodup
import MiddleEnd.Proofs.CallGraph

/-!
# The fields of a call graph agree

A call graph keeps the same facts more than once: the order has the keys of the
nodes, a node has its own symbol, and the calls are both edges and counts.  A
redefinition replaces a node that is already in place, and calls may lead out of
the program, so none of this is evident from the way in which a graph is built.

`CallGraph.Represents` says what the fields have to do with each other and with
the program.  First and later mentions of a name are told apart by position,
since it is the position that decides whether a declaration is a redefinition.
-/

namespace MiddleEnd

/-! ## First and later mentions -/

/-- The names of a list that stand at no earlier position. -/
def firstMentions (names : List String) : List String :=
  (names.zipIdx.filter fun entry => entry.1 ∉ names.take entry.2).map Prod.fst

/-- The names of a list that stand at an earlier position as well. -/
def laterMentions (names : List String) : List String :=
  (names.zipIdx.filter fun entry => entry.1 ∈ names.take entry.2).map Prod.fst

/-- What is read off each position and those before it is not changed by more. -/
theorem filter_zipIdx_concat
    (test : String → List String → Bool)
    (names : List String)
    (name : String) :
    (names ++ [name]).zipIdx.filter
        (fun entry => test entry.1 ((names ++ [name]).take entry.2)) =
      names.zipIdx.filter (fun entry => test entry.1 (names.take entry.2)) ++
        if test name names then [(name, names.length)] else [] := by
  have early :
      ∀ entry ∈ names.zipIdx,
        test entry.1 ((names ++ [name]).take entry.2) =
          test entry.1 (names.take entry.2) := by
    intro entry member
    have bound := List.snd_lt_of_mem_zipIdx member
    rw [List.take_append_of_le_length (by omega)]
  rw [List.zipIdx_append, List.filter_append, List.filter_congr early]
  simp [List.filter_cons]

theorem firstMentions_eq_eraseDups (names : List String) :
    firstMentions names = names.eraseDups := by
  induction names using List.reverseRecOn with
  | nil => rfl
  | append_singleton names name hypothesis =>
      have split := filter_zipIdx_concat (fun name earlier => name ∉ earlier)
        names name
      rw [firstMentions, split, List.map_append, ← firstMentions, hypothesis,
        CallGraph.eraseDups_concat]
      by_cases known : name ∈ names
      · simp [known]
      · simp [known]

theorem laterMentions_eq_repeatsAfter (names : List String) :
    laterMentions names = CallGraph.repeatsAfter [] names := by
  induction names using List.reverseRecOn with
  | nil => rfl
  | append_singleton names name hypothesis =>
      have split := filter_zipIdx_concat (fun name earlier => name ∈ earlier)
        names name
      rw [laterMentions, split, List.map_append, ← laterMentions, hypothesis,
        CallGraph.repeatsAfter_concat]
      by_cases known : name ∈ names
      · simp [known]
      · simp [known]

/-- Every mention of a name is either the first one or a later one. -/
theorem length_firstMentions_add_length_laterMentions (names : List String) :
    (firstMentions names).length + (laterMentions names).length =
      names.length := by
  have parts :=
    (names.zipIdx).length_eq_length_filter_add fun entry =>
      entry.1 ∈ names.take entry.2
  rw [List.length_zipIdx] at parts
  simp only [firstMentions, laterMentions, List.length_map, decide_not]
  omega

theorem nodup_firstMentions (names : List String) :
    (firstMentions names).Nodup := by
  rw [firstMentions_eq_eraseDups]
  induction names using List.reverseRecOn with
  | nil => exact List.nodup_nil
  | append_singleton names name hypothesis =>
      rw [CallGraph.eraseDups_concat]
      split
      · exact hypothesis
      · rename_i fresh
        refine List.nodup_append.2 ⟨hypothesis, List.nodup_singleton name, ?_⟩
        rintro earlier member other last rfl
        rw [List.mem_singleton.1 last] at member
        exact fresh (List.mem_eraseDups.1 member)

/-! ## Nodes in order -/

namespace CallGraph

/-- Where every entry of the order has a node, the nodes can be listed. -/
theorem orderedNodes?_eq_some
    {graph : CallGraph}
    (present : ∀ symbol ∈ graph.order, symbol ∈ graph.nodes) :
    graph.orderedNodes? = some graph.declaredNodes := by
  rw [orderedNodes?, declaredNodes]
  generalize graph.order = symbols at present ⊢
  induction symbols with
  | nil => rfl
  | cons symbol rest hypothesis =>
      have ⟨here, others⟩ := List.forall_mem_cons.1 present
      rw [Std.TreeMap.mem_iff_isSome_getElem?, Option.isSome_iff_exists] at here
      rcases here with ⟨node, found⟩
      rw [List.mapM_cons, found, hypothesis others,
        List.filterMap_cons_some found]
      rfl

/-- What is read off the node of each entry is read off the nodes in order. -/
theorem map_declaredNodes
    {α : Type}
    {graph : CallGraph}
    {view : CallNode → α}
    {value : Symbol → α}
    (each :
      ∀ symbol ∈ graph.order,
        graph.nodes[symbol]?.map view = some (value symbol)) :
    graph.declaredNodes.map view = graph.order.map value := by
  rw [declaredNodes, List.map_filterMap, ← List.filterMap_eq_map]
  exact List.filterMap_congr each

/-- Edges counted at one callee after the other are those with such a callee. -/
theorem sum_countP_callee
    (edges : List CallEdge)
    {symbols : List Symbol}
    (distinct : symbols.Nodup) :
    symbols.foldr
        (fun symbol calls => edges.countP (·.callee = symbol) + calls) 0 =
      edges.countP (·.callee ∈ symbols) := by
  induction symbols with
  | nil => simp
  | cons symbol rest hypothesis =>
      rcases List.nodup_cons.1 distinct with ⟨apart, restDistinct⟩
      rw [List.foldr_cons, hypothesis restDistinct,
        edges.countP_eq_countP_filter_add (fun edge => edge.callee ∈ symbol :: rest)
          (fun edge => edge.callee = symbol),
        List.countP_filter, List.countP_filter]
      congr 1
      · apply List.countP_congr
        intro edge _
        by_cases called : edge.callee = symbol
        · simp [called]
        · simp [called]
      · -- An edge to the symbol is not one to the rest, as the symbols differ.
        apply List.countP_congr
        intro edge _
        by_cases called : edge.callee = symbol
        · simp [called, apart]
        · simp [called]

end CallGraph

/-! ## The graph of a program -/

/-- What a node says about the function of a symbol. -/
structure CallNode.Represents
    (node : CallNode)
    (graph : CallGraph)
    (program : Program)
    (symbol : Symbol) : Prop where
  key : node.symbol = symbol
  definition :
    ∃ definition,
      program.IsLastDefinition symbol.name definition ∧
        node.complexity = definition.complexity ∧
        node.inlinable =
          decide (definition.complexity < CallGraph.inliningThreshold)
  callCount : node.callCount = graph.edges.countP (·.callee = symbol)
  hot : node.hot = false

/-- What the fields of a graph say about a program, and about each other. -/
structure CallGraph.Represents
    (graph : CallGraph)
    (program : Program) : Prop where
  module : graph.module = program.module
  order :
    graph.order =
      (firstMentions (program.functions.map FunctionDef.name)).map
        (Symbol.mk program.module)
  redefinitions :
    graph.redefinitions =
      (laterMentions (program.functions.map FunctionDef.name)).map
        (Symbol.mk program.module)
  distinct : graph.order.Nodup
  declarations :
    graph.order.length + graph.redefinitions.length = program.functionCount
  keys : ∀ symbol, symbol ∈ graph.nodes ↔ symbol ∈ graph.order
  nodes :
    ∀ (symbol : Symbol) (node : CallNode),
      graph.nodes[symbol]? = some node →
        node.Represents graph program symbol
  edges :
    graph.edges =
      program.functions.flatMap fun definition =>
        definition.body.directCalls.map fun called =>
          { caller := ⟨program.module, definition.name⟩
            callee := ⟨program.module, called⟩
            sites := [.unknown]
            frequency := 1 }
  ordered :
    ∃ nodes,
      graph.orderedNodes? = some nodes ∧
        nodes.map CallNode.symbol = graph.order ∧
        nodes.foldr (fun node calls => node.callCount + calls) 0 =
          graph.edges.countP (·.callee ∈ graph.nodes)

namespace CallGraph

section

variable (program : Program)

theorem edges_ofProgram_eq_flatMap :
    (ofProgram program).edges =
      program.functions.flatMap fun definition =>
        definition.body.directCalls.map fun called =>
          { caller := ⟨program.module, definition.name⟩
            callee := ⟨program.module, called⟩
            sites := [.unknown]
            frequency := 1 } := by
  rw [edges_ofProgram, Program.recordedCalls, List.map_flatMap]
  simp only [FunctionDef.recordedCalls, List.map_map]
  rfl

theorem mem_ofProgram_iff (symbol : Symbol) :
    symbol ∈ (ofProgram program).nodes ↔ symbol ∈ (ofProgram program).order := by
  rcases symbol with ⟨module, name⟩
  rw [Std.TreeMap.mem_iff_isSome_getElem?, order_ofProgram]
  by_cases own : module = program.module
  · subst own
    rw [getElem?_ofProgram, Option.isSome_map, Program.lastDefinition?,
      List.find?_isSome]
    simp
  · rw [getElem?_ofProgram_of_ne program own]
    simp only [Option.isSome_none, Bool.false_eq_true, List.mem_map, false_iff,
      not_exists, not_and]
    intro other _ same
    exact own (congrArg Symbol.module same).symm

/-- Calls are counted at the node of their callee as they are recorded. -/
theorem countP_recordedCalls (name : String) :
    program.recordedCalls.countP (·.2 = name) =
      (ofProgram program).edges.countP
        (·.callee = Symbol.mk program.module name) := by
  rw [edges_ofProgram, List.countP_map]
  apply List.countP_congr
  intro call _
  simp [callEdge]

theorem represents_node
    {symbol : Symbol}
    {node : CallNode}
    (found : (ofProgram program).nodes[symbol]? = some node) :
    node.Represents (ofProgram program) program symbol := by
  rcases symbol with ⟨module, name⟩
  by_cases own : module = program.module
  · subst own
    rw [getElem?_ofProgram, Option.map_eq_some_iff] at found
    rcases found with ⟨definition, last, rfl⟩
    exact
      { key := rfl
        definition :=
          ⟨definition, (program.lastDefinition?_eq_some_iff _ _).1 last,
            rfl, rfl⟩
        callCount := countP_recordedCalls program name
        hot := rfl }
  · rw [getElem?_ofProgram_of_ne program own] at found
    cases found

theorem order_ofProgram_eq_firstMentions :
    (ofProgram program).order =
      (firstMentions (program.functions.map FunctionDef.name)).map
        (Symbol.mk program.module) := by
  rw [firstMentions_eq_eraseDups]
  exact order_ofProgram program

theorem nodup_order_ofProgram : (ofProgram program).order.Nodup := by
  rw [order_ofProgram_eq_firstMentions]
  apply (nodup_firstMentions _).map
  intro name other same
  exact congrArg Symbol.name same

/-- What every node says is read off the nodes in order. -/
theorem map_declaredNodes_ofProgram
    {α : Type}
    {view : CallNode → α}
    {value : Symbol → α}
    (reads :
      ∀ symbol node,
        node.Represents (ofProgram program) program symbol →
          view node = value symbol) :
    (ofProgram program).declaredNodes.map view =
      (ofProgram program).order.map value := by
  apply map_declaredNodes
  intro symbol member
  rw [← mem_ofProgram_iff, Std.TreeMap.mem_iff_isSome_getElem?,
    Option.isSome_iff_exists] at member
  rcases member with ⟨node, found⟩
  rw [found, Option.map_some, reads symbol node (represents_node program found)]

theorem sum_callCount_ofProgram :
    (ofProgram program).declaredNodes.foldr
        (fun node calls => node.callCount + calls) 0 =
      (ofProgram program).edges.countP (·.callee ∈ (ofProgram program).nodes) := by
  have counts :=
    map_declaredNodes_ofProgram program fun _ _ node => node.callCount
  have total := congrArg (List.foldr (· + ·) 0) counts
  rw [List.foldr_map, List.foldr_map,
    sum_countP_callee _ (nodup_order_ofProgram program)] at total
  rw [total]
  apply List.countP_congr
  intro edge _
  simp [mem_ofProgram_iff]

end

/-- The graph that is built for a program represents it. -/
theorem ofProgram_represents (program : Program) :
    (ofProgram program).Represents program := by
  have order := order_ofProgram_eq_firstMentions program
  have redefinitions := redefinitions_ofProgram program
  rw [← laterMentions_eq_repeatsAfter] at redefinitions
  refine
    { module := module_ofProgram program
      order := order
      redefinitions := redefinitions
      distinct := nodup_order_ofProgram program
      declarations := ?_
      keys := mem_ofProgram_iff program
      nodes := fun _ _ => represents_node program
      edges := edges_ofProgram_eq_flatMap program
      ordered := ⟨(ofProgram program).declaredNodes, ?_, ?_,
        sum_callCount_ofProgram program⟩ }
  · rw [order, redefinitions, List.length_map, List.length_map,
      length_firstMentions_add_length_laterMentions, List.length_map,
      Program.functionCount]
  · exact orderedNodes?_eq_some fun symbol => (mem_ofProgram_iff program symbol).2
  · rw [map_declaredNodes_ofProgram program fun _ _ node => node.key,
      List.map_id']

end CallGraph

end MiddleEnd
