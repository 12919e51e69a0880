import Mathlib.Data.List.Induction
import MiddleEnd.CallGraph.Build
import MiddleEnd.Proofs.DanglingCalls
import MiddleEnd.Proofs.Recursion

/-!
# What the call graph of a program records

Declaring a function replaces the node of an earlier one of the same name, so
the nodes come from the last definitions while the order has every name where it
was first declared.  The calls that are recorded afterwards come from all
definitions, hidden ones included.  A recorded call adds an edge, and counts at
its callee if that has a node.

The laws below give every field of the graph in terms of the functions of the
program.  Recursion is then a matter of the names alone: a function is recursive
if recorded calls between defined names lead from its name into a cycle.
-/

namespace MiddleEnd

open Relation

/-! ## Recorded calls -/

/-- The calls recorded for a function, each as caller and callee. -/
def FunctionDef.recordedCalls (definition : FunctionDef) :
    List (String × String) :=
  definition.body.directCalls.map fun called => (definition.name, called)

namespace Program

/-- The calls recorded for all functions of a program, in source order. -/
def recordedCalls (program : Program) : List (String × String) :=
  program.functions.flatMap FunctionDef.recordedCalls

/-- A recorded call of a name that has a definition. -/
def RecordsCall (program : Program) (caller callee : String) : Prop :=
  (caller, callee) ∈ program.recordedCalls ∧ program.defines callee = true

/-- Recorded calls between defined names lead from the name into a cycle. -/
def LeadsIntoRecursion (program : Program) (name : String) : Prop :=
  ∃ turn,
    ReflTransGen program.RecordsCall name turn ∧
      TransGen program.RecordsCall turn turn

/-- Where every recorded call goes down in rank, none leads into recursion. -/
theorem not_leadsIntoRecursion_of_rank
    {program : Program}
    {rank : String → Nat}
    (descends :
      ∀ caller callee,
        program.RecordsCall caller callee → rank callee < rank caller)
    (name : String) :
    ¬ program.LeadsIntoRecursion name := by
  rintro ⟨turn, _, cycle⟩
  have around : TransGen (fun higher lower => lower < higher) (rank turn) _ :=
    cycle.lift rank descends
  rw [transGen_eq_self] at around
  exact Nat.lt_irrefl _ around

end Program

namespace CallGraph

/-!
## Declarations

A declaration looks back at the graph of the ones before it, so inductions over
declarations go from the last one.
-/

/-- The node of a function that has just been declared. -/
def freshNode (module : String) (definition : FunctionDef) : CallNode where
  symbol := ⟨module, definition.name⟩
  complexity := definition.complexity
  inlinable := definition.complexity < inliningThreshold

/-- The graph in which functions are declared and no call is recorded. -/
def declareAll (module : String) (functions : List FunctionDef) : CallGraph :=
  functions.foldl declare { module }

/-- What a declaration does: it sets the node, and notes where the name belongs. -/
theorem declare_eq (graph : CallGraph) (definition : FunctionDef) :
    graph.declare definition =
      { graph with
        nodes :=
          graph.nodes.insert (graph.symbolFor definition.name)
            (freshNode graph.module definition)
        order :=
          if graph.symbolFor definition.name ∈ graph.nodes then
            graph.order
          else
            graph.order ++ [graph.symbolFor definition.name]
        redefinitions :=
          if graph.symbolFor definition.name ∈ graph.nodes then
            graph.redefinitions ++ [graph.symbolFor definition.name]
          else
            graph.redefinitions } := by
  by_cases known : graph.symbolFor definition.name ∈ graph.nodes
  · simp only [declare, if_pos known]
    rfl
  · simp only [declare, if_neg known]
    rfl

theorem declareAll_concat
    (module : String)
    (functions : List FunctionDef)
    (definition : FunctionDef) :
    declareAll module (functions ++ [definition]) =
      (declareAll module functions).declare definition :=
  List.foldl_append

theorem getElem?_declare
    (graph : CallGraph)
    (definition : FunctionDef)
    (symbol : Symbol) :
    (graph.declare definition).nodes[symbol]? =
      if graph.symbolFor definition.name = symbol then
        some (freshNode graph.module definition)
      else
        graph.nodes[symbol]? := by
  rw [declare_eq, Std.TreeMap.getElem?_insert]
  simp only [Std.LawfulEqCmp.compare_eq_iff_eq]

@[simp]
theorem module_declareAll (module : String) (functions : List FunctionDef) :
    (declareAll module functions).module = module := by
  induction functions using List.reverseRecOn with
  | nil => rfl
  | append_singleton rest definition hypothesis =>
      rw [declareAll_concat, declare_eq, hypothesis]

@[simp]
theorem edges_declareAll (module : String) (functions : List FunctionDef) :
    (declareAll module functions).edges = [] := by
  induction functions using List.reverseRecOn with
  | nil => rfl
  | append_singleton rest definition hypothesis =>
      rw [declareAll_concat, declare_eq, hypothesis]

/-- The node of a symbol is that of the last definition of its name. -/
theorem getElem?_declareAll
    (module : String)
    (functions : List FunctionDef)
    (symbol : Symbol) :
    (declareAll module functions).nodes[symbol]? =
      (functions.reverse.find? fun definition =>
        Symbol.mk module definition.name = symbol).map
          (freshNode module) := by
  induction functions using List.reverseRecOn with
  | nil => exact Std.TreeMap.getElem?_emptyc
  | append_singleton rest definition hypothesis =>
      rw [declareAll_concat, getElem?_declare, symbolFor, module_declareAll,
        hypothesis, List.reverse_concat, List.find?_cons]
      by_cases same : Symbol.mk module definition.name = symbol
      · simp [same]
      · simp [same]

theorem mem_declareAll_iff
    (module : String)
    (functions : List FunctionDef)
    (name : String) :
    Symbol.mk module name ∈ (declareAll module functions).nodes ↔
      name ∈ functions.map FunctionDef.name := by
  rw [Std.TreeMap.mem_iff_isSome_getElem?, getElem?_declareAll]
  simp

theorem eraseDups_concat (names : List String) (name : String) :
    (names ++ [name]).eraseDups =
      if name ∈ names then names.eraseDups else names.eraseDups ++ [name] := by
  rw [List.eraseDups_append]
  by_cases known : name ∈ names
  · simp [List.removeAll, known]
  · simp [List.removeAll, known, List.eraseDups_cons]

/-- The order has every name where it was first declared. -/
theorem order_declareAll (module : String) (functions : List FunctionDef) :
    (declareAll module functions).order =
      (functions.map FunctionDef.name).eraseDups.map (Symbol.mk module) := by
  induction functions using List.reverseRecOn with
  | nil => rfl
  | append_singleton rest definition hypothesis =>
      have known := mem_declareAll_iff module rest definition.name
      rw [declareAll_concat, declare_eq, symbolFor, module_declareAll,
        List.map_append, List.map_singleton, eraseDups_concat, hypothesis]
      by_cases member : definition.name ∈ rest.map FunctionDef.name
      · simp only [if_pos member, if_pos (known.2 member)]
      · simp only [if_neg member, if_neg (mt known.1 member), List.map_append,
          List.map_singleton]

/-- The names of a list that occur earlier in it, or in another list before it. -/
def repeatsAfter (earlier : List String) : List String → List String
  | [] => []
  | name :: rest =>
      if name ∈ earlier then
        name :: repeatsAfter earlier rest
      else
        repeatsAfter (name :: earlier) rest

theorem repeatsAfter_concat
    (earlier names : List String)
    (name : String) :
    repeatsAfter earlier (names ++ [name]) =
      repeatsAfter earlier names ++
        if name ∈ earlier ∨ name ∈ names then [name] else [] := by
  induction names generalizing earlier with
  | nil => simp [repeatsAfter]
  | cons first rest hypothesis =>
      rw [List.cons_append, repeatsAfter, repeatsAfter]
      by_cases known : first ∈ earlier
      · have same :
            (name ∈ earlier ∨ name ∈ first :: rest) ↔
              (name ∈ earlier ∨ name ∈ rest) := by
          rw [List.mem_cons]
          constructor
          · rintro (before | rfl | after)
            · exact Or.inl before
            · exact Or.inl known
            · exact Or.inr after
          · rintro (before | after)
            · exact Or.inl before
            · exact Or.inr (Or.inr after)
        simp only [if_pos known, hypothesis, same, List.cons_append]
      · have same :
            (name ∈ earlier ∨ name ∈ first :: rest) ↔
              (name ∈ first :: earlier ∨ name ∈ rest) := by
          rw [List.mem_cons, List.mem_cons, or_left_comm, or_assoc]
        simp only [if_neg known, hypothesis, same]

/-- The redefinitions have every declaration but the first of each name. -/
theorem redefinitions_declareAll
    (module : String)
    (functions : List FunctionDef) :
    (declareAll module functions).redefinitions =
      (repeatsAfter [] (functions.map FunctionDef.name)).map
        (Symbol.mk module) := by
  induction functions using List.reverseRecOn with
  | nil => rfl
  | append_singleton rest definition hypothesis =>
      have known := mem_declareAll_iff module rest definition.name
      rw [declareAll_concat, declare_eq, symbolFor, module_declareAll,
        List.map_append, List.map_singleton, repeatsAfter_concat, hypothesis]
      by_cases member : definition.name ∈ rest.map FunctionDef.name
      · simp only [if_pos (Or.inr member), if_pos (known.2 member),
          List.map_append, List.map_singleton]
      · simp [member, mt known.1 member]

/-! ## Recording -/

/-- The graph with one more call between two names of its module. -/
def record (graph : CallGraph) (call : String × String) : CallGraph :=
  graph.recordCall (graph.symbolFor call.1) (graph.symbolFor call.2)

/-- The graph with all calls of a list. -/
def recordAll
    (graph : CallGraph)
    (calls : List (String × String)) : CallGraph :=
  calls.foldl record graph

/-- The edge of a call between two names of a module. -/
def callEdge (module : String) (call : String × String) : CallEdge where
  caller := ⟨module, call.1⟩
  callee := ⟨module, call.2⟩
  sites := [.unknown]

/-- How many calls of the list lead to the symbol. -/
def countCalls
    (module : String)
    (calls : List (String × String))
    (symbol : Symbol) : Nat :=
  calls.countP fun call => Symbol.mk module call.2 = symbol

theorem recordAll_concat
    (graph : CallGraph)
    (calls : List (String × String))
    (call : String × String) :
    graph.recordAll (calls ++ [call]) = (graph.recordAll calls).record call :=
  List.foldl_append

theorem getElem?_record
    (graph : CallGraph)
    (call : String × String)
    (symbol : Symbol) :
    (graph.record call).nodes[symbol]? =
      graph.nodes[symbol]?.map fun node =>
        { node with
          callCount :=
            node.callCount + countCalls graph.module [call] symbol } := by
  rw [record, recordCall, Std.TreeMap.getElem?_modify]
  simp only [Std.LawfulEqCmp.compare_eq_iff_eq, symbolFor, countCalls,
    List.countP_singleton, decide_eq_true_eq]
  by_cases called : Symbol.mk graph.module call.2 = symbol
  · simp [called]
  · simp [called]

/-- Recording adds edges and counts, and leaves all else as it was. -/
structure Recorded
    (before : CallGraph)
    (calls : List (String × String))
    (after : CallGraph) : Prop where
  module : after.module = before.module
  order : after.order = before.order
  redefinitions : after.redefinitions = before.redefinitions
  edges : after.edges = before.edges ++ calls.map (callEdge before.module)
  nodes :
    ∀ symbol : Symbol,
      after.nodes[symbol]? =
        before.nodes[symbol]?.map fun node =>
          { node with
            callCount :=
              node.callCount + countCalls before.module calls symbol }

/-- One more call is one more edge, and counts at its callee. -/
theorem Recorded.record
    {before after : CallGraph}
    {calls : List (String × String)}
    (recorded : Recorded before calls after)
    (call : String × String) :
    Recorded before (calls ++ [call]) (after.record call) where
  module := recorded.module
  order := recorded.order
  redefinitions := recorded.redefinitions
  edges := by
    show after.edges ++ [callEdge after.module call] = _
    rw [recorded.edges, recorded.module, List.map_append, List.map_singleton,
      List.append_assoc]
  nodes := by
    intro symbol
    rw [getElem?_record, recorded.nodes, recorded.module, Option.map_map]
    congr 1
    funext node
    simp only [Function.comp_apply, countCalls, List.countP_append,
      Nat.add_assoc]

theorem recorded_recordAll
    (graph : CallGraph)
    (calls : List (String × String)) :
    Recorded graph calls (graph.recordAll calls) := by
  induction calls using List.reverseRecOn with
  | nil =>
      refine ⟨rfl, rfl, rfl, (List.append_nil _).symm, ?_⟩
      intro symbol
      exact Option.map_id'.symm
  | append_singleton calls call hypothesis =>
      rw [recordAll_concat]
      exact hypothesis.record call

/-- The calls of the functions are recorded one after the other. -/
theorem ofFunctions_eq_recordAll
    (module : String)
    (functions : List FunctionDef) :
    ofFunctions module functions =
      (declareAll module functions).recordAll
        (functions.flatMap FunctionDef.recordedCalls) := by
  rw [ofFunctions, recordAll, List.foldl_flatMap]
  congr 1
  funext graph definition
  rw [recordCalls, FunctionDef.recordedCalls, List.foldl_map]
  rfl

/-! ## The graph of a program -/

section

variable (program : Program)

theorem recorded_ofFunctions :
    Recorded
      (declareAll program.module program.functions)
      program.recordedCalls
      (ofFunctions program.module program.functions) := by
  rw [ofFunctions_eq_recordAll]
  exact recorded_recordAll _ _

@[simp]
theorem module_ofProgram : (ofProgram program).module = program.module :=
  (recorded_ofFunctions program).module.trans (module_declareAll _ _)

theorem order_ofFunctions :
    (ofFunctions program.module program.functions).order =
      (program.functions.map FunctionDef.name).eraseDups.map
        (Symbol.mk program.module) :=
  (recorded_ofFunctions program).order.trans (order_declareAll _ _)

theorem order_ofProgram :
    (ofProgram program).order =
      (program.functions.map FunctionDef.name).eraseDups.map
        (Symbol.mk program.module) :=
  order_ofFunctions program

theorem redefinitions_ofProgram :
    (ofProgram program).redefinitions =
      (repeatsAfter [] (program.functions.map FunctionDef.name)).map
        (Symbol.mk program.module) :=
  (recorded_ofFunctions program).redefinitions.trans
    (redefinitions_declareAll _ _)

theorem edges_ofFunctions :
    (ofFunctions program.module program.functions).edges =
      program.recordedCalls.map (callEdge program.module) := by
  rw [(recorded_ofFunctions program).edges, edges_declareAll,
    module_declareAll, List.nil_append]

theorem edges_ofProgram :
    (ofProgram program).edges =
      program.recordedCalls.map (callEdge program.module) :=
  edges_ofFunctions program

/-- The names with a definition are those with a node. -/
theorem mem_ofFunctions_iff (name : String) :
    Symbol.mk program.module name ∈
        (ofFunctions program.module program.functions).nodes ↔
      program.defines name = true := by
  rw [Std.TreeMap.mem_iff_isSome_getElem?, (recorded_ofFunctions program).nodes,
    Option.isSome_map, ← Std.TreeMap.mem_iff_isSome_getElem?,
    mem_declareAll_iff, Program.defines_iff, List.mem_map]

/-- A call between nodes is a recorded call of a defined name, in the module. -/
theorem calls_ofFunctions_iff (caller callee : Symbol) :
    (ofFunctions program.module program.functions).Calls caller callee ↔
      ∃ callerName calleeName,
        program.RecordsCall callerName calleeName ∧
          caller = ⟨program.module, callerName⟩ ∧
          callee = ⟨program.module, calleeName⟩ := by
  rw [Calls, edges_ofFunctions]
  constructor
  · rintro ⟨_, calleeNode, edge, member, rfl, rfl⟩
    rcases List.mem_map.1 member with ⟨⟨callerName, calleeName⟩, recorded, rfl⟩
    exact ⟨callerName, calleeName,
      ⟨recorded, (mem_ofFunctions_iff program calleeName).1 calleeNode⟩,
      rfl, rfl⟩
  · rintro ⟨callerName, calleeName, ⟨recorded, defined⟩, rfl, rfl⟩
    have callerDefined : program.defines callerName = true := by
      rw [Program.defines_iff]
      rcases List.mem_flatMap.1 recorded with ⟨definition, member, call⟩
      rcases List.mem_map.1 call with ⟨called, _, same⟩
      exact ⟨definition, member, congrArg Prod.fst same⟩
    exact ⟨(mem_ofFunctions_iff program callerName).2 callerDefined,
      (mem_ofFunctions_iff program calleeName).2 defined,
      callEdge program.module (callerName, calleeName),
      List.mem_map_of_mem recorded, rfl, rfl⟩

/-- A cycle of calls between nodes is one of recorded calls between names. -/
theorem leads_ofFunctions_iff (name : String) :
    (∃ turn,
      ReflTransGen (ofFunctions program.module program.functions).Calls
          ⟨program.module, name⟩ turn ∧
        TransGen (ofFunctions program.module program.functions).Calls
          turn turn) ↔
      program.LeadsIntoRecursion name := by
  have toNames :
      ∀ caller callee,
        (ofFunctions program.module program.functions).Calls caller callee →
          program.RecordsCall caller.name callee.name := by
    intro caller callee call
    rcases (calls_ofFunctions_iff program caller callee).1 call with
      ⟨_, _, recorded, rfl, rfl⟩
    exact recorded
  have toSymbols :
      ∀ caller callee,
        program.RecordsCall caller callee →
          (ofFunctions program.module program.functions).Calls
            ⟨program.module, caller⟩ ⟨program.module, callee⟩ := by
    intro caller callee recorded
    exact (calls_ofFunctions_iff program _ _).2
      ⟨caller, callee, recorded, rfl, rfl⟩
  constructor
  · rintro ⟨turn, path, cycle⟩
    exact ⟨turn.name, path.lift Symbol.name toNames,
      cycle.lift Symbol.name toNames⟩
  · rintro ⟨turn, path, cycle⟩
    exact ⟨⟨program.module, turn⟩,
      path.lift (Symbol.mk program.module) toSymbols,
      cycle.lift (Symbol.mk program.module) toSymbols⟩

/-- The search for a cycle in the graph decides the recursion of a name. -/
instance (name : String) : Decidable (program.LeadsIntoRecursion name) :=
  decidable_of_iff
    ((ofFunctions program.module program.functions).links.entersCycle
      ⟨program.module, name⟩ = true)
    (by
      rw [Links.entersCycle_iff, Links.LeadsIntoCycle, linked_eq_calls,
        leads_ofFunctions_iff])

theorem mem_recursiveSymbols_ofFunctions_iff (name : String) :
    Symbol.mk program.module name ∈
        (ofFunctions program.module program.functions).recursiveSymbols ↔
      program.defines name = true ∧ program.LeadsIntoRecursion name := by
  rw [mem_recursiveSymbols_iff, leads_ofFunctions_iff, order_ofFunctions,
    Program.defines_iff]
  simp

/-- A symbol of another module has no node. -/
theorem getElem?_ofProgram_of_ne
    {symbol : Symbol}
    (foreign : symbol.module ≠ program.module) :
    (ofProgram program).nodes[symbol]? = none := by
  rw [ofProgram, getElem?_markRecursion, (recorded_ofFunctions program).nodes,
    getElem?_declareAll]
  simp only [Option.map_eq_none_iff, List.find?_eq_none, List.mem_reverse,
    decide_eq_true_eq]
  intro definition _ same
  exact foreign (congrArg Symbol.module same).symm

/--
The node of a name is that of its last definition, with the calls that all
definitions make to the name, and with the recursion of the name.
-/
theorem getElem?_ofProgram (name : String) :
    (ofProgram program).nodes[Symbol.mk program.module name]? =
      (program.lastDefinition? name).map fun definition =>
        { symbol := ⟨program.module, name⟩
          complexity := definition.complexity
          inlinable := definition.complexity < inliningThreshold
          callCount := program.recordedCalls.countP (·.2 = name)
          recursive := program.LeadsIntoRecursion name } := by
  have last :
      (program.functions.reverse.find? fun definition =>
          Symbol.mk program.module definition.name =
            Symbol.mk program.module name) =
        program.lastDefinition? name := by
    rw [Program.lastDefinition?]
    congr 1
    funext definition
    simp [Bool.beq_eq_decide_eq]
  rw [ofProgram, getElem?_markRecursion, (recorded_ofFunctions program).nodes,
    getElem?_declareAll, last]
  cases found : program.lastDefinition? name with
  | none => rfl
  | some definition =>
      rcases (Program.lastDefinition?_eq_some_iff _ _ _).1 found with
        ⟨before, after, split, rfl, _⟩
      have defined : program.defines definition.name = true := by
        rw [Program.defines_iff, split]
        exact ⟨definition, by simp, rfl⟩
      simp only [Option.map_some, freshNode, countCalls, module_declareAll,
        mem_recursiveSymbols_ofFunctions_iff, defined, true_and]
      simp

end

end CallGraph

end MiddleEnd
