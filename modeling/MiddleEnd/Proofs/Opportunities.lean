import Mathlib.Data.List.Forall2
import MiddleEnd.Analysis
import MiddleEnd.Pass.Marks
import MiddleEnd.Proofs.CallGraph

/-!
# Which opportunities a program has

The opportunities are read off the call graph and the control flow.  Said about
the program itself, they are these: a function worth inlining is small by its
last definition, is called directly by some definition, and has no cycle of
recorded calls ahead of it.  Such names come first, where they were first
declared; then comes every loop at the top of a function, in source order.

The loops are counted once more by the pass that marks them, and the two counts
agree.
-/

namespace MiddleEnd

open Relation

/-! ## Functions worth inlining -/

namespace Program

/-- What makes the function of a name worth inlining. -/
structure WorthInlining (program : Program) (name : String) : Prop where
  small :
    ∃ definition,
      program.IsLastDefinition name definition ∧ definition.complexity < 10
  called : ∃ caller ∈ program.functions, name ∈ caller.body.directCalls
  ends : ¬ program.LeadsIntoRecursion name

/-- A name as reports give it: after the module path, if there is one. -/
def qualified (program : Program) (name : String) : String :=
  if program.module = "" then name else program.module ++ "::" ++ name

/-- The entry proposes to inline the function of a name. -/
def ProposesInlining
    (program : Program)
    (name : String)
    (entry : Opportunity) : Prop :=
  ∃ definition, program.IsLastDefinition name definition ∧
    entry =
      { kind := .functionInlining
        location := .unknown
        description :=
          "Inline function '" ++ program.qualified name ++
            "' (complexity: " ++ toString definition.complexity ++
            ", calls: " ++
            toString (program.recordedCalls.countP (·.2 = name)) ++ ")"
        improvement := 0.15
        confidence := 0.8
        implementation :=
          "Replace calls to '" ++ program.qualified name ++
            "' with function body" }

theorem render_eq_qualified (program : Program) (name : String) :
    (Symbol.mk program.module name).render = program.qualified name := by
  simp only [Symbol.render, qualified, String.isEmpty_iff]

/-- Inlining the function of a name, as it is proposed for its node. -/
def inlining (program : Program) (name : String) : Opportunity :=
  Opportunity.inlining
    { symbol := ⟨program.module, name⟩
      complexity :=
        (program.lastDefinition? name).elim 0 FunctionDef.complexity
      callCount := program.recordedCalls.countP (·.2 = name) }

theorem proposesInlining_inlining
    {program : Program}
    {name : String}
    {definition : FunctionDef}
    (last : program.IsLastDefinition name definition) :
    program.ProposesInlining name (program.inlining name) := by
  refine ⟨definition, last, ?_⟩
  rw [inlining, (program.lastDefinition?_eq_some_iff name definition).2 last]
  simp only [Opportunity.inlining, render_eq_qualified, Option.elim_some]

theorem countP_recordedCalls_ne_zero_iff (program : Program) (name : String) :
    program.recordedCalls.countP (·.2 = name) ≠ 0 ↔
      ∃ caller ∈ program.functions, name ∈ caller.body.directCalls := by
  rw [Nat.ne_zero_iff_zero_lt, List.countP_pos_iff]
  simp [recordedCalls, FunctionDef.recordedCalls]

theorem not_worthInlining_of_transGen
    {program : Program}
    {name : String}
    (returns : TransGen program.RecordsCall name name) :
    ¬ program.WorthInlining name := by
  intro worth
  exact worth.ends ⟨name, ReflTransGen.refl, returns⟩

end Program

namespace CallGraph

/-- A node is worth inlining exactly if its name is. -/
theorem any_worthInlining_iff (program : Program) (name : String) :
    (ofProgram program).nodes[Symbol.mk program.module name]?.any
        CallNode.worthInlining = true ↔
      program.WorthInlining name := by
  rw [getElem?_ofProgram]
  cases found : program.lastDefinition? name with
  | none =>
      simp only [Option.map_none, Option.any_none, Bool.false_eq_true, false_iff]
      rintro ⟨⟨definition, last, _⟩, _, _⟩
      rw [← Program.lastDefinition?_eq_some_iff, found] at last
      cases last
  | some definition =>
      have last := (Program.lastDefinition?_eq_some_iff _ _ _).1 found
      have called := program.countP_recordedCalls_ne_zero_iff name
      simp only [Option.map_some, Option.any_some, CallNode.worthInlining,
        Bool.and_eq_true, decide_eq_true_eq, bne_iff_ne, Bool.not_eq_true',
        decide_eq_false_iff_not]
      constructor
      · rintro ⟨⟨small, counted⟩, ends⟩
        exact ⟨⟨definition, last, small⟩, called.1 counted, ends⟩
      · rintro ⟨⟨other, otherLast, small⟩, caller, ends⟩
        rw [← Program.lastDefinition?_eq_some_iff, found] at otherLast
        cases otherLast
        exact ⟨⟨small, called.2 caller⟩, ends⟩

end CallGraph

instance (program : Program) (name : String) :
    Decidable (program.WorthInlining name) :=
  decidable_of_iff _ (CallGraph.any_worthInlining_iff program name)

namespace CallGraph

/-- What is proposed for the node of a name, if it has a node. -/
theorem map_inlining_filter_getElem? (program : Program) (name : String) :
    ((ofProgram program).nodes[Symbol.mk program.module name]?.filter
        CallNode.worthInlining).map Opportunity.inlining =
      if program.WorthInlining name then
        some (program.inlining name)
      else
        none := by
  simp only [← any_worthInlining_iff, getElem?_ofProgram, Program.inlining]
  cases program.lastDefinition? name with
  | none => rfl
  | some definition =>
      simp only [Option.map_some, Option.filter_some, Option.any_some,
        Option.elim_some]
      split <;> rfl

/-- What is proposed for the nodes of a graph, in order of declaration. -/
theorem map_inlining_declaredNodes (program : Program) :
    ((ofProgram program).declaredNodes.filter CallNode.worthInlining).map
        Opportunity.inlining =
      ((program.functions.map FunctionDef.name).eraseDups.filter fun name =>
        program.WorthInlining name).map program.inlining := by
  rw [declaredNodes, order_ofProgram, List.filterMap_map,
    List.filter_filterMap, List.map_filterMap,
    ← List.filterMap_eq_map (f := program.inlining), List.filterMap_filter]
  congr 1
  funext name
  simpa using map_inlining_filter_getElem? program name

end CallGraph

/-! ## Loops worth unrolling -/

namespace ControlFlow

theorem loops_foldl_addFunction
    (functions : List FunctionDef)
    (flow : ControlFlow) :
    (functions.foldl addFunction flow).loops =
      flow.loops ++
        functions.flatMap fun definition =>
          List.replicate definition.body.topLoops (topLoop definition.name) := by
  induction functions generalizing flow with
  | nil => simp
  | cons definition rest hypothesis =>
      rw [List.foldl_cons, hypothesis, List.flatMap_cons, addFunction,
        List.append_assoc]

theorem loops_ofProgram (program : Program) :
    (ofProgram program).loops =
      program.functions.flatMap fun definition =>
        List.replicate definition.body.topLoops (topLoop definition.name) :=
  loops_foldl_addFunction program.functions {}

/-- The summary has as many loops as the marking pass counts. -/
theorem length_loops_ofProgram (program : Program) :
    (ofProgram program).loops.length = program.topLoops := by
  rw [loops_ofProgram, Program.topLoops]
  induction program.functions with
  | nil => rfl
  | cons definition rest hypothesis =>
      rw [List.flatMap_cons, List.length_append, hypothesis,
        List.length_replicate, List.foldr_cons]

end ControlFlow

/-! ## The list -/

theorem Symbol.render_injective
    (module : String) :
    Function.Injective fun name => (Symbol.mk module name).render := by
  intro first second same
  by_cases root : module.isEmpty
  · simpa [render, root] using same
  · simpa [render, root] using same

namespace Opportunity

/-- The opportunity is that of inlining the function of the symbol. -/
def Inlines (opportunity : Opportunity) (symbol : Symbol) : Prop :=
  opportunity.kind = .functionInlining ∧
    opportunity.implementation =
      "Replace calls to '" ++ symbol.render ++ "' with function body"

theorem inlines_inlining_iff (program : Program) (proposed name : String) :
    (program.inlining proposed).Inlines ⟨program.module, name⟩ ↔
      proposed = name := by
  simp [Inlines, Program.inlining, inlining,
    (Symbol.render_injective program.module).eq_iff]

theorem identify_ofProgram (program : Program) :
    identify (CallGraph.ofProgram program) (ControlFlow.ofProgram program) =
      ((program.functions.map FunctionDef.name).eraseDups.filter fun name =>
        program.WorthInlining name).map program.inlining ++
      program.functions.flatMap (fun definition =>
        List.replicate definition.body.topLoops
          (unrolling (ControlFlow.topLoop definition.name))) ++
      [deadCode, cheaperOperations] := by
  rw [identify, CallGraph.map_inlining_declaredNodes,
    ControlFlow.loops_ofProgram, List.map_flatMap]
  simp only [List.map_replicate]

/-- A function is proposed for inlining exactly if it is worth it. -/
theorem exists_inlines_iff (program : Program) (name : String) :
    (∃ opportunity ∈
        identify (CallGraph.ofProgram program) (ControlFlow.ofProgram program),
      opportunity.Inlines ⟨program.module, name⟩) ↔
      program.WorthInlining name := by
  rw [identify_ofProgram]
  constructor
  · rintro ⟨opportunity, member, kind, text⟩
    rcases List.mem_append.1 member with front | last
    · rcases List.mem_append.1 front with inlined | unrolled
      · rcases List.mem_map.1 inlined with ⟨proposed, listed, rfl⟩
        have same := (inlines_inlining_iff program proposed name).1 ⟨kind, text⟩
        rw [← same]
        exact of_decide_eq_true (List.mem_filter.1 listed).2
      · -- Entries that come after the proposals are of other kinds.
        rcases List.mem_flatMap.1 unrolled with ⟨definition, _, copy⟩
        rw [List.eq_of_mem_replicate copy] at kind
        cases kind
    · rw [List.mem_cons, List.mem_singleton] at last
      rcases last with rfl | rfl
      · cases kind
      · cases kind
  · intro worth
    rcases worth.small with ⟨definition, ⟨before, after, split, named, _⟩, _⟩
    have listed : name ∈ (program.functions.map FunctionDef.name).eraseDups := by
      rw [List.mem_eraseDups, split, List.map_append, List.map_cons, named]
      simp
    refine ⟨program.inlining name, ?_, (inlines_inlining_iff _ _ _).2 rfl⟩
    apply List.mem_append_left
    apply List.mem_append_left
    exact List.mem_map_of_mem
      (List.mem_filter.2 ⟨listed, decide_eq_true worth⟩)

theorem countP_loopUnrolling (program : Program) :
    (identify
        (CallGraph.ofProgram program)
        (ControlFlow.ofProgram program)).countP (·.kind = .loopUnrolling) =
      program.topLoops := by
  rw [← ControlFlow.length_loops_ofProgram, identify, List.countP_append,
    List.countP_append, List.countP_map, List.countP_map]
  have inlined :
      ∀ nodes : List CallNode,
        nodes.countP ((·.kind = .loopUnrolling) ∘ inlining) = 0 := by
    intro nodes
    exact List.countP_eq_zero.2 fun _ _ => by simp [inlining]
  have unrolled :
      ∀ loops : List LoopShape,
        loops.countP ((·.kind = .loopUnrolling) ∘ unrolling) = loops.length := by
    intro loops
    exact List.countP_eq_length.2 fun _ _ => by simp [unrolling]
  rw [inlined, unrolled, Nat.zero_add]
  rfl

end Opportunity

/-- Every name worth inlining has its proposal, in the order of the names. -/
theorem Program.forall₂_proposesInlining (program : Program) (names : List String) :
    List.Forall₂ program.ProposesInlining
      (names.filter fun name => program.WorthInlining name)
      ((names.filter fun name => program.WorthInlining name).map
        program.inlining) := by
  rw [List.forall₂_map_right_iff, List.forall₂_same]
  intro name listed
  have worth : program.WorthInlining name :=
    of_decide_eq_true (List.mem_filter.1 listed).2
  rcases worth.small with ⟨definition, last, _⟩
  exact proposesInlining_inlining last

/--
The opportunities of a program are those of inlining each function worth it, in
order of first declaration, of unrolling each loop at the top of a function, and
two more.  A function is proposed for inlining exactly if it is worth it, so one
that can reach itself is not, and the loops are as many as the control flow has
and the marking pass counts.
-/
theorem Analysis.opportunities_ofProgram (program : Program) :
    (∃ proposals,
      List.Forall₂ program.ProposesInlining
        ((program.functions.map FunctionDef.name).eraseDups.filter fun name =>
          program.WorthInlining name)
        proposals ∧
      (ofProgram program).opportunities =
        proposals ++
        program.functions.flatMap (fun definition =>
          List.replicate definition.body.topLoops
            { kind := .loopUnrolling
              location := .unknown
              description := "Unroll loop at 'while_loop'"
              improvement := 0.25
              confidence := 0.7
              implementation := "Replace loop with unrolled iterations" }) ++
        [{ kind := .deadCodeElimination
           location := .unknown
           description := "Remove unreachable code"
           improvement := 0.05
           confidence := 0.9
           implementation := "Remove unreachable basic blocks" },
         { kind := .strengthReduction
           location := .unknown
           description :=
             "Replace expensive operations with cheaper equivalents"
           improvement := 0.1
           confidence := 0.8
           implementation :=
             "Replace multiplication by powers of 2 with shifts" }]) ∧
    (∀ name,
      (∃ opportunity ∈ (ofProgram program).opportunities,
        opportunity.Inlines ⟨program.module, name⟩) ↔
      program.WorthInlining name) ∧
    (∀ name,
      TransGen program.RecordsCall name name →
        ∀ opportunity ∈ (ofProgram program).opportunities,
          ¬ opportunity.Inlines ⟨program.module, name⟩) ∧
    (ofProgram program).opportunities.countP (·.kind = .loopUnrolling) =
      program.topLoops ∧
    (ofProgram program).controlFlow.loops.length = program.topLoops := by
  have proposed := Opportunity.exists_inlines_iff program
  refine ⟨⟨_, program.forall₂_proposesInlining _,
    Opportunity.identify_ofProgram program⟩, proposed, ?_,
    Opportunity.countP_loopUnrolling program,
    ControlFlow.length_loops_ofProgram program⟩
  intro name returns opportunity member inlines
  exact Program.not_worthInlining_of_transGen returns
    ((proposed name).1 ⟨opportunity, member, inlines⟩)

end MiddleEnd
