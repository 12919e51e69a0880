import MiddleEnd.Proofs.Opportunities
import MiddleEnd.Proofs.Outline
import MiddleEnd.Proofs.Weight

/-!
# Analyses of an optimized program

Each analysis walks a tree in a way of its own: all the way down for the names
and the bindings, through branches and loops for the calls, no further than the
top of a body for the loops.  What each of them reads is told by the outline,
which the passes keep.  So a program from which no function is removed has the
analyses that it had, but for the texts of values and for weights, and weights
only shrink.
-/

namespace MiddleEnd

open Relation

/-! ## What the walks read -/

/-- The name that a heading binds to a value, if it binds one. -/
def Heading.boundName? : Heading → Option String
  | .bind name => some name
  | _ => none

namespace Landmark

/-- The names bound directly in the node. -/
def boundNames : Landmark → List String
  | .block statements => statements.filterMap Heading.boundName?
  | _ => []

/-- The names that the node mentions. -/
def mentions : Landmark → List String
  | .ident name => [name]
  | landmark => landmark.boundNames

end Landmark

namespace Expr

theorem map_fst_bindings (expression : Expr) :
    expression.bindings.map Prod.fst =
      expression.landmark?.toList.flatMap Landmark.boundNames := by
  cases expression with
  | block statements =>
      have names :
          (fun statement : Stmt => statement.binding?.map Prod.fst) =
            Heading.boundName? ∘ Stmt.heading := by
        funext statement
        cases statement <;> rfl
      simp [bindings, landmark?, Landmark.boundNames, List.map_filterMap,
        List.filterMap_map, names]
  | _ => rfl

theorem mentions_eq (expression : Expr) :
    expression.mentions =
      expression.landmark?.toList.flatMap Landmark.mentions := by
  cases expression with
  | ident name => rfl
  | block statements => exact map_fst_bindings (.block statements)
  | _ => rfl

theorem flatMap_skeleton
    {α : Type}
    (reading : Landmark → List α)
    (expression : Expr) :
    expression.skeleton.flatMap reading =
      expression.subexprs.flatMap fun inner =>
        inner.landmark?.toList.flatMap reading := by
  rw [skeleton, List.filterMap_eq_flatMap_toList, List.flatMap_assoc]

/-- The variables of an expression are told by its skeleton. -/
theorem variableNames_eq (expression : Expr) :
    expression.variableNames =
      .ofList (expression.skeleton.flatMap Landmark.mentions) := by
  rw [variableNames, flatMap_skeleton]
  congr 2
  funext inner
  exact inner.mentions_eq

/-- The names that an expression defines are told by its skeleton. -/
theorem map_variableName_definitions (expression : Expr) :
    expression.definitions.map Definition.variableName =
      expression.skeleton.flatMap Landmark.boundNames := by
  rw [definitions, List.map_map, flatMap_skeleton]
  simp only [← map_fst_bindings]
  exact List.map_flatMap

theorem isLoop_eq (expression : Expr) :
    expression.isLoop = decide (expression.landmark? = some .loop) := by
  cases expression <;> simp [isLoop, landmark?]

theorem eq_ident_iff (expression : Expr) (name : String) :
    expression = .ident name ↔ expression.landmark? = some (.ident name) := by
  cases expression <;> simp [landmark?]

theorem isLoop_outline (expression : Expr) :
    expression.outline.isLoop = expression.isLoop := by
  rw [isLoop_eq, isLoop_eq, landmark?_outline]

theorem outline_eq_ident_iff (expression : Expr) (name : String) :
    expression.outline = .ident name ↔ expression = .ident name := by
  rw [eq_ident_iff, eq_ident_iff, landmark?_outline]

theorem callee?_outline (expression : Expr) :
    expression.outline.callee? = expression.callee? := by
  rcases expression.outline_cases with kept | ⟨blanked, none⟩
  · rw [kept]
    exact callee?_withChildren_map outline_eq_ident_iff expression
  · rw [blanked]
    cases expression with
    | call callee arguments => cases none
    | _ => rfl

/-- The names called below an expression are those of its outline. -/
theorem calledNames_outline (expression : Expr) :
    expression.outline.calledNames = expression.calledNames := by
  apply filterMap_subexprs_outline
  · intro value
    rfl
  · intro node operator
    cases node with
    | call callee arguments => cases operator
    | _ => rfl
  · exact callee?_withChildren_map outline_eq_ident_iff

end Expr

namespace Stmt

theorem isLoop_outline (statement : Stmt) :
    statement.outline.isLoop = statement.isLoop := by
  cases statement with
  | expr expression => exact expression.isLoop_outline
  | ret value => cases value <;> rfl
  | _ => rfl

theorem callee?_outline (statement : Stmt) :
    statement.outline.callee? = statement.callee? := by
  cases statement with
  | expr expression => exact expression.callee?_outline
  | ret value => cases value <;> rfl
  | _ => rfl

end Stmt

namespace Expr

theorem outline_block (statements : List Stmt) :
    (Expr.block statements).outline = .block (statements.map Stmt.outline) := by
  rw [outline_eq]
  exact congrArg Expr.block (Stmt.refill_map outline statements)

theorem topLoops_outline (expression : Expr) :
    expression.outline.topLoops = expression.topLoops := by
  cases expression with
  | block statements =>
      rw [outline_block, topLoops, topLoops, List.countP_map]
      congr 1
      funext statement
      exact statement.isLoop_outline
  | branch _ _ elseBranch =>
      rw [outline_eq]
      cases elseBranch <;> rfl
  | _ =>
      rcases outline_cases _ with kept | ⟨blanked, blank⟩
      · rw [kept]
        rfl
      · rw [blanked]
        cases blank <;> rfl

theorem directCalls_call (callee : Expr) (arguments : List Expr) :
    (Expr.call callee arguments).directCalls =
      (Expr.call callee arguments).callee?.toList := by
  cases callee <;> rfl

/-- The calls recorded for a body are those of its outline. -/
theorem directCalls_outline (expression : Expr) :
    expression.outline.directCalls = expression.directCalls := by
  induction expression using childrenInduction with
  | node expression hypothesis =>
      cases expression with
      | call callee arguments =>
          have named := (Expr.call callee arguments).callee?_outline
          rw [outline_eq] at named ⊢
          rw [directCalls_call, ← named]
          exact directCalls_call callee.outline (arguments.map outline)
      | branch condition thenBranch elseBranch =>
          have thenCalls := hypothesis thenBranch (by simp [children])
          rw [outline_eq]
          cases elseBranch with
          | none => exact thenCalls
          | some elseBranch =>
              have elseCalls := hypothesis elseBranch (by simp [children])
              exact congrArg₂ (· ++ ·) thenCalls elseCalls
      | loop condition body =>
          rw [outline_eq]
          exact hypothesis body (by simp [children])
      | block statements =>
          rw [outline_block, directCalls, directCalls, List.filterMap_map]
          congr 1
          funext statement
          exact statement.callee?_outline
      | _ =>
          rcases outline_cases _ with kept | ⟨blanked, _⟩
          · rw [kept]
            rfl
          · rw [blanked]
            rfl

end Expr

/-! ## Functions that read the same -/

/-- A function with another body that reads the same and weighs no more. -/
structure FunctionDef.Keeps (before after : FunctionDef) : Prop where
  name : after.name = before.name
  outline : after.body.outline = before.body.outline
  complexity : after.complexity ≤ before.complexity

namespace FunctionDef.Keeps

variable {before after : FunctionDef}

theorem topLoops (keeps : before.Keeps after) :
    after.body.topLoops = before.body.topLoops := by
  rw [← Expr.topLoops_outline, keeps.outline, Expr.topLoops_outline]

theorem recordedCalls (keeps : before.Keeps after) :
    after.recordedCalls = before.recordedCalls := by
  rw [FunctionDef.recordedCalls, FunctionDef.recordedCalls, keeps.name,
    ← Expr.directCalls_outline, keeps.outline, Expr.directCalls_outline]

theorem skeleton (keeps : before.Keeps after) :
    after.body.skeleton = before.body.skeleton := by
  rw [← Expr.skeleton_outline, keeps.outline, Expr.skeleton_outline]

theorem variableNames (keeps : before.Keeps after) :
    after.body.variableNames = before.body.variableNames := by
  rw [Expr.variableNames_eq, keeps.skeleton, ← Expr.variableNames_eq]

theorem definitions (keeps : before.Keeps after) :
    List.Forall₂
      (fun definition other =>
        definition.variableName = other.variableName)
      before.body.definitions after.body.definitions := by
  have names :
      before.body.definitions.map Definition.variableName =
        after.body.definitions.map Definition.variableName := by
    rw [Expr.map_variableName_definitions, Expr.map_variableName_definitions,
      keeps.skeleton]
  rwa [← List.forall₂_eq_eq_eq, List.forall₂_map_left_iff,
    List.forall₂_map_right_iff] at names

end FunctionDef.Keeps

/-! ## Data flow -/

namespace DataFlow

/-- The same keys, with as many definitions each. -/
def SameCounts (before after : Std.TreeMap String (List Definition)) : Prop :=
  ∀ name : String,
    after[name]?.map List.length = before[name]?.map List.length

/-- One more definition of a variable is one more for its name only. -/
theorem SameCounts.addDefinition
    {before after : Std.TreeMap String (List Definition)}
    (same : SameCounts before after)
    {definition other : Definition}
    (named : definition.variableName = other.variableName) :
    SameCounts
      (DataFlow.addDefinition before definition)
      (DataFlow.addDefinition after other) := by
  intro name
  have known := same name
  rw [DataFlow.addDefinition, DataFlow.addDefinition, named,
    Std.TreeMap.getElem?_alter, Std.TreeMap.getElem?_alter]
  split
  · rename_i equal
    rw [Std.LawfulEqCmp.compare_eq_iff_eq] at equal
    rw [← equal] at known
    cases earlier : before[other.variableName]? with
    | none =>
        rw [earlier, Option.map_none, Option.map_eq_none_iff] at known
        rw [known]
        rfl
    | some definitions =>
        rw [earlier, Option.map_some, Option.map_eq_some_iff] at known
        rcases known with ⟨others, found, count⟩
        rw [found]
        simp [count]
  · exact known

theorem SameCounts.addDefinitions
    {before after : Std.TreeMap String (List Definition)}
    (same : SameCounts before after)
    {definitions others : List Definition}
    (named :
      List.Forall₂
        (fun definition other =>
          definition.variableName = other.variableName)
        definitions others) :
    SameCounts
      (definitions.foldl DataFlow.addDefinition before)
      (others.foldl DataFlow.addDefinition after) := by
  induction named generalizing before after with
  | nil => exact same
  | cons head _ hypothesis => exact hypothesis (same.addDefinition head)

/-- Only the texts of values and of operations may be different. -/
structure Keeps (before after : DataFlow) : Prop where
  liveness : after.liveness = before.liveness
  reaching : SameCounts before.reaching after.reaching

theorem Keeps.addFunction
    {before after : DataFlow}
    (keeps : before.Keeps after)
    {definition other : FunctionDef}
    (same : definition.Keeps other) :
    (before.addFunction definition).Keeps (after.addFunction other) where
  liveness := by
    rw [DataFlow.addFunction, DataFlow.addFunction, keeps.liveness, same.name,
      same.variableNames]
  reaching := keeps.reaching.addDefinitions same.definitions

theorem Keeps.addFunctions
    {before after : DataFlow}
    (keeps : before.Keeps after)
    {definitions others : List FunctionDef}
    (same : List.Forall₂ FunctionDef.Keeps definitions others) :
    (definitions.foldl DataFlow.addFunction before).Keeps
      (others.foldl DataFlow.addFunction after) := by
  induction same generalizing before after with
  | nil => exact keeps
  | cons head _ hypothesis => exact hypothesis (keeps.addFunction head)

end DataFlow

/-! ## Programs that read the same -/

/-- The same functions in the same order, each read the same. -/
structure Program.Keeps (before after : Program) : Prop where
  module : after.module = before.module
  functions :
    List.Forall₂ FunctionDef.Keeps before.functions after.functions

namespace Program.Keeps

variable {before after : Program}

/-- What is read the same from each function is read the same from all. -/
theorem map_functions
    {α : Type}
    {view : FunctionDef → α}
    (keeps : before.Keeps after)
    (same :
      ∀ {definition other : FunctionDef},
        definition.Keeps other → view other = view definition) :
    after.functions.map view = before.functions.map view := by
  rw [← List.forall₂_eq_eq_eq, List.forall₂_map_left_iff,
    List.forall₂_map_right_iff]
  exact keeps.functions.flip.imp fun _ _ kept => same kept

theorem functionNames (keeps : before.Keeps after) :
    after.functions.map FunctionDef.name =
      before.functions.map FunctionDef.name :=
  keeps.map_functions FunctionDef.Keeps.name

theorem recordedCalls (keeps : before.Keeps after) :
    after.recordedCalls = before.recordedCalls := by
  rw [Program.recordedCalls, Program.recordedCalls, List.flatMap_def,
    List.flatMap_def, keeps.map_functions FunctionDef.Keeps.recordedCalls]

theorem defines (keeps : before.Keeps after) (name : String) :
    after.defines name = before.defines name := by
  rw [Bool.eq_iff_iff, Program.defines_iff, Program.defines_iff,
    ← List.mem_map, ← List.mem_map, keeps.functionNames]

theorem leadsIntoRecursion_iff (keeps : before.Keeps after) (name : String) :
    after.LeadsIntoRecursion name ↔ before.LeadsIntoRecursion name := by
  have same : after.RecordsCall = before.RecordsCall := by
    funext caller callee
    rw [RecordsCall, RecordsCall, keeps.recordedCalls, keeps.defines]
  rw [LeadsIntoRecursion, LeadsIntoRecursion, same]

theorem find?_name
    {definitions others : List FunctionDef}
    (keeps : List.Forall₂ FunctionDef.Keeps definitions others)
    (name : String) :
    Option.Rel FunctionDef.Keeps
      (definitions.find? (·.name == name)) (others.find? (·.name == name)) := by
  induction keeps with
  | nil => exact Option.Rel.none
  | @cons definition other _ _ head _ hypothesis =>
      rw [List.find?_cons, List.find?_cons, head.name]
      cases definition.name == name with
      | true => exact Option.Rel.some head
      | false => exact hypothesis

/-- The last definitions of a name read the same. -/
theorem lastDefinition? (keeps : before.Keeps after) (name : String) :
    Option.Rel FunctionDef.Keeps
      (before.lastDefinition? name) (after.lastDefinition? name) :=
  find?_name (List.rel_reverse keeps.functions) name

theorem isLastDefinition
    (keeps : before.Keeps after)
    {name : String}
    {definition : FunctionDef}
    (last : before.IsLastDefinition name definition) :
    ∃ other, after.IsLastDefinition name other ∧ definition.Keeps other := by
  have related := keeps.lastDefinition? name
  rw [(Program.lastDefinition?_eq_some_iff _ _ _).2 last] at related
  generalize found : after.lastDefinition? name = later at related
  cases related with
  | some kept =>
      exact ⟨_, (Program.lastDefinition?_eq_some_iff _ _ _).1 found, kept⟩

theorem controlFlow (keeps : before.Keeps after) :
    ControlFlow.ofProgram after = ControlFlow.ofProgram before := by
  -- The run is a fold over what each function adds, and the additions agree.
  have additions :
      (after.functions.map fun definition flow =>
          ControlFlow.addFunction flow definition) =
        before.functions.map fun definition flow =>
          ControlFlow.addFunction flow definition := by
    apply keeps.map_functions
    intro definition other kept
    funext flow
    rw [ControlFlow.addFunction, ControlFlow.addFunction, kept.name,
      kept.topLoops]
  have run :=
    congrArg (List.foldl (fun flow addition => addition flow) {}) additions
  rwa [List.foldl_map, List.foldl_map] at run

theorem dataFlow (keeps : before.Keeps after) :
    (DataFlow.ofProgram before).Keeps (DataFlow.ofProgram after) :=
  DataFlow.Keeps.addFunctions ⟨rfl, fun _ => rfl⟩ keeps.functions

end Program.Keeps

/-! ## Call graphs -/

/-- The node counts the same calls, and its function weighs no more. -/
structure CallNode.Keeps (before after : CallNode) : Prop where
  symbol : after.symbol = before.symbol
  callCount : after.callCount = before.callCount
  recursive : after.recursive = before.recursive
  complexity : after.complexity ≤ before.complexity
  inlinable : before.inlinable = true → after.inlinable = true

/-- The same nodes in the same order, with the same calls between them. -/
structure CallGraph.Keeps (before after : CallGraph) : Prop where
  module : after.module = before.module
  order : after.order = before.order
  edges : after.edges = before.edges
  redefinitions : after.redefinitions = before.redefinitions
  nodes :
    ∀ symbol : Symbol,
      Option.Rel CallNode.Keeps before.nodes[symbol]? after.nodes[symbol]?

namespace Program.Keeps

variable {before after : Program}

theorem node (keeps : before.Keeps after) (name : String) :
    Option.Rel CallNode.Keeps
      (CallGraph.ofProgram before).nodes[Symbol.mk before.module name]?
      (CallGraph.ofProgram after).nodes[Symbol.mk before.module name]? := by
  have afterNode := CallGraph.getElem?_ofProgram after name
  rw [keeps.module] at afterNode
  rw [afterNode, CallGraph.getElem?_ofProgram]
  have related := keeps.lastDefinition? name
  generalize before.lastDefinition? name = earlier at related ⊢
  generalize after.lastDefinition? name = later at related ⊢
  cases related with
  | none => exact Option.Rel.none
  | some kept =>
      refine Option.Rel.some ⟨rfl, ?_, ?_, kept.complexity, ?_⟩
      · rw [keeps.recordedCalls]
      · simp only [keeps.leadsIntoRecursion_iff]
      · intro small
        have threshold := of_decide_eq_true small
        exact decide_eq_true (Nat.lt_of_le_of_lt kept.complexity threshold)

theorem callGraph (keeps : before.Keeps after) :
    (CallGraph.ofProgram before).Keeps (CallGraph.ofProgram after) where
  module := by
    rw [CallGraph.module_ofProgram, CallGraph.module_ofProgram, keeps.module]
  order := by
    rw [CallGraph.order_ofProgram, CallGraph.order_ofProgram,
      keeps.functionNames, keeps.module]
  edges := by
    rw [CallGraph.edges_ofProgram, CallGraph.edges_ofProgram,
      keeps.recordedCalls, keeps.module]
  redefinitions := by
    rw [CallGraph.redefinitions_ofProgram, CallGraph.redefinitions_ofProgram,
      keeps.functionNames, keeps.module]
  nodes := by
    intro symbol
    by_cases own : symbol.module = before.module
    · have same : symbol = ⟨before.module, symbol.name⟩ := by
        rw [← own]
      rw [same]
      exact keeps.node symbol.name
    · rw [CallGraph.getElem?_ofProgram_of_ne before own,
        CallGraph.getElem?_ofProgram_of_ne after (by rwa [keeps.module])]
      exact Option.Rel.none

/-- A function that is worth inlining stays so. -/
theorem worthInlining
    (keeps : before.Keeps after)
    {name : String}
    (worth : before.WorthInlining name) :
    after.WorthInlining name where
  small := by
    rcases worth.small with ⟨definition, last, small⟩
    rcases keeps.isLastDefinition last with ⟨other, otherLast, kept⟩
    exact ⟨other, otherLast, Nat.lt_of_le_of_lt kept.complexity small⟩
  called := by
    rw [← Program.countP_recordedCalls_ne_zero_iff, keeps.recordedCalls,
      Program.countP_recordedCalls_ne_zero_iff]
    exact worth.called
  ends := by
    rw [keeps.leadsIntoRecursion_iff]
    exact worth.ends

end Program.Keeps

/-! ## Optimized programs -/

namespace Stmt

/-- Neither statement defines a function, or their functions read the same. -/
def Keeps (before after : Stmt) : Prop :=
  Option.Rel FunctionDef.Keeps before.function? after.function?

theorem Keeps.refl (statement : Stmt) : statement.Keeps statement := by
  unfold Keeps
  cases statement.function? with
  | none => exact Option.Rel.none
  | some definition => exact Option.Rel.some ⟨rfl, rfl, Nat.le_refl _⟩

theorem Keeps.trans
    {first second third : Stmt}
    (early : first.Keeps second)
    (late : second.Keeps third) :
    first.Keeps third := by
  unfold Keeps at early late ⊢
  generalize first.function? = start at early ⊢
  generalize second.function? = middle at early late
  generalize third.function? = last at late ⊢
  cases early with
  | none => exact late
  | some kept =>
      cases late with
      | some again =>
          exact Option.Rel.some
            ⟨again.name.trans kept.name, again.outline.trans kept.outline,
              Nat.le_trans again.complexity kept.complexity⟩

theorem keeps_foldConstants (statement : Stmt) :
    statement.Keeps statement.foldConstants.result := by
  cases statement with
  | function name parameters body =>
      exact Option.Rel.some
        ⟨rfl, body.outline_foldConstants,
          Expr.weight_foldConstants_le Weighting.isMonotone_complexity body⟩
  | _ => exact Option.Rel.none

theorem keeps_reduced (statement : Stmt) :
    statement.Keeps statement.reduced := by
  cases statement with
  | function name parameters body =>
      exact Option.Rel.some
        ⟨rfl, body.outline_reduced,
          (Expr.weight_reduced Weighting.isMonotone_complexity body).le⟩
  | _ => exact Option.Rel.none

end Stmt

namespace Options

theorem keeps_rewrite (options : Options) (statement : Stmt) :
    statement.Keeps (options.rewrite statement) := by
  unfold rewrite
  split
  · exact statement.keeps_foldConstants.trans (Stmt.keeps_reduced _)
  · split
    · exact statement.keeps_foldConstants
    · exact Stmt.Keeps.refl statement

/-- A run that removes no function leaves a program that reads the same. -/
theorem keeps_optimize
    {options : Options}
    {program : Program}
    {statistics : Statistics}
    (whole : options.entryPoint = none)
    (succeeds : (options.optimize program).result = .ok statistics) :
    program.Keeps (options.optimize program).program := by
  rcases exists_program_optimize_eq succeeds with ⟨live, after, all⟩
  rw [after, Program.filter_survives_eq_self (all (Or.inl whole))]
  have statements :
      List.Forall₂ Stmt.Keeps
        program.statements (program.statements.map options.rewrite) := by
    rw [List.forall₂_map_right_iff, List.forall₂_same]
    intro statement _
    exact options.keeps_rewrite statement
  exact ⟨rfl, List.rel_filterMap (fun _ _ kept => kept) statements⟩

end Options

/--
An analysis that may be taken for another: no call, loop, variable or definition
appears or disappears, no function gets more complex, and every function that
was proposed for inlining still is.
-/
structure Analysis.Keeps (before after : Analysis) : Prop where
  controlFlow : after.controlFlow = before.controlFlow
  dataFlow : before.dataFlow.Keeps after.dataFlow
  callGraph : before.callGraph.Keeps after.callGraph
  inlining :
    ∀ name,
      (∃ opportunity ∈ before.opportunities,
        opportunity.Inlines ⟨before.callGraph.module, name⟩) →
      ∃ opportunity ∈ after.opportunities,
        opportunity.Inlines ⟨before.callGraph.module, name⟩

theorem Analysis.module_callGraph (program : Program) :
    (ofProgram program).callGraph.module = program.module :=
  CallGraph.module_ofProgram program

/-- A run without an entry point that succeeds leaves the analyses valid. -/
theorem Options.optimize_keeps_analyses
    (options : Options)
    (program : Program)
    (whole : options.entryPoint = none)
    (succeeds :
      ∃ statistics, (options.optimize program).result = .ok statistics) :
    (Analysis.ofProgram program).Keeps
      (Analysis.ofProgram (options.optimize program).program) := by
  rcases succeeds with ⟨statistics, succeeds⟩
  have keeps := keeps_optimize whole succeeds
  refine ⟨keeps.controlFlow, keeps.dataFlow, keeps.callGraph, ?_⟩
  intro name
  rw [Analysis.module_callGraph]
  intro proposed
  have worth := (Opportunity.exists_inlines_iff program name).1 proposed
  have still :=
    (Opportunity.exists_inlines_iff _ name).2 (keeps.worthInlining worth)
  rw [keeps.module] at still
  exact still

/-- A function is defined twice, a constant is folded, and a product reduced. -/
theorem Options.optimize_keeps_analyses_redefined :
    let options : Options := { level := .aggressive }
    let program : Program :=
      ⟨"m", [.function "f" [] (.call (.ident "g") []),
        .function "g" [] (.literal (.int 1)),
        .function "f" ["x"]
          (.binary .multiply (.ident "x") (.literal (.int 8))),
        .function "h" []
          (.block
            [.bind "y"
              (.binary .add (.literal (.int 2)) (.literal (.int 3))),
            .expr (.call (.ident "f") [.ident "y"]),
            .expr (.loop (.ident "y") (.assign "y" (.literal (.int 0))))])]⟩
    options.entryPoint = none ∧
    (∃ statistics, (options.optimize program).result = .ok statistics) ∧
    (Analysis.ofProgram program).Keeps
      (Analysis.ofProgram (options.optimize program).program) ∧
    ∃ opportunity ∈
        (Analysis.ofProgram (options.optimize program).program).opportunities,
      opportunity.Inlines ⟨"m", "f"⟩ := by
  intro options program
  have succeeds :
      ∃ statistics, (options.optimize program).result = .ok statistics :=
    ⟨_, rfl⟩
  have keeps := optimize_keeps_analyses options program rfl succeeds
  have last := (program.lastDefinition?_eq_some_iff "f" _).1 rfl
  have calls : program.recordedCalls = [("f", "g"), ("h", "f")] := rfl
  have descends :
      ∀ caller callee,
        program.RecordsCall caller callee →
          ["g", "f", "h"].idxOf callee < ["g", "f", "h"].idxOf caller := by
    rintro caller callee ⟨recorded, _⟩
    rw [calls] at recorded
    simp only [List.mem_cons, List.not_mem_nil, or_false, Prod.mk.injEq]
      at recorded
    rcases recorded with ⟨rfl, rfl⟩ | ⟨rfl, rfl⟩
    · decide
    · decide
  have worth : program.WorthInlining "f" :=
    ⟨⟨_, last, by decide⟩, ⟨_, List.mem_of_getLast? rfl, by decide⟩,
      Program.not_leadsIntoRecursion_of_rank descends "f"⟩
  have proposed := (Opportunity.exists_inlines_iff program "f").2 worth
  have kept := keeps.inlining "f"
  rw [Analysis.module_callGraph] at kept
  exact ⟨rfl, succeeds, keeps, kept proposed⟩

end MiddleEnd
