import Mathlib.Data.List.Induction
import Mathlib.Logic.Relation
import MiddleEnd.DataFlow
import MiddleEnd.Proofs.Children
import MiddleEnd.Proofs.LiveFunctions

/-!
# What a data-flow summary says

The summary of a program is added up function by function, in three maps that
take in a function in three ways: a variable gets one more range for each
function that mentions it, a definition goes behind those of its variable, and
the expressions of a function replace those of an earlier function of its name.

`DataFlow.Holds` says what the maps hold after a list of functions, and one more
function keeps it true.  `DataFlow.Summarizes` is what follows for a program:
what is mentioned, bound and computed in the bodies of its functions, and where.
-/

namespace MiddleEnd

open Relation

/-! ## What stands in an expression -/

namespace Expr

/-- The second expression is the first one, or stands somewhere below it. -/
def Contains : Expr → Expr → Prop :=
  ReflTransGen fun parent child => child ∈ parent.children

/-- The walk visits all that stands in an expression. -/
theorem mem_subexprs_iff (expression inner : Expr) :
    inner ∈ expression.subexprs ↔ expression.Contains inner := by
  induction expression using childrenInduction with
  | node expression hypothesis =>
      rw [subexprs_eq_cons, List.mem_cons, List.mem_flatMap, Contains,
        ReflTransGen.cases_head_iff]
      constructor
      · rintro (rfl | ⟨child, member, inside⟩)
        · exact Or.inl rfl
        · exact Or.inr ⟨child, member, (hypothesis child member).1 inside⟩
      · rintro (rfl | ⟨child, member, inside⟩)
        · exact Or.inl rfl
        · exact Or.inr ⟨child, member, (hypothesis child member).2 inside⟩

/-- A statement in a block somewhere in the expression binds the name. -/
def Binds (expression : Expr) (name : String) : Prop :=
  ∃ statements value,
    expression.Contains (.block statements) ∧ .bind name value ∈ statements

/-- The expression uses the name somewhere, or binds it. -/
def Mentions (expression : Expr) (name : String) : Prop :=
  expression.Contains (.ident name) ∨ expression.Binds name

theorem mem_bindings_iff (node : Expr) (name : String) (value : Expr) :
    (name, value) ∈ node.bindings ↔
      ∃ statements, node = .block statements ∧ .bind name value ∈ statements := by
  cases node with
  | block statements =>
      have binds :
          ∀ statement : Stmt,
            statement.binding? = some (name, value) ↔
              statement = .bind name value := by
        intro statement
        cases statement <;> simp [Stmt.binding?]
      simp [bindings, binds]
  | _ => simp [bindings]

theorem mem_mentions_iff (node : Expr) (name : String) :
    name ∈ node.mentions ↔
      node = .ident name ∨ ∃ value, (name, value) ∈ node.bindings := by
  cases node with
  | ident other => simp [mentions, bindings, eq_comm]
  | _ => simp [mentions]

theorem binds_iff (expression : Expr) (name : String) :
    expression.Binds name ↔
      ∃ node ∈ expression.subexprs, ∃ value, (name, value) ∈ node.bindings := by
  constructor
  · rintro ⟨statements, value, inside, binding⟩
    exact ⟨.block statements, (mem_subexprs_iff _ _).2 inside, value,
      (mem_bindings_iff _ _ _).2 ⟨statements, rfl, binding⟩⟩
  · rintro ⟨node, inside, value, binding⟩
    rcases (mem_bindings_iff _ _ _).1 binding with ⟨statements, rfl, member⟩
    exact ⟨statements, value, (mem_subexprs_iff _ _).1 inside, member⟩

theorem mem_variableNames_iff (expression : Expr) (name : String) :
    name ∈ expression.variableNames ↔ expression.Mentions name := by
  rw [variableNames, Std.TreeSet.mem_ofList, List.contains_iff_mem,
    List.mem_flatMap, Mentions, binds_iff, ← mem_subexprs_iff]
  constructor
  · rintro ⟨node, inside, mentioned⟩
    rcases (mem_mentions_iff _ _).1 mentioned with rfl | binding
    · exact Or.inl inside
    · exact Or.inr ⟨node, inside, binding⟩
  · rintro (used | ⟨node, inside, binding⟩)
    · exact ⟨.ident name, used, (mem_mentions_iff _ _).2 (Or.inl rfl)⟩
    · exact ⟨node, inside, (mem_mentions_iff _ _).2 (Or.inr binding)⟩

instance (expression : Expr) (name : String) :
    Decidable (expression.Mentions name) :=
  decidable_of_iff _ (expression.mem_variableNames_iff name)

/-- The values that a node binds to the name, in order, if it is a block. -/
def boundValues (name : String) : Expr → List Expr
  | .block statements =>
      statements.filterMap fun statement =>
        match statement with
        | .bind other value => if other = name then some value else none
        | _ => none
  | _ => []

theorem filter_bindings (node : Expr) (name : String) :
    node.bindings.filter (·.1 = name) =
      (node.boundValues name).map fun value => (name, value) := by
  cases node with
  | block statements =>
      rw [bindings, boundValues, List.filter_filterMap, List.map_filterMap]
      congr 1
      funext statement
      cases statement with
      | bind other value =>
          by_cases same : other = name
          · simp [Stmt.binding?, same]
          · simp [Stmt.binding?, same, Option.filter_some]
      | _ => rfl
  | _ => rfl

/-- The definitions of a name, block by block as the walk visits the blocks. -/
theorem filter_definitions (expression : Expr) (name : String) :
    expression.definitions.filter (·.variableName = name) =
      (expression.subexprs.flatMap (boundValues name)).map fun value =>
        ⟨name, .unknown, value.source⟩ := by
  rw [definitions, List.filter_map, List.filter_flatMap, List.map_flatMap,
    List.map_flatMap]
  congr 1
  funext node
  show List.map _ (node.bindings.filter (·.1 = name)) = _
  rw [filter_bindings, List.map_map]
  rfl

theorem exists_definition_iff (expression : Expr) (name : String) :
    (∃ definition ∈ expression.definitions, definition.variableName = name) ↔
      expression.Binds name := by
  rw [binds_iff, definitions]
  constructor
  · rintro ⟨_, member, rfl⟩
    rcases List.mem_map.1 member with ⟨⟨name, value⟩, bound, rfl⟩
    rcases List.mem_flatMap.1 bound with ⟨node, inside, binding⟩
    exact ⟨node, inside, value, binding⟩
  · rintro ⟨node, inside, value, binding⟩
    have bound := List.mem_flatMap.2 ⟨node, inside, binding⟩
    exact ⟨_, List.mem_map.2 ⟨(name, value), bound, rfl⟩, rfl⟩

theorem isOperation_iff (node : Expr) :
    node.isOperation = true ↔
      (∃ op operand, node = .unary op operand) ∨
        ∃ op left right, node = .binary op left right := by
  cases node <;> simp [isOperation]

theorem mem_operations_iff (expression : Expr) (text : String) :
    text ∈ expression.operations ↔
      ∃ inner,
        expression.Contains inner ∧
          ((∃ op operand, inner = .unary op operand) ∨
            ∃ op left right, inner = .binary op left right) ∧
          inner.source = text := by
  simp only [operations, Std.TreeSet.mem_ofList, List.contains_iff_mem,
    List.mem_map, List.mem_filter, mem_subexprs_iff, isOperation_iff, and_assoc]

end Expr

/-! ## What the maps hold -/

namespace DataFlow

/-- The functions that mention a variable, by name and in order. -/
def scopes (functions : List FunctionDef) (name : String) : List String :=
  (functions.filter (·.body.Mentions name)).map FunctionDef.name

/-- The liveness of a variable that is live in the given functions. -/
def livenessIn (name : String) (scopes : List String) : Liveness where
  variableName := name
  ranges := scopes.map (LiveRange.mk .unknown .unknown)

/-- A map has exactly the given definitions, each under its variable. -/
def Lists
    (reaching : Std.TreeMap String (List Definition))
    (definitions : List Definition) : Prop :=
  ∀ name : String,
    reaching[name]? =
      Option.guard (· ≠ []) (definitions.filter (·.variableName = name))

/-- What the maps of a summary hold after the given functions. -/
structure Holds (flow : DataFlow) (functions : List FunctionDef) : Prop where
  liveness :
    ∀ name : String,
      flow.liveness[name]? =
        (Option.guard (· ≠ []) (scopes functions name)).map (livenessIn name)
  reaching :
    Lists flow.reaching
      (functions.flatMap fun definition => definition.body.definitions)
  available :
    ∀ name : String,
      flow.available[name]? =
        (functions.reverse.find? (·.name == name)).map fun definition =>
          definition.body.operations

theorem holds_empty : ({} : DataFlow).Holds [] where
  liveness := fun _ => Std.TreeMap.getElem?_emptyc
  reaching := fun _ => Std.TreeMap.getElem?_emptyc
  available := fun _ => Std.TreeMap.getElem?_emptyc

/-! ### Ranges -/

theorem getElem?_addRange
    (scope : String)
    (liveness : Std.TreeMap String Liveness)
    (variableName name : String) :
    (addRange scope liveness variableName)[name]? =
      if variableName = name then
        some
          { liveness[name]?.getD { variableName := name } with
            ranges :=
              (liveness[name]?.getD { variableName := name }).ranges ++
                [⟨.unknown, .unknown, scope⟩] }
      else
        liveness[name]? := by
  rw [addRange, Std.TreeMap.getElem?_alter]
  by_cases same : variableName = name
  · simp [same]
  · simp [same]

/-- Of distinct variables, each gets one more range. -/
theorem getElem?_addRanges
    (scope : String)
    {names : List String}
    (distinct : names.Nodup)
    (liveness : Std.TreeMap String Liveness)
    (name : String) :
    (names.foldl (addRange scope) liveness)[name]? =
      if name ∈ names then
        (addRange scope liveness name)[name]?
      else
        liveness[name]? := by
  induction names generalizing liveness with
  | nil => simp
  | cons first rest hypothesis =>
      rcases List.nodup_cons.1 distinct with ⟨apart, restDistinct⟩
      rw [List.foldl_cons, hypothesis restDistinct]
      by_cases same : first = name
      · rw [same] at apart
        simp [same, apart]
      · have other : name ≠ first := fun equal => same equal.symm
        simp [getElem?_addRange, same, other]

theorem scopes_concat
    (functions : List FunctionDef)
    (definition : FunctionDef)
    (name : String) :
    scopes (functions ++ [definition]) name =
      scopes functions name ++
        if definition.body.Mentions name then [definition.name] else [] := by
  by_cases mentioned : definition.body.Mentions name
  · simp [scopes, mentioned]
  · simp [scopes, mentioned]

theorem nodup_variableNames (expression : Expr) :
    expression.variableNames.toList.Nodup := by
  have distinct := expression.variableNames.distinct_toList
  simpa [List.Nodup] using distinct

theorem Holds.liveness_addFunction
    {flow : DataFlow}
    {functions : List FunctionDef}
    (holds : flow.Holds functions)
    (definition : FunctionDef)
    (name : String) :
    (flow.addFunction definition).liveness[name]? =
      (Option.guard (· ≠ []) (scopes (functions ++ [definition]) name)).map
        (livenessIn name) := by
  have listed :
      name ∈ definition.body.variableNames.toList ↔
        definition.body.Mentions name := by
    rw [Std.TreeSet.mem_toList, Expr.mem_variableNames_iff]
  rw [addFunction, getElem?_addRanges _ (nodup_variableNames _), scopes_concat]
  by_cases mentioned : definition.body.Mentions name
  · rw [if_pos (listed.2 mentioned), if_pos mentioned, getElem?_addRange,
      if_pos rfl, holds.liveness name]
    cases scopes functions name with
    | nil => rfl
    | cons first rest => simp [livenessIn]
  · rw [if_neg (mt listed.1 mentioned), if_neg mentioned, holds.liveness name,
      List.append_nil]

/-! ### Definitions -/

theorem Lists.addDefinition
    {reaching : Std.TreeMap String (List Definition)}
    {definitions : List Definition}
    (lists : Lists reaching definitions)
    (definition : Definition) :
    Lists (addDefinition reaching definition)
      (definitions ++ [definition]) := by
  intro name
  rw [DataFlow.addDefinition, Std.TreeMap.getElem?_alter, List.filter_append]
  by_cases same : definition.variableName = name
  · have known : reaching[name]?.getD [] =
        definitions.filter (·.variableName = name) := by
      rw [lists name]
      cases definitions.filter (·.variableName = name) <;> rfl
    simp [same, known]
  · simpa [same] using lists name

theorem Lists.addDefinitions
    {reaching : Std.TreeMap String (List Definition)}
    {definitions : List Definition}
    (lists : Lists reaching definitions)
    (more : List Definition) :
    Lists (more.foldl DataFlow.addDefinition reaching)
      (definitions ++ more) := by
  induction more generalizing reaching definitions with
  | nil => simpa using lists
  | cons first rest hypothesis =>
      have next := hypothesis (lists.addDefinition first)
      rwa [List.append_assoc] at next

/-! ### Functions -/

theorem Holds.addFunction
    {flow : DataFlow}
    {functions : List FunctionDef}
    (holds : flow.Holds functions)
    (definition : FunctionDef) :
    (flow.addFunction definition).Holds (functions ++ [definition]) where
  liveness := holds.liveness_addFunction definition
  reaching := by
    rw [List.flatMap_append, List.flatMap_singleton]
    exact holds.reaching.addDefinitions definition.body.definitions
  available := by
    intro name
    rw [DataFlow.addFunction, Std.TreeMap.getElem?_insert, List.reverse_concat,
      List.find?_cons, holds.available name]
    by_cases same : definition.name = name
    · simp [same]
    · have other : (definition.name == name) = false := beq_false_of_ne same
      simp [same, other]

theorem holds_ofProgram (program : Program) :
    (ofProgram program).Holds program.functions := by
  rw [ofProgram]
  induction program.functions using List.reverseRecOn with
  | nil => exact holds_empty
  | append_singleton functions definition hypothesis =>
      rw [List.foldl_concat]
      exact hypothesis.addFunction definition

end DataFlow

/-- The values bound to a name, function by function and block by block. -/
def Program.boundValues (program : Program) (name : String) : List Expr :=
  program.functions.flatMap fun definition =>
    definition.body.subexprs.flatMap (Expr.boundValues name)

namespace DataFlow

/-- What a summary says about the program it was made for. -/
structure Summarizes (flow : DataFlow) (program : Program) : Prop where
  /-- The variables are those that the functions mention. -/
  live :
    ∀ name : String,
      name ∈ flow.liveness ↔
        ∃ definition ∈ program.functions, definition.body.Mentions name
  /-- A variable has one range for each function that mentions it. -/
  ranges :
    ∀ (name : String) (liveness : Liveness),
      flow.liveness[name]? = some liveness →
        liveness =
          { variableName := name
            ranges :=
              (program.functions.filter (·.body.Mentions name)).map
                fun definition => ⟨.unknown, .unknown, definition.name⟩ }
  /-- The variables with definitions are those that the functions bind. -/
  bound :
    ∀ name : String,
      name ∈ flow.reaching ↔
        ∃ definition ∈ program.functions, definition.body.Binds name
  /-- A variable has one definition for each value that is bound to it. -/
  definitions :
    ∀ (name : String) (definitions : List Definition),
      flow.reaching[name]? = some definitions →
        definitions =
          (program.boundValues name).map fun value =>
            ⟨name, .unknown, value.source⟩
  /-- The functions are those of the program. -/
  functions :
    ∀ name : String,
      name ∈ flow.available ↔
        ∃ definition ∈ program.functions, definition.name = name
  /-- A function has the texts of the operations in its last definition. -/
  operations :
    ∀ (name : String) (texts : Std.TreeSet String),
      flow.available[name]? = some texts →
        ∃ definition,
          program.IsLastDefinition name definition ∧
          ∀ text,
            text ∈ texts ↔
              ∃ inner,
                definition.body.Contains inner ∧
                ((∃ op operand, inner = .unary op operand) ∨
                  ∃ op left right, inner = .binary op left right) ∧
                inner.source = text
  /-- A variable that has definitions is live. -/
  bound_live : ∀ name : String, name ∈ flow.reaching → name ∈ flow.liveness

section

variable (program : Program) (name : String)

theorem mem_liveness_ofProgram_iff :
    name ∈ (ofProgram program).liveness ↔
      ∃ definition ∈ program.functions, definition.body.Mentions name := by
  rw [Std.TreeMap.mem_iff_isSome_getElem?,
    (holds_ofProgram program).liveness name]
  simp [scopes]

theorem mem_reaching_ofProgram_iff :
    name ∈ (ofProgram program).reaching ↔
      ∃ definition ∈ program.functions, definition.body.Binds name := by
  rw [Std.TreeMap.mem_iff_isSome_getElem?,
    (holds_ofProgram program).reaching name]
  simp only [← Expr.exists_definition_iff, Option.isSome_guard,
    decide_eq_true_eq, ne_eq, List.filter_eq_nil_iff, List.mem_flatMap,
    not_forall, not_not, exists_prop]
  constructor
  · rintro ⟨bound, ⟨definition, member, inside⟩, named⟩
    exact ⟨definition, member, bound, inside, named⟩
  · rintro ⟨definition, member, bound, inside, named⟩
    exact ⟨bound, ⟨definition, member, inside⟩, named⟩

theorem mem_available_ofProgram_iff :
    name ∈ (ofProgram program).available ↔
      ∃ definition ∈ program.functions, definition.name = name := by
  rw [Std.TreeMap.mem_iff_isSome_getElem?,
    (holds_ofProgram program).available name]
  simp

end

/-- The summary that is made for a program says what its functions do. -/
theorem ofProgram_summarizes (program : Program) :
    (ofProgram program).Summarizes program := by
  have holds := holds_ofProgram program
  refine
    { live := mem_liveness_ofProgram_iff program
      ranges := ?_
      bound := mem_reaching_ofProgram_iff program
      definitions := ?_
      functions := mem_available_ofProgram_iff program
      operations := ?_
      bound_live := ?_ }
  · intro name liveness found
    rw [holds.liveness name, Option.map_eq_some_iff] at found
    rcases found with ⟨_, listed, rfl⟩
    rcases Option.guard_eq_some_iff.1 listed with ⟨rfl, _⟩
    rw [livenessIn, scopes, List.map_map]
    rfl
  · intro name definitions found
    rw [holds.reaching name] at found
    rcases Option.guard_eq_some_iff.1 found with ⟨rfl, _⟩
    rw [Program.boundValues, List.map_flatMap, List.filter_flatMap]
    simp only [Expr.filter_definitions]
  · intro name texts found
    rw [holds.available name, Option.map_eq_some_iff] at found
    rcases found with ⟨definition, last, rfl⟩
    rw [← Program.lastDefinition?, Program.lastDefinition?_eq_some_iff] at last
    exact ⟨definition, last, definition.body.mem_operations_iff⟩
  · intro name bound
    rw [mem_reaching_ofProgram_iff] at bound
    rw [mem_liveness_ofProgram_iff]
    rcases bound with ⟨definition, member, binds⟩
    exact ⟨definition, member, Or.inr binds⟩

end DataFlow

end MiddleEnd
