import Mathlib.Order.Bounds.Basic
import MiddleEnd.Pass.DeadFunctions

/-!
# Which functions are live

A set of names is closed under calls when it has the entry point, all that is
called outside of the functions, and with every name all that the last
definition of the name calls.  The live names of a program are the least such
set, and removing dead functions is filtering by it.

A name without a definition may be live; it then keeps nothing and leads to
nothing.  Definitions that a later one of the same name hides are kept or
removed with it, and their calls count for nothing.
-/

namespace MiddleEnd

namespace Program

/-- The definition is the last one of the name at the top of the program. -/
def IsLastDefinition
    (program : Program)
    (name : String)
    (definition : FunctionDef) : Prop :=
  ∃ before after,
    program.functions = before ++ definition :: after ∧
      definition.name = name ∧ ∀ later ∈ after, later.name ≠ name

/-- A set of names that has all that can be called when one of them is. -/
structure ClosedUnderCalls
    (program : Program)
    (entryPoint : String)
    (names : Set String) : Prop where
  entry : entryPoint ∈ names
  topLevel :
    ∀ statement ∈ program.statements, statement.isFunction = false →
      ∀ expression ∈ statement.held, ∀ called ∈ expression.calledNames,
        called ∈ names
  calls :
    ∀ name ∈ names, ∀ definition, program.IsLastDefinition name definition →
      ∀ called ∈ definition.body.calledNames, called ∈ names

theorem lastDefinition?_eq_some_iff
    (program : Program)
    (name : String)
    (definition : FunctionDef) :
    program.lastDefinition? name = some definition ↔
      program.IsLastDefinition name definition := by
  rw [lastDefinition?, List.find?_eq_some_iff_append]
  constructor
  · rintro ⟨named, after, before, split, others⟩
    refine ⟨before.reverse, after.reverse, ?_, by simpa using named, ?_⟩
    · rw [← List.reverse_reverse program.functions, split]
      simp
    · intro later member
      simpa using others later (List.mem_reverse.1 member)
  · rintro ⟨before, after, split, named, others⟩
    refine ⟨by simpa using named, after.reverse, before.reverse, ?_, ?_⟩
    · rw [split]
      simp
    · intro later member
      simpa using others later (List.mem_reverse.1 member)

theorem mem_callsOf_iff (program : Program) (name called : String) :
    called ∈ program.callsOf name ↔
      ∃ definition, program.IsLastDefinition name definition ∧
        called ∈ definition.body.calledNames := by
  simp only [← lastDefinition?_eq_some_iff]
  cases found : program.lastDefinition? name with
  | none => simp [callsOf, found]
  | some definition => simp [callsOf, found]

theorem mem_topLevelCalls_iff (program : Program) (called : String) :
    called ∈ program.topLevelCalls ↔
      ∃ statement ∈ program.statements, statement.isFunction = false ∧
        ∃ expression ∈ statement.held, called ∈ expression.calledNames := by
  simp [topLevelCalls, Stmt.calledNames, and_assoc]

theorem mem_liveNames_iff (program : Program) (entryPoint name : String) :
    name ∈ program.liveNames entryPoint ↔
      program.callLinks.Reaches (program.topLevelCalls ++ [entryPoint]) name :=
  Links.mem_reach_iff _ _ _

theorem closedUnderCalls_liveNames (program : Program) (entryPoint : String) :
    program.ClosedUnderCalls entryPoint
      {name | name ∈ program.liveNames entryPoint} where
  entry := by
    show entryPoint ∈ program.liveNames entryPoint
    rw [mem_liveNames_iff]
    exact Links.Reaches.seed (by simp)
  topLevel := by
    intro statement member outside expression held called call
    show called ∈ program.liveNames entryPoint
    rw [mem_liveNames_iff]
    apply Links.Reaches.seed
    apply List.mem_append_left
    rw [mem_topLevelCalls_iff]
    exact ⟨statement, member, outside, expression, held, call⟩
  calls := by
    intro name live definition last called call
    show called ∈ program.liveNames entryPoint
    rw [mem_liveNames_iff]
    apply Links.Reaches.step ((program.mem_liveNames_iff entryPoint name).1 live)
    change called ∈ program.callsOf name
    rw [mem_callsOf_iff]
    exact ⟨definition, last, call⟩

/-- A live name is in every set that is closed under calls. -/
theorem ClosedUnderCalls.mem_of_mem_liveNames
    {program : Program}
    {entryPoint : String}
    {names : Set String}
    (closed : program.ClosedUnderCalls entryPoint names)
    {name : String}
    (live : name ∈ program.liveNames entryPoint) :
    name ∈ names := by
  rw [mem_liveNames_iff] at live
  induction live with
  | seed member =>
      rcases List.mem_append.1 member with topLevel | entry
      · rcases (program.mem_topLevelCalls_iff _).1 topLevel with
          ⟨statement, member, outside, expression, held, call⟩
        exact closed.topLevel statement member outside expression held _ call
      · rw [List.mem_singleton.1 entry]
        exact closed.entry
  | step _ link hypothesis =>
      rcases (program.mem_callsOf_iff _ _).1 link with ⟨definition, last, call⟩
      exact closed.calls _ hypothesis definition last _ call

theorem isLeast_liveNames (program : Program) (entryPoint : String) :
    IsLeast
      {names | program.ClosedUnderCalls entryPoint names}
      {name | name ∈ program.liveNames entryPoint} := by
  refine ⟨program.closedUnderCalls_liveNames entryPoint, ?_⟩
  intro names closed name live
  exact closed.mem_of_mem_liveNames live

/-- Whether a statement is no function, or one whose name is among the live. -/
def survives (live : String → Bool) (statement : Stmt) : Bool :=
  statement.function?.all fun definition => live definition.name

/-- The program without the functions whose names are not among the live. -/
def restrict (program : Program) (live : String → Bool) : Program :=
  { program with statements := program.statements.filter (survives live) }

theorem keepFunctions_eq (program : Program) (names : List String) :
    program.keepFunctions names =
      { program := program.restrict fun name => name ∈ names
        removed :=
          (program.functions.filter fun definition =>
            !decide (definition.name ∈ names)).map FunctionDef.name } := by
  rw [keepFunctions, restrict]
  congr 2
  · apply List.filter_congr
    intro statement _
    cases found : statement.function? <;> simp [survives, found]
  · simp only [decide_not]

theorem functions_restrict (program : Program) (live : String → Bool) :
    (program.restrict live).functions =
      program.functions.filter fun definition => live definition.name := by
  simp only [functions, restrict]
  induction program.statements with
  | nil => rfl
  | cons statement rest hypothesis =>
      cases found : statement.function? with
      | none =>
          simp [survives, found, hypothesis]
      | some definition =>
          cases keeps : live definition.name <;>
            simp [survives, found, keeps, hypothesis]

theorem restrict_eq_self
    {program : Program}
    {live : String → Bool}
    (all : ∀ definition ∈ program.functions, live definition.name = true) :
    program.restrict live = program := by
  have same : program.statements.filter (survives live) = program.statements := by
    rw [List.filter_eq_self]
    intro statement member
    cases found : statement.function? with
    | none => simp [survives, found]
    | some definition =>
        have inside : definition ∈ program.functions :=
          List.mem_filterMap.2 ⟨statement, member, found⟩
        simp [survives, found, all definition inside]
  rw [restrict, same]

/-- Where the names of all functions are kept, nothing is removed. -/
theorem keepFunctions_eq_self
    {program : Program}
    {names : List String}
    (all : ∀ definition ∈ program.functions, definition.name ∈ names) :
    program.keepFunctions names = { program, removed := [] } := by
  have whole : program.restrict (fun name => name ∈ names) = program :=
    restrict_eq_self (by simpa using all)
  have nothing :
      (program.functions.filter fun definition =>
        !decide (definition.name ∈ names)) = [] := by
    simpa using all
  rw [keepFunctions_eq, whole, nothing]
  rfl

/-- The names of all functions are seeds when there is no entry point. -/
theorem removeDeadFunctions_none (program : Program) :
    program.removeDeadFunctions none = { program, removed := [] } := by
  apply keepFunctions_eq_self
  intro definition member
  rw [Links.mem_reach_iff]
  exact Links.Reaches.seed (List.mem_map_of_mem member)

theorem removeDeadFunctions_some (program : Program) (entryPoint : String) :
    program.removeDeadFunctions (some entryPoint) =
      program.keepFunctions (program.liveNames entryPoint) :=
  rfl

/-! ## Removing once is enough -/

theorem IsLastDefinition.restrict
    {program : Program}
    {name : String}
    {definition : FunctionDef}
    {live : String → Bool}
    (last : program.IsLastDefinition name definition)
    (keeps : live name = true) :
    (program.restrict live).IsLastDefinition name definition := by
  rcases last with ⟨before, after, split, named, others⟩
  refine ⟨before.filter fun other => live other.name,
    after.filter fun other => live other.name, ?_, named, ?_⟩
  · rw [functions_restrict, split]
    simp [named, keeps]
  · intro later member
    exact others later (List.mem_filter.1 member).1

/-- A name that is live stays live when the dead functions are gone. -/
theorem mem_liveNames_restrict
    (program : Program)
    (entryPoint : String)
    {name : String}
    (live : name ∈ program.liveNames entryPoint) :
    name ∈ (program.restrict fun name =>
      name ∈ program.liveNames entryPoint).liveNames entryPoint := by
  let pruned :=
    program.restrict fun name => name ∈ program.liveNames entryPoint
  have before := program.closedUnderCalls_liveNames entryPoint
  have after := pruned.closedUnderCalls_liveNames entryPoint
  -- The names that are live both before and after are closed under calls.
  have both :
      program.ClosedUnderCalls entryPoint
        {name |
          name ∈ program.liveNames entryPoint ∧
            name ∈ pruned.liveNames entryPoint} := by
    refine ⟨⟨before.entry, after.entry⟩, ?_, ?_⟩
    · intro statement member outside expression held called call
      refine ⟨before.topLevel statement member outside expression held called call,
        after.topLevel statement ?_ outside expression held called call⟩
      have none : statement.function? = none := by
        simpa [Stmt.isFunction] using outside
      simp [pruned, restrict, survives, none, member]
    · rintro name ⟨liveBefore, liveAfter⟩ definition last called call
      refine ⟨before.calls name liveBefore definition last called call, ?_⟩
      exact after.calls name liveAfter definition
        (last.restrict (by simpa using liveBefore)) called call
  exact (both.mem_of_mem_liveNames live).2

/-! ## What liveness depends on -/

end Program

/-- The name that a statement defines, if it is a function, and what it calls. -/
def Stmt.callView (statement : Stmt) : Option String × List String :=
  (statement.function?.map FunctionDef.name, statement.calledNames)

namespace Program

/-- The names of the functions, each with the names that its body calls. -/
def callTable (program : Program) : List (String × List String) :=
  program.functions.map fun definition =>
    (definition.name, definition.body.calledNames)

theorem callsOf_eq_callTable (program : Program) (name : String) :
    program.callsOf name =
      ((program.callTable.reverse.find? (·.1 == name)).map Prod.snd).getD [] := by
  rw [callsOf, callTable, ← List.map_reverse, List.find?_map, lastDefinition?]
  show _ = (((program.functions.reverse.find? (·.name == name)).map _).map _).getD _
  cases program.functions.reverse.find? (·.name == name) <;> rfl

theorem callTable_eq_callViews (program : Program) :
    program.callTable =
      (program.statements.map Stmt.callView).filterMap fun view =>
        view.1.map fun name => (name, view.2) := by
  rw [callTable, functions, List.map_filterMap, List.filterMap_map]
  congr 1
  funext statement
  cases statement <;>
    simp [Stmt.callView, Stmt.function?, Stmt.calledNames, Stmt.held]

theorem topLevelCalls_eq_callViews (program : Program) :
    program.topLevelCalls =
      ((program.statements.map Stmt.callView).filter (·.1.isNone)).flatMap
        Prod.snd := by
  rw [topLevelCalls, List.filter_map, List.flatMap_map]
  congr 2
  funext statement
  simp [Stmt.callView, Stmt.isFunction]

/-- Statements that define and call the same have the same names live. -/
theorem liveNames_congr
    {program other : Program}
    (same :
      program.statements.map Stmt.callView =
        other.statements.map Stmt.callView)
    (entryPoint : String) :
    program.liveNames entryPoint = other.liveNames entryPoint := by
  have table : program.callTable = other.callTable := by
    rw [callTable_eq_callViews, same, ← callTable_eq_callViews]
  have topLevel : program.topLevelCalls = other.topLevelCalls := by
    rw [topLevelCalls_eq_callViews, same, ← topLevelCalls_eq_callViews]
  have sources :
      program.functions.map FunctionDef.name =
        other.functions.map FunctionDef.name := by
    simpa [callTable, Function.comp_def] using
      congrArg (List.map Prod.fst) table
  have targets : program.callsOf = other.callsOf := by
    funext name
    rw [callsOf_eq_callTable, callsOf_eq_callTable, table]
  have links : program.callLinks = other.callLinks := by
    simp only [callLinks, sources, targets]
  rw [liveNames, liveNames, links, seeds, seeds, topLevel]

/--
With an entry point, exactly the functions whose names are in the least set
closed under calls stay, together with all that is no function; the names of
the others are returned, one for each definition.  Without one, all stays.
-/
theorem removeDeadFunctions_exact (program : Program) :
    (∀ entryPoint : String,
      ∃ live : String → Bool,
        IsLeast
          {names | program.ClosedUnderCalls entryPoint names}
          {name | live name = true} ∧
        program.removeDeadFunctions (some entryPoint) =
          { program :=
              { program with
                statements := program.statements.filter (survives live) }
            removed :=
              (program.functions.filter fun definition =>
                !live definition.name).map FunctionDef.name }) ∧
    program.removeDeadFunctions none = { program, removed := [] } := by
  refine ⟨?_, program.removeDeadFunctions_none⟩
  intro entryPoint
  refine ⟨fun name => name ∈ program.liveNames entryPoint, ?_, ?_⟩
  · simpa using program.isLeast_liveNames entryPoint
  · rw [removeDeadFunctions_some, keepFunctions_eq]
    rfl

end Program

end MiddleEnd
