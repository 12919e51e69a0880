import MiddleEnd.Proofs.LiveFunctions

/-!
# Calls that survive the removal of dead functions

What is live is followed through the last definition of each name, but a live
name keeps all of its definitions.  A statement that survives and is not hidden
by a later definition of its name calls live names only, so the functions that
it calls survive with it.  A hidden definition survives without its calls being
followed, and it may be left calling a function that is gone.
-/

namespace MiddleEnd

theorem Stmt.held_of_function?
    {statement : Stmt}
    {definition : FunctionDef}
    (found : statement.function? = some definition) :
    statement.held = [definition.body] := by
  cases statement with
  | function name parameters body =>
      cases found
      rfl
  | _ => cases found

namespace Program

/-- A function whose name leads to another definition. -/
def IsHidden (program : Program) (statement : Stmt) : Prop :=
  ∃ definition,
    statement.function? = some definition ∧
      ¬ program.IsLastDefinition definition.name definition

/-- What the statement calls of the functions of a program is still in another. -/
def CallsStay (program pruned : Program) (statement : Stmt) : Prop :=
  ∀ expression ∈ statement.held, ∀ called ∈ expression.calledNames,
    program.defines called = true → pruned.defines called = true

theorem defines_iff (program : Program) (name : String) :
    program.defines name = true ↔
      ∃ definition ∈ program.functions, definition.name = name := by
  simp [defines]

/-- A live name that has a definition keeps it. -/
theorem defines_restrict
    {program : Program}
    {live : String → Bool}
    {name : String}
    (keeps : live name = true)
    (defined : program.defines name = true) :
    (program.restrict live).defines name = true := by
  rw [defines_iff] at defined ⊢
  rcases defined with ⟨definition, member, rfl⟩
  refine ⟨definition, ?_, rfl⟩
  rw [functions_restrict, List.mem_filter]
  exact ⟨member, keeps⟩

theorem program_removeDeadFunctions (program : Program) (entryPoint : String) :
    (program.removeDeadFunctions (some entryPoint)).program =
      program.restrict fun name => name ∈ program.liveNames entryPoint := by
  rw [removeDeadFunctions_some, keepFunctions_eq]

/-- A statement that survives calls live names only, unless it is hidden. -/
theorem mem_liveNames_of_survives
    {program : Program}
    {entryPoint : String}
    {statement : Stmt}
    (survivor :
      statement ∈
        (program.restrict fun name =>
          name ∈ program.liveNames entryPoint).statements)
    (visible : ¬ program.IsHidden statement)
    {expression : Expr}
    (held : expression ∈ statement.held)
    {called : String}
    (call : called ∈ expression.calledNames) :
    called ∈ program.liveNames entryPoint := by
  have closed := program.closedUnderCalls_liveNames entryPoint
  rcases List.mem_filter.1 survivor with ⟨member, survives⟩
  cases found : statement.function? with
  | none =>
      have outside : statement.isFunction = false := by
        rw [Stmt.isFunction, found]
        rfl
      exact closed.topLevel statement member outside expression held called call
  | some definition =>
      have live : definition.name ∈ program.liveNames entryPoint := by
        simpa [Program.survives, found] using survives
      have last : program.IsLastDefinition definition.name definition := by
        by_contra hidden
        exact visible ⟨definition, found, hidden⟩
      rw [Stmt.held_of_function? found, List.mem_singleton] at held
      rw [held] at call
      exact closed.calls definition.name live definition last called call

/-- Where no name is defined twice, each definition is the last of its name. -/
theorem isLastDefinition_of_nodup
    {program : Program}
    (distinct : (program.functions.map FunctionDef.name).Nodup)
    {definition : FunctionDef}
    (member : definition ∈ program.functions) :
    program.IsLastDefinition definition.name definition := by
  rcases List.append_of_mem member with ⟨before, after, split⟩
  refine ⟨before, after, split, rfl, ?_⟩
  intro later laterMember same
  rw [split, List.map_append, List.map_cons] at distinct
  have apart := (List.nodup_cons.1 (List.nodup_append.1 distinct).2.1).1
  exact apart (same ▸ List.mem_map_of_mem laterMember)

/--
A statement that survives the removal of dead functions still finds every
function that it calls, unless a later definition of its own name hides it; so
all of them do where no name is defined twice.
-/
theorem removeDeadFunctions_keeps_callees
    (program : Program)
    (entryPoint : String) :
    let pruned := (program.removeDeadFunctions (some entryPoint)).program
    (∀ statement ∈ pruned.statements,
      ¬ program.IsHidden statement → program.CallsStay pruned statement) ∧
    ((program.functions.map FunctionDef.name).Nodup →
      ∀ statement ∈ pruned.statements, program.CallsStay pruned statement) := by
  intro pruned
  have visibleKept :
      ∀ statement ∈ pruned.statements,
        ¬ program.IsHidden statement → program.CallsStay pruned statement := by
    intro statement survivor visible expression held called call defined
    rw [show pruned = _ from program.program_removeDeadFunctions entryPoint]
      at survivor ⊢
    have live := mem_liveNames_of_survives survivor visible held call
    exact defines_restrict (decide_eq_true live) defined
  refine ⟨visibleKept, ?_⟩
  intro distinct statement survivor
  apply visibleKept statement survivor
  rintro ⟨definition, found, hidden⟩
  rw [show pruned = _ from program.program_removeDeadFunctions entryPoint]
    at survivor
  have member : definition ∈ program.functions :=
    List.mem_filterMap.2 ⟨statement, (List.mem_filter.1 survivor).1, found⟩
  exact hidden (isLastDefinition_of_nodup distinct member)

/-- Two functions that call each other, entered at one of them, and a dead one. -/
def mutualCallers : Program where
  statements :=
    [.function "even" ["n"]
      (.branch (.ident "n") (.call (.ident "odd") [.ident "n"]) none),
    .function "unused" [] (.call (.ident "even") []),
    .function "odd" ["n"]
      (.block [.function "inner" [] (.call (.ident "even") [.ident "n"])])]

theorem removeDeadFunctions_keeps_callees_mutualCallers :
    let pruned := (mutualCallers.removeDeadFunctions (some "even")).program
    (mutualCallers.functions.map FunctionDef.name).Nodup ∧
    pruned.defines "unused" = false ∧
    ∀ statement ∈ pruned.statements,
      mutualCallers.CallsStay pruned statement := by
  intro pruned
  have distinct : (mutualCallers.functions.map FunctionDef.name).Nodup := by
    decide
  have left :
      (mutualCallers.removeDeadFunctions (some "even")).program =
        ⟨"", mutualCallers.statements.eraseIdx 1⟩ := by
    cbv
  have dropped : pruned.defines "unused" = false := by
    rw [show pruned = _ from left]
    decide
  exact ⟨distinct, dropped,
    (removeDeadFunctions_keeps_callees mutualCallers "even").2 distinct⟩

/-- A function defined twice, of which the hidden definition calls another one. -/
def hiddenCaller : Program where
  statements :=
    [.function "f" [] (.call (.ident "g") []),
    .function "g" [] (.literal (.int 1)),
    .function "f" [] (.literal (.int 2))]

/-- The hidden definition survives with its name, and what it calls does not. -/
theorem removeDeadFunctions_leaves_dangling_call :
    let pruned := (hiddenCaller.removeDeadFunctions (some "f")).program
    ∃ statement ∈ pruned.statements,
      ¬ hiddenCaller.CallsStay pruned statement := by
  intro pruned
  have left :
      (hiddenCaller.removeDeadFunctions (some "f")).program =
        ⟨"", [.function "f" [] (.call (.ident "g") []),
          .function "f" [] (.literal (.int 2))]⟩ := by
    cbv
  rw [show pruned = _ from left]
  refine ⟨_, List.mem_cons_self, ?_⟩
  intro stay
  have found :=
    stay (.call (.ident "g") []) List.mem_cons_self "g" List.mem_cons_self
      (by decide)
  revert found
  decide

end Program

end MiddleEnd
