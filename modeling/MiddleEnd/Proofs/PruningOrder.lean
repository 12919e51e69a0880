import MiddleEnd.Proofs.Analyses

/-!
# Dead functions removed early or late

Which functions are dead depends on what the statements define and call, and on
nothing else.  Folding and strength reduction work on one statement at a time
and keep what it defines and calls, so the same functions are dead before and
after, and it does not matter whether they are removed first or last.

Folding may stop, and then it does matter: a program whose only division by
zero is in a dead function can be folded once that function is removed, but not
before.  What can be folded as a whole can be folded when it is pruned.
-/

namespace MiddleEnd

/-! ## What a change of statements has to keep -/

namespace Stmt

theorem callView_outline (statement : Stmt) :
    statement.outline.callView = statement.callView := by
  have name :
      statement.outline.function?.map FunctionDef.name =
        statement.function?.map FunctionDef.name :=
    statement.map_name_function?_withHeld _
  have calls : statement.outline.calledNames = statement.calledNames := by
    have held : statement.outline.held = statement.held.map Expr.outline :=
      held_withHeld (List.length_map _)
    rw [calledNames, calledNames, held, List.flatMap_map]
    exact List.flatMap_congr fun expression _ =>
      expression.calledNames_outline
  rw [callView, callView, name, calls]

theorem callView_foldConstants (statement : Stmt) :
    statement.foldConstants.result.callView = statement.callView := by
  rw [← callView_outline, outline_foldConstants, callView_outline]

end Stmt

namespace Program

/-- The program with every statement changed. -/
def mapStatements (program : Program) (change : Stmt → Stmt) : Program :=
  { program with statements := program.statements.map change }

section

variable
  {change : Stmt → Stmt}
  (same : ∀ statement, (change statement).callView = statement.callView)

include same

theorem survives_change (live : String → Bool) (statement : Stmt) :
    survives live (change statement) = survives live statement := by
  have name := congrArg Prod.fst (same statement)
  calc
    survives live (change statement) = (change statement).callView.1.all live :=
      (Option.all_map ..).symm
    _ = statement.callView.1.all live := by rw [name]
    _ = survives live statement := Option.all_map ..

theorem restrict_mapStatements (program : Program) (live : String → Bool) :
    (program.mapStatements change).restrict live =
      (program.restrict live).mapStatements change := by
  have survivors : survives live ∘ change = survives live := by
    funext statement
    exact survives_change same live statement
  rw [restrict, mapStatements, List.filter_map, survivors]
  rfl

theorem functionNames_mapStatements (program : Program) :
    (program.mapStatements change).functions.map FunctionDef.name =
      program.functions.map FunctionDef.name := by
  rw [functions, functions, mapStatements, List.map_filterMap,
    List.map_filterMap, List.filterMap_map]
  congr 1
  funext statement
  exact congrArg Prod.fst (same statement)

theorem liveNames_mapStatements (program : Program) (entryPoint : String) :
    (program.mapStatements change).liveNames entryPoint =
      program.liveNames entryPoint := by
  apply liveNames_congr
  rw [mapStatements, List.map_map]
  exact List.map_congr_left fun statement _ => same statement

/-- The same functions are removed before and after the change. -/
theorem removeDeadFunctions_mapStatements
    (program : Program)
    (entryPoint : Option String) :
    (program.mapStatements change).removeDeadFunctions entryPoint =
      { program :=
          (program.removeDeadFunctions entryPoint).program.mapStatements change
        removed := (program.removeDeadFunctions entryPoint).removed } := by
  cases entryPoint with
  | none => rw [removeDeadFunctions_none, removeDeadFunctions_none]
  | some entry =>
      have names := functionNames_mapStatements same program
      have removed :
          ∀ other : Program,
            (other.functions.filter fun definition =>
                !decide (definition.name ∈ program.liveNames entry)).map
                FunctionDef.name =
              (other.functions.map FunctionDef.name).filter fun name =>
                !decide (name ∈ program.liveNames entry) := by
        intro other
        rw [List.filter_map]
        rfl
      rw [removeDeadFunctions_some, removeDeadFunctions_some,
        liveNames_mapStatements same, keepFunctions_eq, keepFunctions_eq,
        restrict_mapStatements same, removed, removed, names]

end

/-! ## The passes -/

/-- Folding that succeeds folds every statement. -/
theorem result_foldConstants_eq_mapStatements
    {program : Program}
    {folds : Nat}
    (succeeds : program.foldConstants.count = .ok folds) :
    program.foldConstants.result =
      program.mapStatements fun statement => statement.foldConstants.result :=
  congrArg (Program.mk program.module) (foldConstants_of_ok succeeds).1

/-- What can be folded as a whole can be folded when it is pruned. -/
theorem exists_foldConstants_removeDeadFunctions
    {program : Program}
    {folds : Nat}
    (succeeds : program.foldConstants.count = .ok folds)
    (entryPoint : Option String) :
    ∃ fewer,
      (program.removeDeadFunctions entryPoint).program.foldConstants.count =
        .ok fewer := by
  rcases program.exists_removeDeadFunctions_eq entryPoint with
    ⟨live, pruned, _⟩
  rw [pruned]
  apply Transformed.exists_traverse_ok
  intro statement member
  exact (foldConstants_of_ok succeeds).2 statement (List.mem_filter.1 member).1

/--
Removing dead functions a second time removes nothing.  Strength reduction may
take place before or after it, and so may folding that succeeds: the program
that is left and the names that are removed are the same.
-/
theorem removeDeadFunctions_commutes
    (program : Program)
    (entryPoint : Option String) :
    let pruned := program.removeDeadFunctions entryPoint
    pruned.program.removeDeadFunctions entryPoint =
      { program := pruned.program, removed := [] } ∧
    program.reduceStrength.result.removeDeadFunctions entryPoint =
      { program := pruned.program.reduceStrength.result
        removed := pruned.removed } ∧
    ∀ folds,
      program.foldConstants.count = .ok folds →
        (∃ fewer, pruned.program.foldConstants.count = .ok fewer) ∧
        program.foldConstants.result.removeDeadFunctions entryPoint =
          { program := pruned.program.foldConstants.result
            removed := pruned.removed } := by
  intro pruned
  refine ⟨?_, ?_, ?_⟩
  · exact removeDeadFunctions_eq_self
      (program.live_removeDeadFunctions entryPoint)
  · show program.reduced.removeDeadFunctions entryPoint =
      { program := pruned.program.reduced, removed := pruned.removed }
    rw [reduced_eq, reduced_eq]
    exact removeDeadFunctions_mapStatements Stmt.callView_reduced program
      entryPoint
  · intro folds succeeds
    rcases exists_foldConstants_removeDeadFunctions succeeds entryPoint with
      ⟨fewer, prunedSucceeds⟩
    refine ⟨⟨fewer, prunedSucceeds⟩, ?_⟩
    rw [result_foldConstants_eq_mapStatements succeeds,
      result_foldConstants_eq_mapStatements prunedSucceeds]
    exact removeDeadFunctions_mapStatements Stmt.callView_foldConstants program
      entryPoint

/--
The hidden definition of `f` survives and is folded, although what it calls is
removed along with a function that calls itself.
-/
theorem removeDeadFunctions_commutes_redefined :
    let sum := Expr.binary .add (.literal (.int 2)) (.literal (.int 3))
    let program : Program :=
      ⟨"m", [.function "main" [] (.call (.ident "f") [sum]),
        .function "f" [] (.call (.ident "g") [sum]),
        .function "g" [] sum,
        .function "loop" [] (.call (.ident "loop") []),
        .function "f" ["x"] (.binary .multiply (.ident "x") sum)]⟩
    let pruned := program.removeDeadFunctions (some "main")
    program.foldConstants.count = .ok 4 ∧
    pruned.removed = ["g", "loop"] ∧
    (∃ fewer, pruned.program.foldConstants.count = .ok fewer) ∧
    program.foldConstants.result.removeDeadFunctions (some "main") =
      { program := pruned.program.foldConstants.result
        removed := pruned.removed } := by
  intro sum program pruned
  have succeeds : program.foldConstants.count = .ok 4 := rfl
  have removed : pruned.removed = ["g", "loop"] := by cbv
  have commutes :=
    (removeDeadFunctions_commutes program (some "main")).2.2 4 succeeds
  exact ⟨succeeds, removed, commutes⟩

-- Folding has to succeed before the removal, not only after it.
example :
    let program : Program :=
      ⟨"m", [.function "main" [] (.literal (.int 1)),
        .function "dead" []
          (.binary .divide (.literal (.int 1)) (.literal (.int 0)))]⟩
    let pruned := program.removeDeadFunctions (some "main")
    program.foldConstants.count = .error .divisionByZero ∧
    pruned.program.foldConstants.count = .ok 0 := by
  refine ⟨rfl, ?_⟩
  cbv

end Program

end MiddleEnd
