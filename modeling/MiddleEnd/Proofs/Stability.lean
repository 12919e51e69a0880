import MiddleEnd.Optimizer
import MiddleEnd.Proofs.Folding.Meaning
import MiddleEnd.Proofs.LiveFunctions
import MiddleEnd.Proofs.StrengthReduction

/-!
# Repeated optimization

A program is stable for an entry point when folding leaves its expressions
alone and none of its functions is dead.  The first run that succeeds folds and
prunes and so makes the program stable before strength reduction gets to it,
and strength reduction keeps it so.  From then on a run that reduces only takes
exponents, and after five runs there is none left to take.
-/

namespace MiddleEnd

/-! ## Stable programs -/

/-- Folding leaves the expressions alone, and no function is dead. -/
structure Program.Stable
    (entryPoint : Option String)
    (program : Program) : Prop where
  settled :
    ∀ statement ∈ program.statements, ∀ expression ∈ statement.held,
      Folding.Settled expression
  defined : ∀ name ∈ entryPoint, program.defines name = true
  live :
    ∀ name ∈ entryPoint, ∀ definition ∈ program.functions,
      definition.name ∈ program.liveNames name

theorem Stmt.foldConstants_eq (statement : Stmt) :
    statement.foldConstants =
      (Transformed.traverse Expr.foldConstants statement.held).map
        statement.withHeld :=
  Stmt.transform_eq Folding.rule statement

theorem Stmt.mem_held_reduced
    {statement : Stmt}
    {expression : Expr}
    (member : expression ∈ statement.reduced.held) :
    ∃ old ∈ statement.held, expression = old.reduced ∨ expression = old := by
  cases statement with
  | function name parameters body =>
      have equal : expression = body.reduced := List.mem_singleton.1 member
      exact ⟨body, List.mem_singleton.2 rfl, Or.inl equal⟩
  | _ => exact ⟨expression, member, Or.inr rfl⟩

theorem Stmt.map_name_function?_withHeld
    (statement : Stmt)
    (expressions : List Expr) :
    (statement.withHeld expressions).function?.map FunctionDef.name =
      statement.function?.map FunctionDef.name := by
  unfold Stmt.withHeld
  split <;> rfl

namespace Program

theorem foldConstants_of_ok
    {program : Program}
    {folds : Nat}
    (succeeds : program.foldConstants.count = .ok folds) :
    program.foldConstants.result.statements =
        (program.statements.map fun statement =>
          statement.foldConstants.result) ∧
      ∀ statement ∈ program.statements,
        ∃ count, statement.foldConstants.count = .ok count :=
  Transformed.traverse_of_ok succeeds

theorem settled_foldConstants
    {program : Program}
    {folds : Nat}
    (succeeds : program.foldConstants.count = .ok folds) :
    ∀ statement ∈ program.foldConstants.result.statements,
      ∀ expression ∈ statement.held, Folding.Settled expression := by
  have ⟨statements, each⟩ := foldConstants_of_ok succeeds
  rw [statements]
  intro statement member expression held
  rcases List.mem_map.1 member with ⟨old, oldMember, rfl⟩
  rcases each old oldMember with ⟨count, oldSucceeds⟩
  rw [Stmt.foldConstants_eq] at oldSucceeds held
  have ⟨results, inside⟩ := Transformed.traverse_of_ok oldSucceeds
  have fits := Transformed.length_traverse Expr.foldConstants old.held
  have kept :
      expression ∈ old.held.map fun child => child.foldConstants.result := by
    rw [← results, ← Stmt.held_withHeld fits]
    exact held
  rcases List.mem_map.1 kept with ⟨child, childMember, rfl⟩
  rcases inside child childMember with ⟨childCount, childSucceeds⟩
  exact Folding.settled_of_foldConstants childSucceeds

theorem defines_eq (program : Program) (name : String) :
    program.defines name =
      (program.statements.filterMap fun statement =>
        statement.function?.map FunctionDef.name).any (· == name) := by
  rw [defines, functions, ← List.map_filterMap, List.any_map]
  rfl

/-- Folding keeps the names of the functions, also where it stops. -/
theorem defines_foldConstants (program : Program) (name : String) :
    program.foldConstants.result.defines name = program.defines name := by
  have names :
      (Transformed.traverse Stmt.foldConstants program.statements).result.map
          (fun statement => statement.function?.map FunctionDef.name) =
        program.statements.map
          (fun statement => statement.function?.map FunctionDef.name) := by
    apply Transformed.map_result_traverse
    intro statement _
    rw [Stmt.foldConstants_eq]
    exact statement.map_name_function?_withHeld _
  have listed := congrArg (List.filterMap id) names
  rw [List.filterMap_map, List.filterMap_map] at listed
  rw [defines_eq, defines_eq]
  exact congrArg (List.any · (· == name)) listed

/-- Where no function is dead, none is removed. -/
theorem removeDeadFunctions_eq_self
    {program : Program}
    {entryPoint : Option String}
    (live :
      ∀ name ∈ entryPoint, ∀ definition ∈ program.functions,
        definition.name ∈ program.liveNames name) :
    program.removeDeadFunctions entryPoint = { program, removed := [] } := by
  cases entryPoint with
  | none => exact program.removeDeadFunctions_none
  | some entry => exact keepFunctions_eq_self (live entry rfl)

/-- Once dead functions are removed, all that are left are live. -/
theorem live_removeDeadFunctions
    (program : Program)
    (entryPoint : Option String) :
    ∀ name ∈ entryPoint,
      ∀ definition ∈
          (program.removeDeadFunctions entryPoint).program.functions,
        definition.name ∈
          (program.removeDeadFunctions entryPoint).program.liveNames name := by
  rintro entry ⟨rfl⟩ definition member
  rw [removeDeadFunctions_some, keepFunctions_eq] at member ⊢
  rw [functions_restrict] at member
  have live := of_decide_eq_true (List.mem_filter.1 member).2
  exact program.mem_liveNames_restrict entry live

/-- Folded expressions and a defined entry point are stable when pruned. -/
theorem stable_removeDeadFunctions
    {program : Program}
    {entryPoint : Option String}
    (settled :
      ∀ statement ∈ program.statements, ∀ expression ∈ statement.held,
        Folding.Settled expression)
    (defined : ∀ name ∈ entryPoint, program.defines name = true) :
    (program.removeDeadFunctions entryPoint).program.Stable entryPoint := by
  refine ⟨?_, ?_, program.live_removeDeadFunctions entryPoint⟩
  · intro statement member
    exact settled statement (List.mem_filter.1 member).1
  · rintro entry ⟨rfl⟩
    have entryLive : entry ∈ program.liveNames entry :=
      (program.closedUnderCalls_liveNames entry).entry
    rcases List.any_eq_true.1 (defined entry rfl) with
      ⟨definition, member, named⟩
    rw [removeDeadFunctions_some, keepFunctions_eq, defines, functions_restrict,
      List.any_eq_true]
    refine ⟨definition, List.mem_filter.2 ⟨member, ?_⟩, named⟩
    rw [beq_iff_eq.1 named]
    exact decide_eq_true entryLive

namespace Stable

theorem foldConstants_eq
    {entryPoint : Option String}
    {program : Program}
    (stable : program.Stable entryPoint) :
    program.foldConstants = .unchanged program := by
  have statements :
      Transformed.traverse Stmt.foldConstants program.statements =
        .unchanged program.statements := by
    apply Transformed.traverse_eq_unchanged
    intro statement member
    have held :
        Transformed.traverse Expr.foldConstants statement.held =
          .unchanged statement.held :=
      Transformed.traverse_eq_unchanged fun expression inside =>
        (stable.settled statement member expression inside).foldConstants_eq
    rw [Stmt.foldConstants_eq, held, Transformed.map, Transformed.unchanged,
      Stmt.withHeld_held]
    rfl
  rw [Program.foldConstants, Program.transformWith, statements]
  rfl

theorem removeDeadFunctions_eq
    {entryPoint : Option String}
    {program : Program}
    (stable : program.Stable entryPoint) :
    program.removeDeadFunctions entryPoint = { program, removed := [] } :=
  removeDeadFunctions_eq_self stable.live

theorem reduced
    {entryPoint : Option String}
    {program : Program}
    (stable : program.Stable entryPoint) :
    program.reduced.Stable entryPoint := by
  refine ⟨?_, ?_, ?_⟩
  · rw [reduced_eq]
    intro statement member expression held
    rcases List.mem_map.1 member with ⟨old, oldMember, rfl⟩
    rcases Stmt.mem_held_reduced held with ⟨oldHeld, oldInside, rfl | rfl⟩
    · exact Expr.settled_reduced (stable.settled old oldMember oldHeld oldInside)
    · exact stable.settled old oldMember expression oldInside
  · intro name entry
    rw [defines_reduced]
    exact stable.defined name entry
  · intro name entry definition member
    rw [functions_reduced] at member
    rcases List.mem_map.1 member with ⟨old, oldMember, rfl⟩
    rw [liveNames_reduced]
    exact stable.live name entry old oldMember

end Stable

end Program

/-! ## Runs -/

namespace Options

/-- What a run makes of a program that it neither folds nor prunes. -/
def advance (options : Options) (program : Program) : Program :=
  if options.enables .strengthReduction then program.reduced else program

theorem missingEntryPoint?_eq_none_iff
    (options : Options)
    (program : Program) :
    options.missingEntryPoint? program = none ↔
      options.level = .none ∨
        ∀ name ∈ options.entryPoint, program.defines name = true := by
  rcases options with ⟨level, _ | name⟩ <;> cases level <;>
    simp [missingEntryPoint?, enables, PassKind.enabledAt,
      PassKind.minimumLevel, Level.includes, Level.number, Option.filter]

/-- Every pass but folding succeeds. -/
theorem count_runPass
    (options : Options)
    {kind : PassKind}
    (other : kind ≠ .constantFolding)
    (program : Program) :
    ∃ count, (options.runPass kind program).count = .ok count := by
  cases kind with
  | constantFolding => exact absurd rfl other
  | _ => exact ⟨_, rfl⟩

theorem runPasses_of_forall_ne
    (options : Options)
    {kinds : List PassKind}
    (others : ∀ kind ∈ kinds, kind ≠ .constantFolding)
    (program : Program) :
    ∃ total,
      options.runPasses kinds program =
        ⟨kinds.foldl
          (fun current kind => (options.runPass kind current).result)
          program, .ok total⟩ := by
  induction kinds generalizing program with
  | nil => exact ⟨0, rfl⟩
  | cons kind rest hypothesis =>
      have ⟨other, restOthers⟩ := List.forall_mem_cons.1 others
      rcases options.count_runPass other program with ⟨count, succeeds⟩
      rcases hypothesis restOthers (options.runPass kind program).result with
        ⟨total, run⟩
      refine ⟨count + total, ?_⟩
      rw [runPasses, Transformed.bind, succeeds, run]
      rfl

/-- Folding comes first, and what follows it prunes and reduces. -/
theorem exists_enabledPasses_eq
    (options : Options)
    (active : options.level ≠ .none) :
    ∃ kinds : List PassKind,
      options.enabledPasses = .constantFolding :: kinds ∧
      (∀ kind ∈ kinds, kind ≠ .constantFolding) ∧
      ∀ program,
        kinds.foldl
          (fun current kind => (options.runPass kind current).result)
          program =
        options.advance
          (program.removeDeadFunctions options.entryPoint).program := by
  have later : ∀ kind ∈ PassKind.all.tail, kind ≠ .constantFolding := by
    decide
  have others :
      ∀ kind ∈ PassKind.all.tail.filter options.enables,
        kind ≠ .constantFolding :=
    fun kind member => later kind (List.mem_filter.1 member).1
  refine ⟨PassKind.all.tail.filter options.enables, ?_, others, ?_⟩
  · rcases options with ⟨level, entryPoint⟩
    cases level with
    | none => exact absurd rfl active
    | _ => rfl
  · intro program
    rcases options with ⟨level, entryPoint⟩
    cases level with
    | none => exact absurd rfl active
    | _ => rfl

theorem runPasses_of_ok
    (options : Options)
    (active : options.level ≠ .none)
    {program : Program}
    {folds : Nat}
    (succeeds : program.foldConstants.count = .ok folds) :
    ∃ total,
      options.runPasses options.enabledPasses program =
        ⟨options.advance
          (program.foldConstants.result.removeDeadFunctions
            options.entryPoint).program, .ok total⟩ := by
  rcases options.exists_enabledPasses_eq active with
    ⟨kinds, passes, others, effect⟩
  rcases options.runPasses_of_forall_ne others program.foldConstants.result with
    ⟨total, run⟩
  refine ⟨folds + total, ?_⟩
  rw [passes, runPasses, runPass, Transformed.bind, succeeds, run, effect]
  rfl

theorem runPasses_of_error
    (options : Options)
    (active : options.level ≠ .none)
    {program : Program}
    {fault : ArithmeticFault}
    (fails : program.foldConstants.count = .error fault) :
    options.runPasses options.enabledPasses program =
      ⟨program.foldConstants.result, .error fault⟩ := by
  rcases options.exists_enabledPasses_eq active with ⟨kinds, passes, _⟩
  rw [passes, runPasses, runPass, Transformed.bind, fails]

/-- What a run reports when all of its passes succeed. -/
theorem optimize_eq_of_runPasses
    {options : Options}
    {program after : Program}
    {total : Nat}
    (found : options.missingEntryPoint? program = none)
    (run :
      options.runPasses options.enabledPasses program = ⟨after, .ok total⟩) :
    options.optimize program =
      ⟨after, .ok
        { passes := options.enabledPasses.map PassKind.name
          transformations := total
          sizeBefore := program.size
          sizeAfter := after.size }⟩ := by
  simp only [optimize, found, run]

theorem optimize_of_runPasses
    {options : Options}
    {program after : Program}
    {total : Nat}
    (found : options.missingEntryPoint? program = none)
    (run :
      options.runPasses options.enabledPasses program = ⟨after, .ok total⟩) :
    (∃ statistics, (options.optimize program).result = .ok statistics) ∧
      (options.optimize program).program = after := by
  rw [optimize_eq_of_runPasses found run]
  exact ⟨⟨_, rfl⟩, rfl⟩

/-- A run has nothing to fold and nothing to prune in the program. -/
def Ready (options : Options) (program : Program) : Prop :=
  options.level = .none ∨ program.Stable options.entryPoint

theorem enables_strengthReduction_iff (options : Options) :
    options.enables .strengthReduction = true ↔
      options.level = .standard ∨ options.level = .aggressive := by
  rcases options with ⟨level, entryPoint⟩
  cases level <;>
    simp [enables, PassKind.enabledAt, PassKind.minimumLevel, Level.includes,
      Level.number]

theorem level_ne_none_of_enables
    {options : Options}
    {kind : PassKind}
    (enabled : options.enables kind = true) :
    options.level ≠ .none := by
  intro inactive
  rw [enables, PassKind.enabledAt, inactive] at enabled
  cases kind <;> cases enabled

theorem advance_of_level_none
    {options : Options}
    (inactive : options.level = .none)
    (program : Program) :
    options.advance program = program := by
  rw [advance, if_neg]
  intro reduces
  exact level_ne_none_of_enables reduces inactive

theorem optimize_of_level_none
    {options : Options}
    (inactive : options.level = .none)
    (program : Program) :
    (∃ statistics, (options.optimize program).result = .ok statistics) ∧
      (options.optimize program).program = program := by
  have found : options.missingEntryPoint? program = none :=
    (options.missingEntryPoint?_eq_none_iff program).2 (Or.inl inactive)
  rcases options with ⟨level, entryPoint⟩
  cases inactive
  exact optimize_of_runPasses found rfl

theorem Ready.optimize
    {options : Options}
    {program : Program}
    (ready : options.Ready program) :
    (∃ statistics, (options.optimize program).result = .ok statistics) ∧
      (options.optimize program).program = options.advance program := by
  by_cases inactive : options.level = .none
  · rw [advance_of_level_none inactive]
    exact optimize_of_level_none inactive program
  · have stable := ready.resolve_left inactive
    have found : options.missingEntryPoint? program = none :=
      (options.missingEntryPoint?_eq_none_iff program).2 (Or.inr stable.defined)
    have succeeds : program.foldConstants.count = .ok 0 := by
      rw [stable.foldConstants_eq]
      rfl
    rcases options.runPasses_of_ok inactive succeeds with ⟨total, run⟩
    rw [stable.foldConstants_eq] at run
    rw [Transformed.unchanged, stable.removeDeadFunctions_eq] at run
    exact optimize_of_runPasses found run

theorem Ready.advance
    {options : Options}
    {program : Program}
    (ready : options.Ready program) :
    options.Ready (options.advance program) := by
  rcases ready with inactive | stable
  · exact Or.inl inactive
  · right
    rw [Options.advance]
    split
    · exact stable.reduced
    · exact stable

theorem Ready.stable
    {options : Options}
    {program : Program}
    (ready : options.Ready program)
    {kind : PassKind}
    (enabled : options.enables kind = true) :
    program.Stable options.entryPoint :=
  ready.resolve_left (level_ne_none_of_enables enabled)

theorem Ready.count_foldConstants
    {options : Options}
    {program : Program}
    (ready : options.Ready program)
    (enabled : options.enables .constantFolding = true) :
    program.foldConstants.count = .ok 0 := by
  rw [(ready.stable enabled).foldConstants_eq]
  rfl

theorem Ready.removed_eq_nil
    {options : Options}
    {program : Program}
    (ready : options.Ready program)
    (enabled : options.enables .deadCodeElimination = true) :
    (program.foldConstants.result.removeDeadFunctions
      options.entryPoint).removed = [] := by
  have stable := ready.stable enabled
  rw [stable.foldConstants_eq, Transformed.unchanged,
    stable.removeDeadFunctions_eq]

/-- A run that succeeds does nothing at the lowest level, or folds, prunes and advances. -/
theorem program_optimize_of_ok
    {options : Options}
    {program : Program}
    {statistics : Statistics}
    (succeeds : (options.optimize program).result = .ok statistics) :
    (options.level = .none ∧ (options.optimize program).program = program) ∨
      (options.level ≠ .none ∧
        (∀ name ∈ options.entryPoint, program.defines name = true) ∧
        ∃ folds,
          program.foldConstants.count = .ok folds ∧
          (options.optimize program).program =
            options.advance
              (program.foldConstants.result.removeDeadFunctions
                options.entryPoint).program) := by
  by_cases inactive : options.level = .none
  · exact Or.inl ⟨inactive, (optimize_of_level_none inactive program).2⟩
  · refine Or.inr ⟨inactive, ?_⟩
    cases missing : options.missingEntryPoint? program with
    | some name => simp [Options.optimize, missing] at succeeds
    | none =>
        have defined :=
          ((options.missingEntryPoint?_eq_none_iff program).1
            missing).resolve_left inactive
        cases folding : program.foldConstants.count with
        | error fault =>
            have fails := options.runPasses_of_error inactive folding
            simp [Options.optimize, missing, fails] at succeeds
        | ok folds =>
            rcases options.runPasses_of_ok inactive folding with ⟨total, run⟩
            exact ⟨defined, folds, rfl, (optimize_of_runPasses missing run).2⟩

/-- A first run that succeeds advances from a program that is ready. -/
theorem exists_ready_of_optimize
    {options : Options}
    {program : Program}
    {statistics : Statistics}
    (succeeds : (options.optimize program).result = .ok statistics) :
    ∃ ready,
      options.Ready ready ∧
        (options.optimize program).program = options.advance ready := by
  rcases program_optimize_of_ok succeeds with
    ⟨inactive, same⟩ | ⟨_, defined, folds, folding, after⟩
  · refine ⟨program, Or.inl inactive, ?_⟩
    rw [advance_of_level_none inactive]
    exact same
  · refine ⟨_, Or.inr ?_, after⟩
    apply Program.stable_removeDeadFunctions
    · exact Program.settled_foldConstants folding
    · intro name entry
      rw [Program.defines_foldConstants]
      exact defined name entry

/-- The program after a number of runs with the same options. -/
def rerun (options : Options) (program : Program) : Nat → Program
  | 0 => program
  | runs + 1 => (options.optimize (options.rerun program runs)).program

theorem Ready.rerun
    {options : Options}
    {program : Program}
    (ready : options.Ready program)
    (runs : Nat) :
    options.Ready (options.rerun program runs) := by
  induction runs with
  | zero => exact ready
  | succ runs hypothesis =>
      rw [Options.rerun, hypothesis.optimize.2]
      exact hypothesis.advance

/-- Runs after the first that succeeds are runs of a program that is ready. -/
theorem exists_ready_rerun
    {options : Options}
    {program : Program}
    {statistics : Statistics}
    (succeeds : (options.optimize program).result = .ok statistics) :
    ∃ ready,
      options.Ready ready ∧
        ∀ runs, 1 ≤ runs →
          options.rerun program runs = options.rerun ready runs := by
  rcases exists_ready_of_optimize succeeds with ⟨start, ready, first⟩
  refine ⟨start, ready, ?_⟩
  intro runs positive
  induction runs, positive using Nat.le_induction with
  | base =>
      show (options.optimize program).program = (options.optimize start).program
      rw [first, ready.optimize.2]
  | succ runs _ hypothesis =>
      rw [rerun, hypothesis]
      rfl

theorem Ready.rerun_succ
    {options : Options}
    {program : Program}
    (ready : options.Ready program)
    (runs : Nat) :
    options.rerun program (runs + 1) =
      options.advance (options.rerun program runs) :=
  (ready.rerun runs).optimize.2

theorem Ready.exhaustedAfter_rerun
    {options : Options}
    {program : Program}
    (ready : options.Ready program)
    (reduces : options.enables .strengthReduction = true)
    {rounds runs : Nat}
    (exhausted : program.ExhaustedAfter (rounds + runs)) :
    (options.rerun program runs).ExhaustedAfter rounds := by
  induction runs generalizing rounds with
  | zero => exact exhausted
  | succ runs hypothesis =>
      have before : (options.rerun program runs).ExhaustedAfter (rounds + 1) :=
        hypothesis (by rwa [Nat.add_right_comm])
      rw [ready.rerun_succ, Options.advance, if_pos reduces]
      exact before.reduced

theorem Ready.rerun_eq_of_advance_eq
    {options : Options}
    {program : Program}
    (ready : options.Ready program)
    {enough : Nat}
    (fixed :
      options.advance (options.rerun program enough) =
        options.rerun program enough)
    {runs : Nat}
    (late : enough ≤ runs) :
    options.rerun program runs = options.rerun program enough := by
  induction runs, late using Nat.le_induction with
  | base => rfl
  | succ runs _ hypothesis => rw [ready.rerun_succ, hypothesis, fixed]

theorem Ready.rerun_eq_rerun_five
    {options : Options}
    {program : Program}
    (ready : options.Ready program)
    {runs : Nat}
    (late : 5 ≤ runs) :
    options.rerun program runs = options.rerun program 5 := by
  apply ready.rerun_eq_of_advance_eq _ late
  rw [Options.advance]
  split
  · rename_i reduces
    have exhausted : (options.rerun program 5).ExhaustedAfter 0 :=
      ready.exhaustedAfter_rerun reduces program.exhaustedAfter_five
    exact exhausted.reduced_eq_self
  · rfl

theorem Ready.rerun_eq_rerun_one
    {options : Options}
    {program : Program}
    (ready : options.Ready program)
    (plain : options.level = .none ∨ options.level = .basic)
    {runs : Nat}
    (late : 1 ≤ runs) :
    options.rerun program runs = options.rerun program 1 := by
  apply ready.rerun_eq_of_advance_eq _ late
  rw [Options.advance, if_neg]
  rw [enables_strengthReduction_iff]
  rcases plain with none | basic
  · simp [none]
  · simp [basic]

/-! ## Five runs can be needed -/

/-- A program of one function, which multiplies a variable by a literal. -/
def productProgram (name : String) (word : Int64) : Program where
  statements :=
    [.function name []
      (.binary .multiply (.ident "x") (.literal (.int word)))]

theorem stable_productProgram
    (entryPoint : Option String)
    (word : Int64) :
    (productProgram (entryPoint.getD "main") word).Stable entryPoint := by
  refine ⟨?_, ?_, ?_⟩
  · intro statement member expression held
    rw [List.mem_singleton.1 member] at held
    rw [List.mem_singleton.1 held]
    intro node inside
    simp only [Expr.subexprs, List.cons_append, List.nil_append, List.mem_cons,
      List.not_mem_nil, or_false] at inside
    rcases inside with rfl | rfl | rfl <;> rfl
  · rintro name ⟨rfl⟩
    simp [Program.defines, Program.functions, productProgram, Stmt.function?]
  · rintro name ⟨rfl⟩ definition member
    have named : definition.name = name := by
      rw [List.mem_singleton.1 member]
      rfl
    rw [named]
    exact (Program.closedUnderCalls_liveNames _ name).entry

theorem reduced_productProgram
    {word : Int64}
    (power : isPowerOfTwo word = true)
    (name : String) :
    (productProgram name word).reduced =
      productProgram name (exponentOf word) := by
  have body :
      (Expr.binary .multiply (.ident "x") (.literal (.int word))).reduced =
        .binary .multiply (.ident "x") (.literal (.int (exponentOf word))) := by
    rw [Expr.reduced_product power, Expr.reduced_ident]
  rw [Program.reduced_eq]
  show Program.mk "" [.function name [] (Expr.reduced _)] = _
  rw [body]
  rfl

theorem productProgram_injective
    {name : String}
    {word other : Int64}
    (equal : productProgram name word = productProgram name other) :
    word = other := by
  simpa [productProgram] using equal

/-- The word 65536 is followed by 16, 4, 2, 1 and 0. -/
theorem isPowerOfTwo_iterate_exponentOf :
    ∀ runs < 5,
      isPowerOfTwo (exponentOf^[runs] 65536) = true ∧
        exponentOf^[runs + 1] 65536 ≠ exponentOf^[runs] 65536 := by
  decide +kernel

theorem rerun_productProgram
    {options : Options}
    (reduces : options.enables .strengthReduction = true)
    {runs : Nat}
    (early : runs ≤ 5) :
    options.rerun (productProgram (options.entryPoint.getD "main") 65536) runs =
      productProgram (options.entryPoint.getD "main")
        (exponentOf^[runs] 65536) := by
  have ready :
      options.Ready (productProgram (options.entryPoint.getD "main") 65536) :=
    Or.inr (stable_productProgram options.entryPoint 65536)
  induction runs with
  | zero => rfl
  | succ runs hypothesis =>
      have power := (isPowerOfTwo_iterate_exponentOf runs early).1
      rw [ready.rerun_succ, hypothesis (Nat.le_of_succ_le early),
        Options.advance, if_pos reduces, reduced_productProgram power,
        Function.iterate_succ_apply']

theorem exists_changed_by_five_runs
    {options : Options}
    (reduces : options.enables .strengthReduction = true) :
    ∃ program, ∀ runs < 5,
      (∃ statistics,
        (options.optimize (options.rerun program runs)).result =
          .ok statistics) ∧
      options.rerun program (runs + 1) ≠ options.rerun program runs := by
  refine ⟨productProgram (options.entryPoint.getD "main") 65536, ?_⟩
  intro runs early
  have changed := (isPowerOfTwo_iterate_exponentOf runs early).2
  rw [rerun_productProgram reduces (Nat.succ_le_of_lt early),
    rerun_productProgram reduces (Nat.le_of_lt early)]
  constructor
  · exact (Ready.optimize (Or.inr (stable_productProgram _ _))).1
  · intro equal
    exact changed (productProgram_injective equal)

/--
After a run that succeeds, all later ones with the same options succeed, fold
nothing and remove nothing, and from the fifth on they leave the program as it
is; at the levels that do not reduce, from the first on.  At those that do, some
program is changed by each of its first five runs.
-/
theorem rerun_stabilises (options : Options) :
    (∀ program,
      (∃ statistics, (options.optimize program).result = .ok statistics) →
      (∀ runs, 1 ≤ runs →
        (∃ statistics,
          (options.optimize (options.rerun program runs)).result =
            .ok statistics) ∧
        (options.enables .constantFolding = true →
          (options.rerun program runs).foldConstants.count = .ok 0) ∧
        (options.enables .deadCodeElimination = true →
          ((options.rerun program runs).foldConstants.result.removeDeadFunctions
            options.entryPoint).removed = [])) ∧
      (∀ runs, 5 ≤ runs →
        options.rerun program runs = options.rerun program 5) ∧
      (options.level = .none ∨ options.level = .basic →
        ∀ runs, 1 ≤ runs →
          options.rerun program runs = options.rerun program 1)) ∧
    (options.level = .standard ∨ options.level = .aggressive →
      ∃ program, ∀ runs < 5,
        (∃ statistics,
          (options.optimize (options.rerun program runs)).result =
            .ok statistics) ∧
        options.rerun program (runs + 1) ≠ options.rerun program runs) := by
  constructor
  · rintro program ⟨statistics, succeeds⟩
    rcases exists_ready_rerun succeeds with ⟨start, ready, same⟩
    refine ⟨?_, ?_, ?_⟩
    · intro runs positive
      have later := ready.rerun runs
      rw [same runs positive]
      exact ⟨later.optimize.1, later.count_foldConstants, later.removed_eq_nil⟩
    · intro runs late
      rw [same runs (by omega), same 5 (by omega)]
      exact ready.rerun_eq_rerun_five late
    · intro plain runs positive
      rw [same runs positive, same 1 (Nat.le_refl 1)]
      exact ready.rerun_eq_rerun_one plain positive
  · intro reducing
    exact exists_changed_by_five_runs
      (options.enables_strengthReduction_iff.2 reducing)

/-- A program with a constant to fold, a product to reduce and a dead function. -/
def busyProgram : Program where
  statements :=
    [.bind "total"
      (.binary .add (.literal (.int 2)) (.literal (.int 3))),
    .function "main" []
      (.binary .multiply (.ident "x") (.literal (.int 65536))),
    .function "unused" [] (.call (.ident "unused") [])]

theorem rerun_stabilises_busyProgram :
    let options : Options := { level := .aggressive, entryPoint := some "main" }
    (∃ statistics, (options.optimize busyProgram).result = .ok statistics) ∧
    (options.rerun busyProgram 1).foldConstants.count = .ok 0 ∧
    ((options.rerun busyProgram 1).foldConstants.result.removeDeadFunctions
      (some "main")).removed = [] ∧
    options.rerun busyProgram 6 = options.rerun busyProgram 5 := by
  intro options
  have succeeds :
      ∃ statistics, (options.optimize busyProgram).result = .ok statistics :=
    ⟨_, rfl⟩
  have ⟨later, fixed, _⟩ := (rerun_stabilises options).1 busyProgram succeeds
  have ⟨_, folds, removes⟩ := later 1 (Nat.le_refl 1)
  exact ⟨succeeds, folds rfl, removes rfl, fixed 6 (by decide)⟩

end Options

end MiddleEnd
