import MiddleEnd.Proofs.FailedRuns

/-!
# What a higher level adds

The passes of a level are the first ones in the order of all passes, so a run at
a higher level is the run at a lower level followed by the passes that the higher
one adds.  Only folding can fail, and every level that does anything folds first:
such levels fail together and leave the same program.

Of what is added at the standard level, strength reduction alone changes the
program, and what is added at the aggressive level only counts.
-/

namespace MiddleEnd

/-! ## Runs in sequence -/

namespace Transformed

variable {ε α : Type}

theorem unchanged_bind (entry : α) (next : α → Transformed ε α) :
    (unchanged entry).bind next = next entry := by
  rcases second : next entry with ⟨result, _ | count⟩
  · simp [bind, unchanged, second, Except.map]
  · simp [bind, unchanged, second, Except.map]

theorem bind_assoc
    (first : Transformed ε α)
    (next last : α → Transformed ε α) :
    (first.bind next).bind last =
      first.bind fun entry => (next entry).bind last := by
  rcases first with ⟨result, fault | before⟩
  · rfl
  · rcases second : next result with ⟨middle, fault | between⟩
    · simp [bind, second, Except.map]
    · rcases third : last middle with ⟨result, fault | after⟩
      · simp [bind, second, third, Except.map]
      · simp [bind, second, third, Except.map, Nat.add_assoc]

end Transformed

namespace Options

theorem runPasses_append
    (options : Options)
    (early late : List PassKind)
    (program : Program) :
    options.runPasses (early ++ late) program =
      (options.runPasses early program).bind (options.runPasses late) := by
  induction early generalizing program with
  | nil => exact (Transformed.unchanged_bind program _).symm
  | cons kind rest hypothesis =>
      rw [List.cons_append, runPasses, runPasses, Transformed.bind_assoc]
      congr 1
      funext current
      exact hypothesis current

/-- A pass does the same at every level that enables it. -/
theorem runPasses_level
    (level other : Level)
    (entryPoint : Option String)
    (kinds : List PassKind) :
    runPasses { level, entryPoint } kinds =
      runPasses { level := other, entryPoint } kinds := by
  induction kinds with
  | nil => rfl
  | cons kind rest hypothesis =>
      funext program
      rw [runPasses, runPasses, hypothesis]
      cases kind <;> rfl

/-! ## The passes of a level -/

end Options

/-- The passes run in the order of the levels that enable them. -/
theorem PassKind.pairwise_all :
    PassKind.all.Pairwise fun earlier later =>
      later.minimumLevel.includes earlier.minimumLevel = true := by
  decide

/-- Of passes in the order of their levels, a level enables the first ones. -/
theorem PassKind.prefix_filter_enabledAt
    {lower higher : Level}
    (included : higher.includes lower = true)
    {kinds : List PassKind}
    (ordered :
      kinds.Pairwise fun earlier later =>
        later.minimumLevel.includes earlier.minimumLevel = true) :
    kinds.filter (·.enabledAt lower) <+: kinds.filter (·.enabledAt higher) := by
  induction kinds with
  | nil => exact List.prefix_rfl
  | cons kind rest hypothesis =>
      rcases List.pairwise_cons.1 ordered with ⟨first, restOrdered⟩
      by_cases enabled : kind.enabledAt lower = true
      · have above : kind.enabledAt higher = true := by
          simp only [enabledAt, Level.includes, decide_eq_true_eq]
            at enabled included ⊢
          omega
        simp only [List.filter_cons, enabled, above, if_true]
        exact (List.prefix_cons_inj kind).2 (hypothesis restOrdered)
      · -- A pass that is not enabled is followed by none that is.
        have nothing : (kind :: rest).filter (·.enabledAt lower) = [] := by
          rw [List.filter_eq_nil_iff]
          refine List.forall_mem_cons.2 ⟨enabled, ?_⟩
          intro later member
          have after := first later member
          simp only [enabledAt, Level.includes, decide_eq_true_eq]
            at enabled after ⊢
          omega
        rw [nothing]
        exact List.nil_prefix

namespace Options

theorem prefix_enabledPasses
    {lower higher : Level}
    (entryPoint : Option String)
    (included : higher.includes lower = true) :
    enabledPasses { level := lower, entryPoint } <+:
      enabledPasses { level := higher, entryPoint } :=
  PassKind.prefix_filter_enabledAt included PassKind.pairwise_all

theorem passes_of_ok
    {options : Options}
    {program : Program}
    {statistics : Statistics}
    (succeeds : (options.optimize program).result = .ok statistics) :
    statistics.passes = options.enabledPasses.map PassKind.name := by
  unfold optimize at succeeds
  split at succeeds
  · cases succeeds
  · dsimp only at succeeds
    split at succeeds
    · cases succeeds
    · cases succeeds
      rfl

/-! ## What the passes of each level do -/

/-- The passes that the standard level adds to the basic one. -/
def standardPasses : List PassKind :=
  [.functionInlining, .loopOptimization, .strengthReduction,
    .commonSubexpressionElimination]

/-- The passes that the aggressive level adds to the standard one. -/
def aggressivePasses : List PassKind :=
  [.tailCallOptimization, .vectorization]

/-- The standard passes reduce, and count what they see before and after. -/
theorem runPasses_standardPasses (options : Options) (program : Program) :
    options.runPasses standardPasses program =
      ⟨program.reduceStrength.result, .ok
        (program.inlinableFunctions + (program.topLoops +
          (program.reduceStrength.total +
            (program.reduceStrength.result.functionCount + 0))))⟩ :=
  rfl

/-- The aggressive passes leave the program alone and count its functions twice. -/
theorem runPasses_aggressivePasses (options : Options) (program : Program) :
    options.runPasses aggressivePasses program =
      ⟨program, .ok (program.functionCount + (program.functionCount + 0))⟩ :=
  rfl

section

variable
  (entryPoint : Option String)
  {program : Program}
  {folds : Nat}
  (succeeds : program.foldConstants.count = .ok folds)

include succeeds

theorem runPasses_basic :
    let options : Options := { level := .basic, entryPoint }
    options.runPasses options.enabledPasses program =
      ⟨(program.foldConstants.result.removeDeadFunctions entryPoint).program,
        .ok (folds + 1)⟩ := by
  intro options
  show options.runPasses [.constantFolding, .deadCodeElimination] program = _
  rw [runPasses, runPass, Transformed.bind, succeeds]
  rfl

theorem runPasses_standard :
    let options : Options := { level := .standard, entryPoint }
    let pruned :=
      (program.foldConstants.result.removeDeadFunctions entryPoint).program
    let reduction := pruned.reduceStrength
    options.runPasses options.enabledPasses program =
      ⟨reduction.result, .ok
        (folds + 1 + pruned.inlinableFunctions + pruned.topLoops +
          reduction.total + reduction.result.functionCount)⟩ := by
  intro options pruned reduction
  have below := runPasses_basic entryPoint succeeds
  show options.runPasses
    (enabledPasses { level := .basic, entryPoint } ++ standardPasses) program = _
  rw [runPasses_append, runPasses_level .standard .basic, below]
  simp only [Transformed.bind, runPasses_standardPasses, Except.map,
    Nat.add_zero, Nat.add_assoc]
  rfl

theorem runPasses_aggressive :
    let options : Options := { level := .aggressive, entryPoint }
    let pruned :=
      (program.foldConstants.result.removeDeadFunctions entryPoint).program
    let reduction := pruned.reduceStrength
    options.runPasses options.enabledPasses program =
      ⟨reduction.result, .ok
        (folds + 1 + pruned.inlinableFunctions + pruned.topLoops +
          reduction.total + reduction.result.functionCount +
          2 * reduction.result.functionCount)⟩ := by
  intro options pruned reduction
  have below := runPasses_standard entryPoint succeeds
  show options.runPasses
    (enabledPasses { level := .standard, entryPoint } ++ aggressivePasses)
    program = _
  rw [runPasses_append, runPasses_level .aggressive .standard, below]
  simp only [Transformed.bind, runPasses_aggressivePasses, Except.map,
    Nat.add_zero, Nat.two_mul]
  rfl

end

/-! ## The levels compared -/

/-- A level that does anything asks for the entry point before it runs. -/
theorem optimize_of_undefined
    {options : Options}
    {program : Program}
    {name : String}
    (active : options.level ≠ .none)
    (entry : options.entryPoint = some name)
    (undefined : program.defines name = false) :
    options.optimize program = ⟨program, .error (.unknownEntryPoint name)⟩ := by
  have missing : options.missingEntryPoint? program = some name := by
    have enabled : options.enables .deadCodeElimination = true := by
      rcases options with ⟨level, entryPoint⟩
      cases level with
      | none => exact absurd rfl active
      | _ => rfl
    rw [missingEntryPoint?, entry]
    simp [Option.filter, enabled, undefined]
  simp only [optimize, missing]

/--
The levels of one program and one entry point.  An entry point without a
function stops every level but the lowest before it has done anything, and a
fault of folding stops them with what folding has left.  Otherwise the basic
level folds and prunes, the standard level reduces what is left, and the
aggressive level only counts; the passes of a level come first among those of a
higher one.  The lowest level does nothing, whatever the entry point.
-/
theorem optimize_by_level (program : Program) (entryPoint : Option String) :
    let run (level : Level) := optimize { level, entryPoint } program
    let folding := program.foldConstants
    let pruned := (folding.result.removeDeadFunctions entryPoint).program
    let reduction := pruned.reduceStrength
    (∀ name,
      entryPoint = some name → program.defines name = false →
        ∀ level, level ≠ .none →
          run level = ⟨program, .error (.unknownEntryPoint name)⟩) ∧
    ((∀ name, entryPoint = some name → program.defines name = true) →
      (∃ fault,
        folding.count = .error fault ∧
        ∀ level, level ≠ .none →
          run level = ⟨folding.result, .error (.arithmetic fault)⟩) ∨
      ∃ folds basic standard aggressive,
        folding.count = .ok folds ∧
        run .basic = ⟨pruned, .ok basic⟩ ∧
        run .standard = ⟨reduction.result, .ok standard⟩ ∧
        run .aggressive = ⟨reduction.result, .ok aggressive⟩ ∧
        basic.transformations = folds + 1 ∧
        standard.transformations =
          folds + 1 + pruned.inlinableFunctions + pruned.topLoops +
            reduction.total + reduction.result.functionCount ∧
        aggressive.transformations =
          standard.transformations + 2 * reduction.result.functionCount) ∧
    (∀ lower higher less more,
      higher.includes lower = true →
      (run lower).result = .ok less → (run higher).result = .ok more →
        less.passes <+: more.passes) ∧
    ∃ statistics,
      statistics.transformations = 0 ∧
      ∀ other,
        optimize { level := .none, entryPoint := other } program =
          ⟨program, .ok statistics⟩ := by
  intro run folding pruned reduction
  refine ⟨?_, ?_, ?_, ?_⟩
  · intro name entry undefined level active
    exact optimize_of_undefined active entry undefined
  · intro defined
    cases outcome : folding.count with
    | error fault =>
        refine Or.inl ⟨fault, rfl, ?_⟩
        intro level active
        exact optimize_of_error active defined outcome
    | ok folds =>
        have found :
            ∀ level,
              missingEntryPoint? { level, entryPoint } program = none :=
          fun level =>
            (missingEntryPoint?_eq_none_iff _ program).2 (Or.inr defined)
        exact Or.inr ⟨folds, _, _, _, rfl,
          optimize_eq_of_runPasses (found _) (runPasses_basic entryPoint outcome),
          optimize_eq_of_runPasses (found _)
            (runPasses_standard entryPoint outcome),
          optimize_eq_of_runPasses (found _)
            (runPasses_aggressive entryPoint outcome),
          rfl, rfl, rfl⟩
  · intro lower higher less more included lowerSucceeds higherSucceeds
    rw [passes_of_ok lowerSucceeds, passes_of_ok higherSucceeds]
    exact (prefix_enabledPasses entryPoint included).map PassKind.name
  · refine ⟨{ sizeBefore := program.size, sizeAfter := program.size }, rfl, ?_⟩
    intro other
    apply optimize_eq_of_runPasses
    · exact (missingEntryPoint?_eq_none_iff _ program).2 (Or.inl rfl)
    · rfl

/--
A loop with a product in it, and a function that nothing calls.  Asked for a
function that is not there, the aggressive level leaves the program alone.
-/
theorem optimize_by_level_loop :
    let eight := Expr.binary .multiply (.literal (.int 2)) (.literal (.int 4))
    let program : Program :=
      ⟨"m", [.function "main" []
          (.loop (.ident "x") (.assign "x" (.binary .multiply (.ident "x") eight))),
        .function "unused" [] (.call (.ident "unused") [])]⟩
    let run (level : Level) := optimize { level, entryPoint := some "main" } program
    (∃ basic standard aggressive,
      (run .basic).result = .ok basic ∧
      (run .standard).result = .ok standard ∧
      (run .aggressive).result = .ok aggressive ∧
      basic.transformations = 2 ∧
      standard.transformations = 6 ∧
      aggressive.transformations = 8 ∧
      basic.passes <+: aggressive.passes) ∧
    optimize { level := .aggressive, entryPoint := some "start" } program =
      ⟨program, .error (.unknownEntryPoint "start")⟩ := by
  intro eight program run
  refine ⟨?_, ?_⟩
  · rcases optimize_by_level program (some "main") with
      ⟨_, levels, prefixes, _⟩
    have defined :
        ∀ name, some "main" = some name → program.defines name = true := by
      rintro _ ⟨⟩
      decide
    have pruned :
        program.foldConstants.result.removeDeadFunctions (some "main") =
          { program :=
              ⟨"m", [.function "main" []
                (.loop (.ident "x")
                  (.assign "x"
                    (.binary .multiply (.ident "x") (.literal (.int 8)))))]⟩
            removed := ["unused"] } := by
      cbv
    rw [pruned] at levels
    rcases levels defined with ⟨fault, fails, _⟩ |
      ⟨folds, basic, standard, aggressive, succeeds, basicRun, standardRun,
        aggressiveRun, basicCount, standardCount, aggressiveCount⟩
    · cases fails
    · have basicResult := congrArg Optimized.result basicRun
      have aggressiveResult := congrArg Optimized.result aggressiveRun
      cases succeeds
      refine ⟨basic, standard, aggressive, basicResult,
        congrArg Optimized.result standardRun, aggressiveResult,
        basicCount, ?_, ?_, prefixes _ _ _ _ rfl basicResult aggressiveResult⟩
      · rw [standardCount]
        decide +kernel
      · rw [aggressiveCount, standardCount]
        decide +kernel
  · rcases optimize_by_level program (some "start") with ⟨missing, _⟩
    exact missing "start" rfl (by decide) .aggressive (by decide)

end Options

end MiddleEnd
