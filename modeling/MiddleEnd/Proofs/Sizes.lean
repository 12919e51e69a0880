import Mathlib.Algebra.Order.BigOperators.Group.List
import Mathlib.Algebra.Order.Ring.Nat
import MiddleEnd.Proofs.Outline
import MiddleEnd.Proofs.Weight

/-!
# Optimization does not make a program larger

Every pass leaves a program that is no larger, whether it succeeds or not:
folding takes weight away, reduction moves none, and pruning takes away what the
removed functions weigh.  So neither does a run of passes, and the sizes that a
successful run reports never grow.
-/

namespace MiddleEnd

/-! ## Statements -/

namespace Stmt

theorem weightOfList_eq_sum (weighting : Weighting) (statements : List Stmt) :
    weightOfList weighting statements =
      (statements.map (weight weighting)).sum := by
  induction statements with
  | nil => rfl
  | cons statement rest hypothesis =>
      rw [weightOfList, hypothesis, List.map_cons, List.sum_cons]

section

variable {weighting : Weighting} (monotone : weighting.IsMonotone)
include monotone

theorem weight_foldConstants_le (statement : Stmt) :
    statement.foldConstants.result.weight weighting ≤
      statement.weight weighting := by
  have lighter :
      List.Forall₂ (fun before after => after.NoHeavier weighting before)
        statement.held
        (Transformed.traverse Expr.foldConstants statement.held).result := by
    apply Transformed.forall₂_traverse
    · intro expression
      exact Nat.le_refl _
    · intro expression _
      exact expression.weight_foldConstants_le monotone
  rw [foldConstants_eq]
  exact weight_withHeld_le monotone lighter.flip

theorem weight_reduced (statement : Stmt) :
    statement.reduced.weight weighting = statement.weight weighting := by
  cases statement with
  | function name parameters body =>
      exact congrArg weighting.function (body.weight_reduced monotone)
  | _ => rfl

end

end Stmt

/-! ## Passes -/

namespace Program

theorem size_eq_sum (program : Program) :
    program.size = (program.statements.map Stmt.size).sum :=
  Stmt.weightOfList_eq_sum .size program.statements

/-- Folding makes no program larger, also where it stops. -/
theorem size_foldConstants_le (program : Program) :
    program.foldConstants.result.size ≤ program.size := by
  have smaller :
      List.Forall₂ (fun before after : Stmt => after.size ≤ before.size)
        program.statements
        (Transformed.traverse Stmt.foldConstants program.statements).result := by
    apply Transformed.forall₂_traverse
    · intro statement
      exact Nat.le_refl _
    · intro statement _
      exact statement.weight_foldConstants_le Weighting.isMonotone_size
  rw [size_eq_sum, size_eq_sum]
  apply List.Forall₂.sum_le_sum
  rw [List.forall₂_map_left_iff, List.forall₂_map_right_iff]
  exact smaller.flip

theorem size_reduced (program : Program) :
    program.reduced.size = program.size := by
  rw [reduced_eq, size_eq_sum, size_eq_sum, List.map_map]
  congr 1
  apply List.map_congr_left
  intro statement _
  exact statement.weight_reduced Weighting.isMonotone_size

/-- A program is as large as the statements that survive and those that do not. -/
theorem size_restrict (program : Program) (live : String → Bool) :
    (program.restrict live).size +
        ((program.statements.filter (!survives live ·)).map Stmt.size).sum =
      program.size := by
  have parts :=
    (List.filter_append_perm (survives live) program.statements).map Stmt.size
  rw [size_eq_sum, size_eq_sum, ← parts.sum_eq, List.map_append,
    List.sum_append]
  rfl

/-- The statements that are removed as dead functions, in source order. -/
def deadFunctions
    (program : Program)
    (entryPoint : Option String) : List Stmt :=
  program.statements.filter fun statement =>
    statement.function?.any fun definition =>
      definition.name ∈ (program.removeDeadFunctions entryPoint).removed

section

variable
  {program : Program}
  {entryPoint : Option String}
  {live : String → Bool}
  (removed :
    (program.removeDeadFunctions entryPoint).removed =
      (program.functions.filter fun definition =>
        !live definition.name).map FunctionDef.name)

include removed

/-- A function is removed if its name is not live, whichever of its name it is. -/
theorem mem_removed_iff
    {definition : FunctionDef}
    (member : definition ∈ program.functions) :
    definition.name ∈ (program.removeDeadFunctions entryPoint).removed ↔
      live definition.name = false := by
  rw [removed, List.mem_map]
  constructor
  · rintro ⟨other, dead, named⟩
    simpa [named] using (List.mem_filter.1 dead).2
  · intro dead
    exact ⟨definition, List.mem_filter.2 ⟨member, by simp [dead]⟩, rfl⟩

theorem deadFunctions_eq :
    program.deadFunctions entryPoint =
      program.statements.filter (!survives live ·) := by
  apply List.filter_congr
  intro statement member
  cases found : statement.function? with
  | none => simp [survives, found]
  | some definition =>
      have inside : definition ∈ program.functions :=
        List.mem_filterMap.2 ⟨statement, member, found⟩
      simp [survives, found, mem_removed_iff removed inside]

end

/-- The statements removed are those whose names are returned. -/
theorem map_name_deadFunctions
    (program : Program)
    (entryPoint : Option String) :
    ((program.deadFunctions entryPoint).filterMap Stmt.function?).map
        FunctionDef.name =
      (program.removeDeadFunctions entryPoint).removed := by
  rcases program.exists_removeDeadFunctions_eq entryPoint with
    ⟨live, pruned, _⟩
  have removed := congrArg Pruned.removed pruned
  have dead :
      (program.deadFunctions entryPoint).filterMap Stmt.function? =
        program.functions.filter fun definition => !live definition.name := by
    rw [deadFunctions_eq removed, List.filterMap_filter, functions,
      List.filter_filterMap]
    congr 1
    funext statement
    cases found : statement.function? with
    | none => simp
    | some definition =>
        cases dead : live definition.name <;>
          simp [survives, found, dead, Option.filter_some]
  rw [dead, removed]

/-- Every function weighs at least its heading. -/
theorem ten_le_size_of_mem_deadFunctions
    {program : Program}
    {entryPoint : Option String}
    {statement : Stmt}
    (dead : statement ∈ program.deadFunctions entryPoint) :
    10 ≤ statement.size := by
  have named := (List.mem_filter.1 dead).2
  cases statement with
  | function name parameters body => exact Nat.le_add_right 10 _
  | _ => cases named

/-- Pruning takes away as much as the removed functions weigh. -/
theorem size_removeDeadFunctions
    (program : Program)
    (entryPoint : Option String) :
    (program.removeDeadFunctions entryPoint).program.size +
        ((program.deadFunctions entryPoint).map Stmt.size).sum =
      program.size := by
  rcases program.exists_removeDeadFunctions_eq entryPoint with
    ⟨live, pruned, _⟩
  rw [deadFunctions_eq (congrArg Pruned.removed pruned), pruned]
  exact program.size_restrict live

theorem ten_mul_length_removed_le
    (program : Program)
    (entryPoint : Option String) :
    10 * (program.removeDeadFunctions entryPoint).removed.length ≤
      ((program.deadFunctions entryPoint).map Stmt.size).sum := by
  have fewer :
      (program.removeDeadFunctions entryPoint).removed.length ≤
        ((program.deadFunctions entryPoint).map Stmt.size).length := by
    rw [← map_name_deadFunctions, List.length_map, List.length_map]
    exact List.length_filterMap_le _ _
  have each :
      ∀ size ∈ (program.deadFunctions entryPoint).map Stmt.size, 10 ≤ size := by
    intro size member
    rcases List.mem_map.1 member with ⟨statement, dead, rfl⟩
    exact ten_le_size_of_mem_deadFunctions dead
  calc
    10 * (program.removeDeadFunctions entryPoint).removed.length ≤
        10 * ((program.deadFunctions entryPoint).map Stmt.size).length :=
      Nat.mul_le_mul_left 10 fewer
    _ ≤ ((program.deadFunctions entryPoint).map Stmt.size).sum := by
      rw [Nat.mul_comm]
      exact List.card_nsmul_le_sum _ 10 each

end Program

/-! ## Runs of passes -/

namespace Options

/-- One pass makes no program larger, whether it succeeds or not. -/
theorem size_runPass_le
    (options : Options)
    (kind : PassKind)
    (program : Program) :
    (options.runPass kind program).result.size ≤ program.size := by
  cases kind with
  | constantFolding => exact program.size_foldConstants_le
  | deadCodeElimination =>
      have parts := program.size_removeDeadFunctions options.entryPoint
      exact Nat.le.intro parts
  | strengthReduction => exact program.size_reduced.le
  | _ => exact Nat.le_refl _

/-- Passes in sequence make no program larger, as far as they get. -/
theorem size_runPasses_le
    (options : Options)
    (kinds : List PassKind)
    (program : Program) :
    (options.runPasses kinds program).result.size ≤ program.size := by
  induction kinds generalizing program with
  | nil => exact Nat.le_refl _
  | cons kind rest hypothesis =>
      have first := options.size_runPass_le kind program
      rw [runPasses, Transformed.bind]
      split
      · exact first
      · exact Nat.le_trans (hypothesis _) first

theorem size_optimize_le (options : Options) (program : Program) :
    (options.optimize program).program.size ≤ program.size := by
  unfold optimize
  split
  · exact Nat.le_refl _
  · exact options.size_runPasses_le options.enabledPasses program

/-- The sizes reported are those of the program before and after the run. -/
theorem sizes_of_ok
    {options : Options}
    {program : Program}
    {statistics : Statistics}
    (succeeds : (options.optimize program).result = .ok statistics) :
    statistics.sizeBefore = program.size ∧
      statistics.sizeAfter = (options.optimize program).program.size := by
  unfold optimize at succeeds ⊢
  split at succeeds
  · cases succeeds
  · dsimp only at succeeds
    split at succeeds
    · cases succeeds
    · cases succeeds
      exact ⟨rfl, rfl⟩

end Options

/--
No optimization makes a program larger.  The sizes that a successful run reports
are those before and after it, and the second is no more than the first.  Of the
passes, folding makes nothing larger or more complex, also where it stops;
strength reduction changes neither; and pruning takes away exactly what the
removed functions weigh, which is ten for each of them at least.
-/
theorem Options.optimize_never_grows :
    (∀ (options : Options) (program : Program) (statistics : Statistics),
      (options.optimize program).result = .ok statistics →
        statistics.sizeBefore = program.size ∧
        statistics.sizeAfter = (options.optimize program).program.size ∧
        statistics.sizeAfter ≤ statistics.sizeBefore) ∧
    (∀ expression : Expr,
      expression.foldConstants.result.size ≤ expression.size ∧
      expression.foldConstants.result.complexity ≤ expression.complexity ∧
      expression.reduceStrength.result.size = expression.size ∧
      expression.reduceStrength.result.complexity = expression.complexity) ∧
    (∀ statement : Stmt,
      statement.foldConstants.result.size ≤ statement.size ∧
      statement.foldConstants.result.complexity ≤ statement.complexity ∧
      statement.reduceStrength.result.size = statement.size ∧
      statement.reduceStrength.result.complexity = statement.complexity) ∧
    ∀ program : Program,
      program.foldConstants.result.size ≤ program.size ∧
      program.reduceStrength.result.size = program.size ∧
      ∀ entryPoint,
        let pruned := program.removeDeadFunctions entryPoint
        let dead := program.deadFunctions entryPoint
        (dead.filterMap Stmt.function?).map FunctionDef.name =
          pruned.removed ∧
        pruned.program.size + (dead.map Stmt.size).sum = program.size ∧
        (∀ statement ∈ dead, 10 ≤ statement.size) ∧
        10 * pruned.removed.length ≤ (dead.map Stmt.size).sum := by
  have size := Weighting.isMonotone_size
  have complexity := Weighting.isMonotone_complexity
  refine ⟨?_, ?_, ?_, ?_⟩
  · intro options program statistics succeeds
    rcases Options.sizes_of_ok succeeds with ⟨before, after⟩
    refine ⟨before, after, ?_⟩
    rw [before, after]
    exact options.size_optimize_le program
  · intro expression
    exact ⟨expression.weight_foldConstants_le size,
      expression.weight_foldConstants_le complexity,
      expression.weight_reduced size, expression.weight_reduced complexity⟩
  · intro statement
    exact ⟨statement.weight_foldConstants_le size,
      statement.weight_foldConstants_le complexity,
      statement.weight_reduced size, statement.weight_reduced complexity⟩
  · intro program
    refine ⟨program.size_foldConstants_le, program.size_reduced, ?_⟩
    intro entryPoint
    exact ⟨program.map_name_deadFunctions entryPoint,
      program.size_removeDeadFunctions entryPoint,
      fun _ dead => Program.ten_le_size_of_mem_deadFunctions dead,
      program.ten_mul_length_removed_le entryPoint⟩

/-- A sum is folded, the product with it reduced, and a function removed. -/
theorem Options.optimize_never_grows_pruned :
    let options : Options :=
      { level := .aggressive, entryPoint := some "main" }
    let sum := Expr.binary .add (.literal (.int 3)) (.literal (.int 5))
    let program : Program :=
      ⟨"m", [.function "main" ["x"] (.binary .multiply (.ident "x") sum),
        .function "unused" [] (.call (.ident "unused") [])]⟩
    (∃ statistics,
      (options.optimize program).result = .ok statistics ∧
      statistics.sizeBefore = 27 ∧
      statistics.sizeAfter = 13 ∧
      statistics.sizeAfter ≤ statistics.sizeBefore) ∧
    (program.removeDeadFunctions (some "main")).removed = ["unused"] ∧
    (program.removeDeadFunctions (some "main")).program.size + 12 =
      program.size := by
  intro options sum program
  rcases optimize_never_grows with ⟨reported, _, _, passes⟩
  have pruned :
      program.removeDeadFunctions (some "main") =
        { program :=
            ⟨"m", [.function "main" ["x"] (.binary .multiply (.ident "x") sum)]⟩
          removed := ["unused"] } := by
    cbv
  have left :
      (options.optimize program).program =
        ⟨"m", [.function "main" ["x"]
          (.binary .multiply (.ident "x") (.literal (.int 3)))]⟩ := by
    cbv
  have succeeds :
      ∃ statistics, (options.optimize program).result = .ok statistics :=
    ⟨_, rfl⟩
  constructor
  · rcases succeeds with ⟨statistics, succeeds⟩
    rcases reported options program statistics succeeds with
      ⟨before, after, smaller⟩
    rw [left] at after
    exact ⟨statistics, succeeds, before, after, smaller⟩
  · rcases (passes program).2.2 (some "main") with ⟨_, parts, _, _⟩
    refine ⟨congrArg Pruned.removed pruned, ?_⟩
    have dead :
        program.deadFunctions (some "main") =
          [.function "unused" [] (.call (.ident "unused") [])] := by
      rw [Program.deadFunctions, pruned]
      rfl
    rwa [dead] at parts

end MiddleEnd
