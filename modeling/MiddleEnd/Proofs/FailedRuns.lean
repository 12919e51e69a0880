import MiddleEnd.Proofs.Stability

/-!
# What a failed run leaves behind

Folding that meets a division by zero stops in the middle of a tree: what comes
before the division is folded, what comes after it is as it was.  A second run
over such a tree finds nothing to fold on its way to the division and stops
there again, so the leftover is as stable as the result of a run that succeeds.

This is a property of a rule and not of folding alone: it holds of every rule
whose replacements it leaves alone.  `Transformed.Repeats` says it of a single
run, and it passes from the children of a node to the node, and from the
statements of a program to the program.
-/

namespace MiddleEnd

/-! ## Runs over what a run has left -/

namespace Transformed

variable {ε α β : Type}

/-- A run over what a run has left changes nothing and ends in the same way. -/
def Repeats (run : α → Transformed ε α) (entry : α) : Prop :=
  run (run entry).result =
    ⟨(run entry).result, (run entry).count.map fun _ => 0⟩

/-- What holds of every entry of a list holds of the run along it. -/
theorem Repeats.traverse
    {run : α → Transformed ε α}
    {entries : List α}
    (each : ∀ entry ∈ entries, Repeats run entry) :
    Repeats (Transformed.traverse run) entries := by
  induction entries with
  | nil => rfl
  | cons entry rest hypothesis =>
      rcases List.forall_mem_cons.1 each with ⟨here, others⟩
      have below := hypothesis others
      unfold Repeats at here below ⊢
      cases outcome : (run entry).count with
      | error fault =>
          -- The run does not get to the rest, neither now nor the next time.
          rw [outcome] at here
          simp only [Transformed.traverse, andThen, outcome, here, Except.map]
      | ok before =>
          rw [outcome] at here
          simp only [Transformed.traverse, andThen, outcome, here, below,
            Except.map]
          cases (Transformed.traverse run rest).count with
          | error fault => rfl
          | ok after => rfl

/-- What holds of a part holds of the whole that the part is put back into. -/
theorem Repeats.within
    {run : α → Transformed ε α}
    {part : β → α}
    {update : β → α → β}
    {whole : β}
    (repeats : Repeats run (part whole))
    (reads :
      part (update whole (run (part whole)).result) =
        (run (part whole)).result)
    (writes :
      update (update whole (run (part whole)).result)
          (run (part whole)).result =
        update whole (run (part whole)).result) :
    Repeats (fun current => (run (part current)).map (update current)) whole := by
  unfold Repeats at repeats ⊢
  simp only [map, reads, repeats, writes]

/-- The entries of a run that stops: finished ones, a faulty one, untouched ones. -/
theorem traverse_of_error
    {run : α → Transformed ε α}
    {entries : List α}
    {fault : ε}
    (fails : (traverse run entries).count = .error fault) :
    ∃ before entry after,
      entries = before ++ entry :: after ∧
      (∀ earlier ∈ before, ∃ count, (run earlier).count = .ok count) ∧
      (run entry).count = .error fault ∧
      (traverse run entries).result =
        before.map (fun earlier => (run earlier).result) ++
          (run entry).result :: after := by
  induction entries with
  | nil => cases fails
  | cons entry rest hypothesis =>
      cases outcome : (run entry).count with
      | error first =>
          have same : first = fault := by
            simpa [traverse, andThen, outcome] using fails
          rw [same] at outcome
          refine ⟨[], entry, rest, rfl, by simp, outcome, ?_⟩
          simp [traverse, andThen, outcome]
      | ok count =>
          have later : (traverse run rest).count = .error fault := by
            cases second : (traverse run rest).count with
            | error other =>
                simpa [traverse, andThen, outcome, second, Except.map]
                  using fails
            | ok total =>
                simp [traverse, andThen, outcome, second, Except.map] at fails
          rcases hypothesis later with
            ⟨before, faulty, after, split, finished, stops, left⟩
          refine ⟨entry :: before, faulty, after, by rw [split]; rfl, ?_, stops, ?_⟩
          · exact List.forall_mem_cons.2 ⟨⟨count, outcome⟩, finished⟩
          · simp [traverse, andThen, outcome, left]

end Transformed

open Transformed (Repeats)

/-! ## Rules that leave their replacements alone -/

/-- What the rule puts in place of a node, it leaves alone. -/
def Rule.IsFinal {ε : Type} (rule : Rule ε) : Prop :=
  ∀ node result,
    rule node = .replace result →
      result.transform rule = .unchanged result

section

variable {ε : Type} {rule : Rule ε}

/-- A node whose children have been run over is run over again by the rule alone. -/
theorem Expr.transform_withChildren_of_repeats
    {expression : Expr}
    (below :
      Repeats (Transformed.traverse (Expr.transform rule))
        expression.children) :
    let children :=
      Transformed.traverse (Expr.transform rule) expression.children
    (expression.withChildren children.result).transform rule =
      (Transformed.mk (expression.withChildren children.result)
        (children.count.map fun _ => 0)).bind rule.apply := by
  intro children
  have fits : children.result.length = expression.children.length :=
    Transformed.length_traverse _ _
  have again :
      Repeats
        (fun current =>
          (Transformed.traverse (Expr.transform rule) current.children).map
            current.withChildren)
        expression :=
    below.within (children_withChildren fits)
      (withChildren_withChildren fits fits)
  rw [transform_eq]
  exact congrArg (Transformed.bind · rule.apply) again

theorem Expr.repeats_transform
    (final : rule.IsFinal)
    (expression : Expr) :
    Repeats (Expr.transform rule) expression := by
  induction expression using Expr.childrenInduction with
  | node expression hypothesis =>
      have again :=
        transform_withChildren_of_repeats (Repeats.traverse hypothesis)
      have first := expression.transform_eq rule
      generalize
        Transformed.traverse (Expr.transform rule) expression.children =
          children at again first
      rcases children with ⟨children, fault | before⟩
      · have stopped :
            expression.transform rule =
              ⟨expression.withChildren children, .error fault⟩ :=
          first
        rw [Repeats, stopped]
        exact again
      · -- The children are done, so the verdict at the node is the same.
        have node :
            expression.transform rule =
              (Transformed.mk (expression.withChildren children)
                (.ok before)).bind rule.apply :=
          first
        have nodeAgain :
            (expression.withChildren children).transform rule =
              (Transformed.mk (expression.withChildren children)
                (.ok 0)).bind rule.apply :=
          again
        unfold Transformed.bind Rule.apply at node nodeAgain
        cases verdict : rule (expression.withChildren children) with
        | keep =>
            simp only [verdict] at node nodeAgain
            rw [Repeats, node]
            exact nodeAgain
        | replace result =>
            simp only [verdict] at node
            rw [Repeats, node]
            exact final _ _ verdict
        | stop fault =>
            simp only [verdict] at node nodeAgain
            rw [Repeats, node]
            exact nodeAgain

theorem Stmt.repeats_transform
    (final : rule.IsFinal)
    (statement : Stmt) :
    Repeats (Stmt.transform rule) statement := by
  have held :
      Repeats (Transformed.traverse (Expr.transform rule)) statement.held :=
    Repeats.traverse fun expression _ => expression.repeats_transform final
  have fits :=
    Transformed.length_traverse (Expr.transform rule) statement.held
  rw [funext (Stmt.transform_eq rule)]
  exact held.within (held_withHeld fits) (withHeld_withHeld fits fits)

end

/-! ## Folding that stops -/

theorem Folding.isFinal_rule : Rule.IsFinal Folding.rule := by
  intro node result verdict
  rcases (rule_eq_replace_iff node result).1 verdict with
    ⟨_, _, folded, _, _, rfl⟩ | ⟨_, _, _, folded, _, _, rfl⟩
  · exact (settled_literal folded).foldConstants_eq
  · exact (settled_literal folded).foldConstants_eq

/-- The statement with the normal form of the expression that it holds. -/
def Stmt.normalForm (statement : Stmt) : Stmt :=
  statement.withHeld (statement.held.map Expr.normalForm)

theorem Expr.result_foldConstants_of_ok
    {expression : Expr}
    {folds : Nat}
    (succeeds : expression.foldConstants.count = .ok folds) :
    expression.foldConstants.result = expression.normalForm := by
  have run := Folding.runsTo_foldConstants expression
  rw [run.finishes (run.fault_eq_none succeeds)]

theorem Stmt.foldConstants_of_ok
    {statement : Stmt}
    {folds : Nat}
    (succeeds : statement.foldConstants.count = .ok folds) :
    statement.foldConstants = ⟨statement.normalForm, .ok folds⟩ := by
  have result : statement.foldConstants.result = statement.normalForm := by
    rw [Stmt.foldConstants_eq] at succeeds ⊢
    have ⟨results, inside⟩ := Transformed.traverse_of_ok succeeds
    show statement.withHeld _ = statement.withHeld _
    rw [results]
    congr 1
    apply List.map_congr_left
    intro expression member
    rcases inside expression member with ⟨count, finished⟩
    exact Expr.result_foldConstants_of_ok finished
  rw [← result, ← succeeds]

namespace Program

/--
The position at which folding stopped: the statements before it are folded
completely, the one at it cannot be folded, and those after it are untouched.
-/
structure FoldingStopsAt (program : Program) (position : Nat) : Prop where
  before :
    ∀ earlier < position,
      ∃ statement folds,
        program.statements[earlier]? = some statement ∧
        statement.foldConstants = ⟨statement.normalForm, .ok folds⟩ ∧
        program.foldConstants.result.statements[earlier]? =
          some statement.normalForm
  here :
    ∃ statement fault,
      program.statements[position]? = some statement ∧
      statement.foldConstants.count = .error fault ∧
      program.foldConstants.result.statements[position]? =
        some statement.foldConstants.result
  after :
    ∀ later, position < later →
      program.foldConstants.result.statements[later]? =
        program.statements[later]?

/-- Before the one position there is nothing faulty, and behind it there is. -/
theorem FoldingStopsAt.le
    {program : Program}
    {position other : Nat}
    (stops : program.FoldingStopsAt position)
    (otherStops : program.FoldingStopsAt other) :
    other ≤ position := by
  by_contra further
  rcases stops.here with ⟨statement, fault, present, faulty, _⟩
  rcases otherStops.before position (Nat.lt_of_not_le further) with
    ⟨same, folds, alsoPresent, finished, _⟩
  rw [present] at alsoPresent
  cases alsoPresent
  rw [finished] at faulty
  cases faulty

theorem exists_foldingStopsAt
    {program : Program}
    {fault : ArithmeticFault}
    (fails : program.foldConstants.count = .error fault) :
    ∃ position,
      program.FoldingStopsAt position ∧
      ∃ statement,
        program.statements[position]? = some statement ∧
        statement.foldConstants.count = .error fault := by
  rcases Transformed.traverse_of_error fails with
    ⟨before, statement, after, split, finished, stops, left⟩
  have result :
      program.foldConstants.result.statements =
        before.map (fun earlier => earlier.foldConstants.result) ++
          statement.foldConstants.result :: after :=
    left
  have present : program.statements[before.length]? = some statement := by
    simp [split]
  refine ⟨before.length, ⟨?_, ?_, ?_⟩, statement, present, stops⟩
  · intro earlier early
    have member : before[earlier]? = some before[earlier] :=
      List.getElem?_eq_getElem early
    rcases finished before[earlier] (List.getElem_mem early) with
      ⟨folds, succeeds⟩
    have folded := Stmt.foldConstants_of_ok succeeds
    refine ⟨before[earlier], folds, ?_, folded, ?_⟩
    · rw [split, List.getElem?_append_left early, member]
    · rw [result, List.getElem?_append_left (by simpa using early),
        List.getElem?_map, member, Option.map_some, folded]
  · exact ⟨statement, fault, present, stops, by simp [result]⟩
  · intro later behind
    rcases Nat.exists_eq_add_of_lt behind with ⟨distance, rfl⟩
    rw [result, split, List.getElem?_append_right (by simp; omega),
      List.getElem?_append_right (by omega)]
    simp [Nat.add_assoc]

theorem repeats_foldConstants (program : Program) :
    Repeats Program.foldConstants program := by
  have statements :
      Repeats (Transformed.traverse Stmt.foldConstants) program.statements :=
    Repeats.traverse fun statement _ =>
      statement.repeats_transform Folding.isFinal_rule
  exact statements.within rfl rfl

end Program

/-! ## Optimizers that fail -/

/-- A run whose folding stops leaves what folding has left, and goes no further. -/
theorem Options.optimize_of_error
    {options : Options}
    {program : Program}
    {fault : ArithmeticFault}
    (active : options.level ≠ .none)
    (defined : ∀ name ∈ options.entryPoint, program.defines name = true)
    (fails : program.foldConstants.count = .error fault) :
    options.optimize program =
      ⟨program.foldConstants.result, .error (.arithmetic fault)⟩ := by
  have found : options.missingEntryPoint? program = none :=
    (options.missingEntryPoint?_eq_none_iff program).2 (Or.inr defined)
  have run := options.runPasses_of_error active fails
  simp only [optimize, found, run]

theorem Optimizer.optimize_of_error
    {optimizer : Optimizer}
    {program : Program}
    {fault : ArithmeticFault}
    (active : optimizer.options.level ≠ .none)
    (defined :
      ∀ name ∈ optimizer.options.entryPoint, program.defines name = true)
    (fails : program.foldConstants.count = .error fault) :
    optimizer.optimize program =
      (optimizer,
        ⟨program.foldConstants.result, .error (.arithmetic fault)⟩) := by
  rw [Optimizer.optimize, Options.optimize_of_error active defined fails]

/--
Folding that fails stops at one statement, with the ones before it folded and the
ones after it untouched, and fails in the same way on what it leaves, without
changing it.  An optimizer that folds and finds its entry point fails with the
fault of folding, leaves what folding leaves, and remembers nothing; run again,
it does the same.
-/
theorem Program.failed_folding_is_stable
    (program : Program)
    (fault : ArithmeticFault)
    (fails : program.foldConstants.count = .error fault) :
    let leftover := program.foldConstants.result
    (∃ position,
      program.FoldingStopsAt position ∧
      (∃ statement,
        program.statements[position]? = some statement ∧
        statement.foldConstants.count = .error fault) ∧
      ∀ other, program.FoldingStopsAt other → other = position) ∧
    leftover.foldConstants = ⟨leftover, .error fault⟩ ∧
    ∀ optimizer : Optimizer,
      optimizer.options.level ≠ .none →
      (∀ name ∈ optimizer.options.entryPoint, program.defines name = true) →
        optimizer.optimize program =
          (optimizer, ⟨leftover, .error (.arithmetic fault)⟩) ∧
        optimizer.optimize leftover =
          (optimizer, ⟨leftover, .error (.arithmetic fault)⟩) := by
  intro leftover
  have again : leftover.foldConstants = ⟨leftover, .error fault⟩ := by
    have repeats := program.repeats_foldConstants
    rw [Repeats, fails] at repeats
    exact repeats
  refine ⟨?_, again, ?_⟩
  · rcases exists_foldingStopsAt fails with ⟨position, stops, faulty⟩
    refine ⟨position, stops, faulty, ?_⟩
    intro other otherStops
    exact Nat.le_antisymm (stops.le otherStops) (otherStops.le stops)
  · intro optimizer active defined
    refine ⟨Optimizer.optimize_of_error active defined fails, ?_⟩
    have stillDefined :
        ∀ name ∈ optimizer.options.entryPoint, leftover.defines name = true := by
      intro name entry
      rw [defines_foldConstants]
      exact defined name entry
    have failsAgain : leftover.foldConstants.count = .error fault := by
      rw [again]
    have run := Optimizer.optimize_of_error active stillDefined failsAgain
    rwa [again] at run

/--
The run stops at the remainder in the second statement, with the argument before
it folded; neither the argument after it nor the third statement is touched.
-/
theorem Program.failed_folding_is_stable_remainder :
    let sum := Expr.binary .add (.literal (.int 1)) (.literal (.int 2))
    let remainder := Expr.binary .modulo (.literal (.int 7))
    let body first second :=
      Expr.call (.ident "f") [first, remainder second, sum]
    let quotient := Expr.binary .divide sum (.literal (.int 0))
    let program : Program :=
      ⟨"m", [.bind "a" sum,
        .function "main" []
          (body sum (.binary .subtract (.literal (.int 3)) (.literal (.int 3)))),
        .ret (some quotient)]⟩
    let leftover : Program :=
      ⟨"m", [.bind "a" (.literal (.int 3)),
        .function "main" [] (body (.literal (.int 3)) (.literal (.int 0))),
        .ret (some quotient)]⟩
    let optimizer : Optimizer :=
      { options := { level := .aggressive, entryPoint := some "main" }
        history := [{ transformations := 4 }] }
    program.foldConstants = ⟨leftover, .error .moduloByZero⟩ ∧
    program.FoldingStopsAt 1 ∧
    leftover.foldConstants = ⟨leftover, .error .moduloByZero⟩ ∧
    optimizer.optimize program =
      (optimizer, ⟨leftover, .error (.arithmetic .moduloByZero)⟩) ∧
    optimizer.optimize leftover =
      (optimizer, ⟨leftover, .error (.arithmetic .moduloByZero)⟩) := by
  intro sum remainder body quotient program leftover optimizer
  have left : program.foldConstants = ⟨leftover, .error .moduloByZero⟩ := rfl
  have defined :
      ∀ name ∈ optimizer.options.entryPoint, program.defines name = true := by
    rintro name ⟨rfl⟩
    rfl
  have ⟨⟨position, stops, ⟨statement, present, faulty⟩, _⟩, again, runs⟩ :=
    failed_folding_is_stable program .moduloByZero rfl
  -- The third statement has a fault as well, but not the one of the run.
  have second : position = 1 := by
    match position, present with
    | 0, present =>
        cases present
        cases faulty
    | 1, _ => rfl
    | 2, present =>
        cases present
        cases faulty
  rw [second] at stops
  exact ⟨left, stops, again, runs optimizer (by decide) defined⟩

end MiddleEnd
