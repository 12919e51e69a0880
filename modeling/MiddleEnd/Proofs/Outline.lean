import MiddleEnd.Proofs.Folding.Meaning
import MiddleEnd.Proofs.Stability

/-!
# What the passes leave alone

The outline of a tree is the tree with every literal blanked, and with every
operator that has only blanks below it blanked as a whole.  Folding replaces an
operator on literals by a literal, and strength reduction replaces one literal
by another, so neither of them changes the outline.

The skeleton is the sequence of all nodes that are neither literals nor
operators, each with what it holds besides expressions.  It is the same for a
tree and its outline, and so is all that can be read off the skeleton.
-/

namespace MiddleEnd

open Relation

/-! ## Headings and landmarks -/

/-- The kind of a statement, with all that it holds besides an expression. -/
inductive Heading where
  | expr
  | bind (name : String)
  | ret (hasValue : Bool)
  | function (name : String) (parameters : List String)
  | use (path : String)
deriving DecidableEq

def Stmt.heading : Stmt → Heading
  | .expr _ => .expr
  | .bind name _ => .bind name
  | .ret value => .ret value.isSome
  | .function name parameters _ => .function name parameters
  | .use path => .use path

/-- A node that is neither a literal nor an operator, without its children. -/
inductive Landmark where
  | ident (name : String)
  | call (arguments : Nat)
  | branch (hasElse : Bool)
  | loop
  | block (statements : List Heading)
  | assign (target : String)
deriving DecidableEq

def Expr.landmark? : Expr → Option Landmark
  | .literal _ => none
  | .ident name => some (.ident name)
  | .unary _ _ => none
  | .binary _ _ _ => none
  | .call _ arguments => some (.call arguments.length)
  | .branch _ _ elseBranch => some (.branch elseBranch.isSome)
  | .loop _ _ => some .loop
  | .block statements => some (.block (statements.map Stmt.heading))
  | .assign target _ => some (.assign target)

/-- The landmarks of an expression, each before those below it. -/
def Expr.skeleton (expression : Expr) : List Landmark :=
  expression.subexprs.filterMap landmark?

/-- The landmarks of the expression that a statement holds. -/
def Stmt.skeleton (statement : Stmt) : List Landmark :=
  statement.subexprs.filterMap Expr.landmark?

/-! ## Other children in the same node -/

@[simp]
theorem Stmt.heading_withHeld (statement : Stmt) (expressions : List Expr) :
    (statement.withHeld expressions).heading = statement.heading := by
  unfold withHeld
  split <;> rfl

/-- What does not depend on the expressions that statements hold stays. -/
theorem Stmt.map_refill
    {α : Type}
    {view : Stmt → α}
    (kept :
      ∀ statement expressions,
        view (Stmt.withHeld statement expressions) = view statement)
    (statements : List Stmt)
    (expressions : List Expr) :
    (Stmt.refill statements expressions).map view = statements.map view := by
  induction statements generalizing expressions with
  | nil => rfl
  | cons statement rest hypothesis =>
      rw [Stmt.refill, List.map_cons, List.map_cons, kept, hypothesis]

theorem Stmt.refill_map
    (change : Expr → Expr)
    (statements : List Stmt) :
    Stmt.refill statements ((statements.flatMap Stmt.held).map change) =
      statements.map fun statement =>
        statement.withHeld (statement.held.map change) := by
  induction statements with
  | nil => rfl
  | cons statement rest hypothesis =>
      have arity :
          (statement.held.map change).length = statement.held.length :=
        List.length_map _
      rw [List.flatMap_cons, List.map_append, Stmt.refill,
        List.take_left' arity, List.drop_left' arity, hypothesis,
        List.map_cons]

theorem Expr.landmark?_withChildren
    {expression : Expr}
    {children : List Expr}
    (fits : children.length = expression.children.length) :
    (expression.withChildren children).landmark? = expression.landmark? := by
  cases expression with
  | call callee arguments =>
      rcases List.exists_cons_of_length_eq_add_one fits with
        ⟨otherCallee, others, rfl⟩
      have count : others.length = arguments.length := by
        simpa [Expr.children] using fits
      simp [Expr.withChildren, landmark?, count]
  | block statements =>
      rw [Expr.withChildren, landmark?, landmark?,
        Stmt.map_refill Stmt.heading_withHeld]
  | _ =>
      unfold withChildren
      split <;> simp_all [landmark?]

theorem Expr.landmark?_of_isOperator
    {expression : Expr}
    (operator : expression.isOperator = true) :
    expression.landmark? = none := by
  cases expression with
  | unary => rfl
  | binary => rfl
  | _ => cases operator

/-! ## Outlines -/

namespace Outline

/-- Blanks a literal, and an operator on blanks. -/
def rule : Rule Empty
  | .literal _ => .replace (.literal .null)
  | .unary _ (.literal _) => .replace (.literal .null)
  | .binary _ (.literal _) (.literal _) => .replace (.literal .null)
  | _ => .keep

/-- A node that is blanked has nothing but literals and operators in it. -/
theorem rewrite_cases (node : Expr) :
    rule.rewrite node = node ∨
      rule.rewrite node = .literal .null ∧
        ∀ inner ∈ node.subexprs,
          inner.isOperator = true ∨ ∃ value, inner = .literal value := by
  unfold Rule.rewrite Rule.apply rule
  split
  · exact Or.inl rfl
  · rename_i result verdict
    right
    split at verdict
    · cases verdict
      simp [Expr.subexprs]
    · cases verdict
      simp [Expr.subexprs, Expr.isOperator]
    · cases verdict
      simp [Expr.subexprs, Expr.isOperator]
    · cases verdict
  · exact Or.inl rfl

end Outline

namespace Expr

/-- The tree with literals, and operators on literals, blanked. -/
def outline (expression : Expr) : Expr :=
  (expression.transform Outline.rule).result

theorem outline_eq (expression : Expr) :
    expression.outline =
      Outline.rule.rewrite
        (expression.withChildren (expression.children.map outline)) :=
  result_transform Outline.rule expression

/-- Children of the same outlines leave a node its outline. -/
theorem outline_withChildren
    {expression : Expr}
    {children : List Expr}
    (same : children.map outline = expression.children.map outline) :
    (expression.withChildren children).outline = expression.outline := by
  have fits : children.length = expression.children.length := by
    simpa using congrArg List.length same
  rw [outline_eq, children_withChildren fits, same,
    withChildren_withChildren fits (List.length_map _), ← outline_eq]

/-- A node gives way to a blank, or keeps its place around the outlines below. -/
theorem outline_cases (expression : Expr) :
    expression.outline =
        expression.withChildren (expression.children.map outline) ∨
      expression.outline = .literal .null ∧ expression.landmark? = none := by
  have fits :
      (expression.children.map outline).length = expression.children.length :=
    List.length_map _
  rw [outline_eq, ← landmark?_withChildren fits]
  rcases Outline.rewrite_cases
      (expression.withChildren (expression.children.map outline)) with
    same | ⟨blanked, constant⟩
  · exact Or.inl same
  · refine Or.inr ⟨blanked, ?_⟩
    have self :
        expression.withChildren (expression.children.map outline) ∈
          (expression.withChildren
            (expression.children.map outline)).subexprs := by
      rw [subexprs_eq_cons]
      exact List.mem_cons_self
    rcases constant _ self with operator | ⟨value, literal⟩
    · exact landmark?_of_isOperator operator
    · rw [literal]
      rfl

theorem landmark?_outline (expression : Expr) :
    expression.outline.landmark? = expression.landmark? := by
  rcases expression.outline_cases with kept | ⟨blanked, none⟩
  · rw [kept, landmark?_withChildren (List.length_map _)]
  · rw [blanked, none]
    rfl

/--
What is read off a tree node by node is read off its outline, if it is not read
off literals and operators, nor off the children of a node.
-/
theorem filterMap_subexprs_outline
    {α : Type}
    {view : Expr → Option α}
    (literals : ∀ value, view (.literal value) = none)
    (operators : ∀ node, node.isOperator = true → view node = none)
    (nodes :
      ∀ node, view (node.withChildren (node.children.map outline)) = view node)
    (expression : Expr) :
    expression.outline.subexprs.filterMap view =
      expression.subexprs.filterMap view := by
  induction expression using childrenInduction with
  | node expression hypothesis =>
      have kept :
          (expression.withChildren
              (expression.children.map outline)).subexprs.filterMap view =
            expression.subexprs.filterMap view := by
        rw [filterMap_subexprs, nodes, children_withChildren (List.length_map _),
          List.flatMap_map, List.flatMap_congr hypothesis,
          ← filterMap_subexprs]
      rw [outline_eq, ← kept]
      rcases Outline.rewrite_cases
          (expression.withChildren (expression.children.map outline)) with
        same | ⟨blanked, constant⟩
      · rw [same]
      · -- Nothing is read off a blank, nor off what it stands for.
        have none : (Expr.literal .null).subexprs.filterMap view = [] := by
          rw [filterMap_subexprs, literals]
          rfl
        rw [blanked, none, eq_comm, List.filterMap_eq_nil_iff]
        intro inner member
        rcases constant inner member with operator | ⟨value, rfl⟩
        · exact operators inner operator
        · exact literals value

theorem skeleton_outline (expression : Expr) :
    expression.outline.skeleton = expression.skeleton := by
  apply filterMap_subexprs_outline
  · intro value
    rfl
  · intro node
    exact landmark?_of_isOperator
  · intro node
    exact landmark?_withChildren (List.length_map _)

end Expr

/-- The statement with the outline of the expression it holds. -/
def Stmt.outline (statement : Stmt) : Stmt :=
  statement.withHeld (statement.held.map Expr.outline)

namespace Stmt

theorem outline_withHeld
    {statement : Stmt}
    {expressions : List Expr}
    (same :
      expressions.map Expr.outline = statement.held.map Expr.outline) :
    (statement.withHeld expressions).outline = statement.outline := by
  have fits : expressions.length = statement.held.length := by
    simpa using congrArg List.length same
  rw [outline, held_withHeld fits, same,
    withHeld_withHeld fits (List.length_map _), ← outline]

theorem heading_outline (statement : Stmt) :
    statement.outline.heading = statement.heading :=
  heading_withHeld _ _

theorem skeleton_outline (statement : Stmt) :
    statement.outline.skeleton = statement.skeleton := by
  have held :
      statement.outline.held = statement.held.map Expr.outline :=
    held_withHeld (List.length_map _)
  rw [skeleton, skeleton, subexprs_eq_flatMap, subexprs_eq_flatMap, held,
    List.flatMap_map, List.filterMap_flatMap, List.filterMap_flatMap]
  exact List.flatMap_congr fun expression _ => expression.skeleton_outline

end Stmt

/-! ## The passes keep the outline -/

theorem Folding.Step.outline_eq
    {expression next : Expr}
    (step : Folding.Step expression next) :
    next.outline = expression.outline := by
  induction step with
  | unary => rfl
  | binary => rfl
  | @child expression child next before after position _ hypothesis =>
      apply Expr.outline_withChildren
      rw [position, List.map_append, List.map_append, List.map_cons,
        List.map_cons, hypothesis]

theorem Folding.outline_eq_of_reaches
    {expression other : Expr}
    (reaches : ReflTransGen Folding.Step expression other) :
    other.outline = expression.outline := by
  induction reaches with
  | refl => rfl
  | tail _ step hypothesis => rw [step.outline_eq, hypothesis]

theorem Expr.outline_foldConstants (expression : Expr) :
    expression.foldConstants.result.outline = expression.outline :=
  Folding.outline_eq_of_reaches (Folding.reaches_foldConstants expression)

theorem Expr.outline_reduced (expression : Expr) :
    expression.reduced.outline = expression.outline := by
  induction expression using childrenInduction with
  | node expression hypothesis =>
      rcases expression.reduced_cases with
        ⟨left, word, rfl, _, product⟩ | ⟨_, kept⟩
      · have leftOutline := hypothesis left List.mem_cons_self
        rw [product]
        show ((Expr.binary .multiply left (.literal (.int word))).withChildren
          [left.reduced, .literal (.int (exponentOf word))]).outline = _
        apply outline_withChildren
        simp only [children, List.map_cons, List.map_nil, leftOutline]
        rfl
      · rw [kept]
        apply outline_withChildren
        rw [List.map_map]
        exact List.map_congr_left hypothesis

theorem Stmt.outline_foldConstants (statement : Stmt) :
    statement.foldConstants.result.outline = statement.outline := by
  rw [Stmt.foldConstants, Stmt.transform_eq]
  apply outline_withHeld
  exact Transformed.map_result_traverse fun expression _ =>
    expression.outline_foldConstants

theorem Stmt.outline_reduced (statement : Stmt) :
    statement.reduced.outline = statement.outline := by
  cases statement with
  | function name parameters body =>
      exact congrArg (Stmt.function name parameters) body.outline_reduced
  | _ => rfl

/-! ## What a run makes of a program -/

/-- The name of the function that a heading starts, if it starts one. -/
def Heading.functionName? : Heading → Option String
  | .function name _ => some name
  | _ => none

/-- Whether a statement survives is told by its heading. -/
theorem Program.survives_eq (live : String → Bool) (statement : Stmt) :
    survives live statement =
      statement.heading.functionName?.all live := by
  cases statement <;> rfl

/-- A statement that is no function survives. -/
theorem Program.filter_survives_filter
    (live : String → Bool)
    (statements : List Stmt) :
    (statements.filter (survives live)).filter (!·.isFunction) =
      statements.filter (!·.isFunction) := by
  rw [List.filter_filter]
  apply List.filter_congr
  intro statement _
  cases statement <;> simp [survives, Stmt.isFunction, Stmt.function?]

theorem Program.filter_survives_eq_self
    {live : String → Bool}
    (all : ∀ name, live name = true)
    (statements : List Stmt) :
    statements.filter (survives live) = statements := by
  rw [List.filter_eq_self]
  intro statement _
  cases statement <;> simp [survives, Stmt.function?, all]

/-- Pruning restricts to live names and returns the names of the others. -/
theorem Program.exists_removeDeadFunctions_eq
    (program : Program)
    (entryPoint : Option String) :
    ∃ live : String → Bool,
      program.removeDeadFunctions entryPoint =
        { program := program.restrict live
          removed :=
            (program.functions.filter fun definition =>
              !live definition.name).map FunctionDef.name } ∧
      (entryPoint = none → ∀ name, live name = true) := by
  cases entryPoint with
  | none =>
      refine ⟨fun _ => true, ?_, fun _ _ => rfl⟩
      rw [restrict_eq_self fun _ _ => rfl]
      simp [removeDeadFunctions_none]
  | some entry =>
      refine ⟨fun name => name ∈ program.liveNames entry, ?_, by simp⟩
      rw [removeDeadFunctions_some, keepFunctions_eq]

namespace Options

/-- What a run makes of a single statement that it does not remove. -/
def rewrite (options : Options) (statement : Stmt) : Stmt :=
  if options.enables .strengthReduction then
    statement.foldConstants.result.reduced
  else if options.enables .constantFolding then
    statement.foldConstants.result
  else
    statement

theorem outline_rewrite (options : Options) (statement : Stmt) :
    (options.rewrite statement).outline = statement.outline := by
  unfold rewrite
  split
  · rw [Stmt.outline_reduced, Stmt.outline_foldConstants]
  · split
    · rw [Stmt.outline_foldConstants]
    · rfl

theorem rewrite_of_level_none
    {options : Options}
    (inactive : options.level = .none)
    (statement : Stmt) :
    options.rewrite statement = statement := by
  rw [rewrite, if_neg, if_neg]
  · intro folds
    exact level_ne_none_of_enables folds inactive
  · intro reduces
    exact level_ne_none_of_enables reduces inactive

theorem enables_constantFolding
    {options : Options}
    (active : options.level ≠ .none) :
    options.enables .constantFolding = true := by
  rcases options with ⟨level, entryPoint⟩
  cases level with
  | none => exact absurd rfl active
  | _ => rfl

theorem advance_restrict_foldConstants
    {options : Options}
    (active : options.level ≠ .none)
    {program : Program}
    {folds : Nat}
    (succeeds : program.foldConstants.count = .ok folds)
    (live : String → Bool) :
    options.advance (program.foldConstants.result.restrict live) =
      { program with
        statements :=
          (program.statements.filter (Program.survives live)).map
            options.rewrite } := by
  have folded :
      program.foldConstants.result.restrict live =
        { program with
          statements :=
            (program.statements.filter (Program.survives live)).map
              fun statement => statement.foldConstants.result } := by
    have survivors :
        Program.survives live ∘ (fun statement =>
            statement.foldConstants.result) =
          Program.survives live := by
      funext statement
      rw [Function.comp_apply, Program.survives_eq, ← Stmt.heading_outline,
        Stmt.outline_foldConstants, Stmt.heading_outline,
        ← Program.survives_eq]
    rw [Program.restrict, (Program.foldConstants_of_ok succeeds).1,
      List.filter_map, survivors]
    rfl
  rw [folded, advance]
  split
  · rename_i reduces
    rw [Program.reduced_eq, List.map_map]
    congr 2
    funext statement
    rw [rewrite, if_pos reduces]
    rfl
  · rename_i keeps
    congr 2
    funext statement
    rw [rewrite, if_neg keeps, if_pos (enables_constantFolding active)]

/-- A run that succeeds drops some functions and rewrites each other statement. -/
theorem exists_program_optimize_eq
    {options : Options}
    {program : Program}
    {statistics : Statistics}
    (succeeds : (options.optimize program).result = .ok statistics) :
    ∃ live : String → Bool,
      (options.optimize program).program =
        { program with
          statements :=
            (program.statements.filter (Program.survives live)).map
              options.rewrite } ∧
      (options.entryPoint = none ∨ options.level = .none →
        ∀ name, live name = true) := by
  rcases program_optimize_of_ok succeeds with
    ⟨inactive, same⟩ | ⟨active, _, folds, folding, after⟩
  · refine ⟨fun _ => true, ?_, fun _ _ => rfl⟩
    have rewritten : options.rewrite = id := by
      funext statement
      exact rewrite_of_level_none inactive statement
    rw [same, Program.filter_survives_eq_self (fun _ => rfl), rewritten,
      List.map_id]
  · rcases program.foldConstants.result.exists_removeDeadFunctions_eq
        options.entryPoint with ⟨live, pruned, whole⟩
    refine ⟨live, ?_, ?_⟩
    · rw [after, congrArg Pruned.program pruned,
        advance_restrict_foldConstants active folding]
    · rintro (entry | inactive)
      · exact whole entry
      · exact absurd inactive active

end Options

/-- Nothing but literals and operators on literals is different. -/
structure Stmt.KeepsSkeleton (before after : Stmt) : Prop where
  heading : after.heading = before.heading
  skeleton : after.skeleton = before.skeleton
  outline : after.outline = before.outline

theorem Stmt.KeepsSkeleton.of_outline_eq
    {before after : Stmt}
    (same : after.outline = before.outline) :
    before.KeepsSkeleton after where
  heading := by
    rw [← heading_outline, same, heading_outline]
  skeleton := by
    rw [← skeleton_outline, same, skeleton_outline]
  outline := same

/--
A run that succeeds keeps the module, and its statements are those of a sublist
of the program, one by one, that has every statement but for some functions, and
every statement if there is no entry point or nothing to be done.  Each of them
keeps its heading and its skeleton: only literals, and operators on literals,
are different.
-/
theorem Options.optimize_keeps_skeleton
    (options : Options)
    (program : Program)
    (succeeds :
      ∃ statistics, (options.optimize program).result = .ok statistics) :
    (options.optimize program).program.module = program.module ∧
    ∃ kept : List Stmt,
      kept.Sublist program.statements ∧
      kept.filter (!·.isFunction) =
        program.statements.filter (!·.isFunction) ∧
      (options.entryPoint = none ∨ options.level = .none →
        kept = program.statements) ∧
      List.Forall₂ Stmt.KeepsSkeleton kept
        (options.optimize program).program.statements := by
  rcases succeeds with ⟨statistics, succeeds⟩
  rcases exists_program_optimize_eq succeeds with ⟨live, after, whole⟩
  rw [after]
  refine ⟨rfl, program.statements.filter (Program.survives live),
    List.filter_sublist, Program.filter_survives_filter live _, ?_, ?_⟩
  · intro plain
    exact Program.filter_survives_eq_self (whole plain) _
  · rw [List.forall₂_map_right_iff, List.forall₂_same]
    intro statement _
    exact Stmt.KeepsSkeleton.of_outline_eq (options.outline_rewrite statement)

/-- A constant is folded, a product reduced, and a function removed. -/
theorem Options.optimize_keeps_skeleton_pruned :
    let options : Options :=
      { level := .aggressive, entryPoint := some "main" }
    let sum := Expr.binary .add (.literal (.int 2)) (.literal (.int 3))
    let body product argument :=
      Expr.block
        [.bind "y" (.binary .multiply (.ident "x") product),
          .expr (.loop (.ident "y") (.call (.ident "f") [argument]))]
    let program : Program :=
      ⟨"m", [.use "io",
        .function "main" ["x"] (body (.literal (.int 8)) sum),
        .function "unused" [] (.call (.ident "unused") [])]⟩
    (∃ statistics, (options.optimize program).result = .ok statistics) ∧
    (options.optimize program).program.statements =
      [.use "io",
        .function "main" ["x"]
          (body (.literal (.int 3)) (.literal (.int 5)))] ∧
    ∃ kept : List Stmt,
      kept.Sublist program.statements ∧
      List.Forall₂ Stmt.KeepsSkeleton kept
        (options.optimize program).program.statements := by
  intro options sum body program
  have succeeds :
      ∃ statistics, (options.optimize program).result = .ok statistics :=
    ⟨_, rfl⟩
  rcases (optimize_keeps_skeleton options program succeeds).2 with
    ⟨kept, sublist, _, _, same⟩
  exact ⟨succeeds, by cbv, kept, sublist, same⟩

end MiddleEnd
