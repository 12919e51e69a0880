import MiddleEnd.Proofs.Folding.NormalForm

/-!
# Folding keeps the meaning

An interpretation gives each form of expression and of statement a meaning in
terms of the meanings of its parts; nothing else is asked of it.  It respects
folding when an operator on literals means what the literal it folds to means.

Every run of folding, also one that a division by zero cuts short, leaves a
tree that is reached by steps of folding.  A step keeps the meaning of the node
at which it is taken, and a node has the meaning that its children give it, so
a run keeps the meaning of the whole.
-/

namespace MiddleEnd

open Relation

universe u v

/-- A meaning for each form of a program, in terms of the meanings of its parts. -/
structure Interpretation
    (Value Action : Type u)
    (Behaviour : Type v) where
  literal : Literal → Value
  ident : String → Value
  unary : UnaryOp → Value → Value
  binary : BinaryOp → Value → Value → Value
  call : Value → List Value → Value
  branch : Value → Value → Option Value → Value
  loop : Value → Value → Value
  block : List Action → Value
  assign : String → Value → Value
  expr : Value → Action
  bind : String → Value → Action
  ret : Option Value → Action
  function : String → List String → Value → Action
  use : String → Action
  program : String → List Action → Behaviour

namespace Interpretation

variable
  {Value Action : Type u}
  {Behaviour : Type v}

mutual

/-- The meaning of an expression. -/
def ofExpr (meaning : Interpretation Value Action Behaviour) : Expr → Value
  | .literal value => meaning.literal value
  | .ident name => meaning.ident name
  | .unary op operand => meaning.unary op (meaning.ofExpr operand)
  | .binary op left right =>
      meaning.binary op (meaning.ofExpr left) (meaning.ofExpr right)
  | .call callee arguments =>
      meaning.call (meaning.ofExpr callee) (meaning.ofExprs arguments)
  | .branch condition thenBranch elseBranch =>
      meaning.branch (meaning.ofExpr condition) (meaning.ofExpr thenBranch)
        (meaning.ofOption elseBranch)
  | .loop condition body =>
      meaning.loop (meaning.ofExpr condition) (meaning.ofExpr body)
  | .block statements => meaning.block (meaning.ofStmts statements)
  | .assign target value => meaning.assign target (meaning.ofExpr value)

/-- The meanings of the expressions of a list. -/
def ofExprs (meaning : Interpretation Value Action Behaviour) :
    List Expr → List Value
  | [] => []
  | expression :: rest => meaning.ofExpr expression :: meaning.ofExprs rest

/-- The meaning of an expression that may be missing. -/
def ofOption (meaning : Interpretation Value Action Behaviour) :
    Option Expr → Option Value
  | none => none
  | some expression => some (meaning.ofExpr expression)

/-- The meaning of a statement. -/
def ofStmt (meaning : Interpretation Value Action Behaviour) : Stmt → Action
  | .expr expression => meaning.expr (meaning.ofExpr expression)
  | .bind name value => meaning.bind name (meaning.ofExpr value)
  | .ret value => meaning.ret (meaning.ofOption value)
  | .function name parameters body =>
      meaning.function name parameters (meaning.ofExpr body)
  | .use path => meaning.use path

/-- The meanings of the statements of a list. -/
def ofStmts (meaning : Interpretation Value Action Behaviour) :
    List Stmt → List Action
  | [] => []
  | statement :: rest => meaning.ofStmt statement :: meaning.ofStmts rest

end

/-- The meaning of a program. -/
def ofProgram
    (meaning : Interpretation Value Action Behaviour)
    (program : Program) : Behaviour :=
  meaning.program program.module (meaning.ofStmts program.statements)

/-- An operator on literals means what the literal it folds to means. -/
structure RespectsFolding
    (meaning : Interpretation Value Action Behaviour) : Prop where
  unary :
    ∀ (op : UnaryOp) (value result : Literal),
      op.fold value = some result →
        meaning.unary op (meaning.literal value) = meaning.literal result
  binary :
    ∀ (op : BinaryOp) (left right result : Literal),
      op.fold left right = .ok (some result) →
        meaning.binary op (meaning.literal left) (meaning.literal right) =
          meaning.literal result

/-! ## The meaning of a node by its children -/

theorem ofExprs_eq_map
    (meaning : Interpretation Value Action Behaviour)
    (expressions : List Expr) :
    meaning.ofExprs expressions = expressions.map meaning.ofExpr := by
  induction expressions with
  | nil => rfl
  | cons expression rest hypothesis =>
      rw [ofExprs, hypothesis, List.map_cons]

theorem ofStmts_eq_map
    (meaning : Interpretation Value Action Behaviour)
    (statements : List Stmt) :
    meaning.ofStmts statements = statements.map meaning.ofStmt := by
  induction statements with
  | nil => rfl
  | cons statement rest hypothesis =>
      rw [ofStmts, hypothesis, List.map_cons]

variable {meaning : Interpretation Value Action Behaviour}

theorem ofStmt_withHeld
    {statement : Stmt}
    {expressions : List Expr}
    (same :
      expressions.map meaning.ofExpr = statement.held.map meaning.ofExpr) :
    meaning.ofStmt (statement.withHeld expressions) =
      meaning.ofStmt statement := by
  cases statement with
  | expr _ =>
      rcases List.map_eq_singleton_iff.1 same with ⟨other, rfl, equal⟩
      exact congrArg meaning.expr equal
  | bind name _ =>
      rcases List.map_eq_singleton_iff.1 same with ⟨other, rfl, equal⟩
      exact congrArg (meaning.bind name) equal
  | ret value =>
      cases value with
      | none => rfl
      | some _ =>
          rcases List.map_eq_singleton_iff.1 same with ⟨other, rfl, equal⟩
          exact congrArg (fun value => meaning.ret (some value)) equal
  | function name parameters _ =>
      rcases List.map_eq_singleton_iff.1 same with ⟨other, rfl, equal⟩
      exact congrArg (meaning.function name parameters) equal
  | use _ => rfl

theorem ofStmts_refill
    {statements : List Stmt}
    {expressions : List Expr}
    (same :
      expressions.map meaning.ofExpr =
        (statements.flatMap Stmt.held).map meaning.ofExpr) :
    meaning.ofStmts (Stmt.refill statements expressions) =
      meaning.ofStmts statements := by
  induction statements generalizing expressions with
  | nil => rfl
  | cons statement rest hypothesis =>
      rw [List.flatMap_cons, List.map_append] at same
      have arity :
          (statement.held.map meaning.ofExpr).length =
            statement.held.length :=
        List.length_map _
      have headSame :
          (expressions.take statement.held.length).map meaning.ofExpr =
            statement.held.map meaning.ofExpr := by
        rw [List.map_take, same, List.take_left' arity]
      have restSame :
          (expressions.drop statement.held.length).map meaning.ofExpr =
            (rest.flatMap Stmt.held).map meaning.ofExpr := by
        rw [List.map_drop, same, List.drop_left' arity]
      rw [Stmt.refill, ofStmts, ofStmts, ofStmt_withHeld headSame,
        hypothesis restSame]

/-- Children of the same meanings leave a node its meaning. -/
theorem ofExpr_withChildren
    {expression : Expr}
    {children : List Expr}
    (same :
      children.map meaning.ofExpr =
        expression.children.map meaning.ofExpr) :
    meaning.ofExpr (expression.withChildren children) =
      meaning.ofExpr expression := by
  cases expression with
  | literal _ => rfl
  | ident _ => rfl
  | unary op _ =>
      rcases List.map_eq_singleton_iff.1 same with ⟨operand, rfl, equal⟩
      exact congrArg (meaning.unary op) equal
  | binary op _ _ =>
      rcases List.map_eq_cons_iff.1 same with ⟨left, _, rfl, leftEqual, rest⟩
      rcases List.map_eq_singleton_iff.1 rest with ⟨right, rfl, rightEqual⟩
      exact congrArg₂ (meaning.binary op) leftEqual rightEqual
  | call _ _ =>
      rcases List.map_eq_cons_iff.1 same with
        ⟨callee, arguments, rfl, calleeEqual, argumentsEqual⟩
      rw [← ofExprs_eq_map, ← ofExprs_eq_map] at argumentsEqual
      exact congrArg₂ meaning.call calleeEqual argumentsEqual
  | branch _ _ elseBranch =>
      rcases List.map_eq_cons_iff.1 same with
        ⟨condition, _, rfl, conditionEqual, branches⟩
      rcases List.map_eq_cons_iff.1 branches with
        ⟨thenBranch, others, rfl, thenEqual, rest⟩
      cases elseBranch with
      | none =>
          rcases List.map_eq_nil_iff.1 rest with rfl
          exact congrArg₂
            (fun condition thenBranch =>
              meaning.branch condition thenBranch none)
            conditionEqual thenEqual
      | some _ =>
          rcases List.map_eq_singleton_iff.1 rest with
            ⟨elseBranch, rfl, elseEqual⟩
          show meaning.branch _ _ (some _) = meaning.branch _ _ (some _)
          rw [conditionEqual, thenEqual, elseEqual]
  | loop _ _ =>
      rcases List.map_eq_cons_iff.1 same with
        ⟨condition, _, rfl, conditionEqual, rest⟩
      rcases List.map_eq_singleton_iff.1 rest with ⟨body, rfl, bodyEqual⟩
      exact congrArg₂ meaning.loop conditionEqual bodyEqual
  | block statements =>
      exact congrArg meaning.block (ofStmts_refill same)
  | assign target _ =>
      rcases List.map_eq_singleton_iff.1 same with ⟨value, rfl, equal⟩
      exact congrArg (meaning.assign target) equal

end Interpretation

/-! ## The tree that a run leaves is reached by steps -/

/--
A relation between what a run is given and what it leaves holds entry by entry
along a list, if it also holds of an entry that the run does not get to.
-/
theorem Transformed.forall₂_traverse
    {ε α : Type}
    {relates : α → α → Prop}
    (untouched : ∀ entry, relates entry entry)
    {run : α → Transformed ε α}
    {entries : List α}
    (each : ∀ entry ∈ entries, relates entry (run entry).result) :
    List.Forall₂ relates entries (traverse run entries).result := by
  induction entries with
  | nil => exact List.Forall₂.nil
  | cons entry rest hypothesis =>
      rcases List.forall_mem_cons.1 each with ⟨here, others⟩
      cases outcome : (run entry).count with
      | error fault =>
          rw [traverse, andThen, outcome]
          exact List.Forall₂.cons here
            (List.forall₂_same.2 fun other _ => untouched other)
      | ok before =>
          rw [traverse, andThen, outcome]
          exact List.Forall₂.cons here (hypothesis others)

/-- What every single run keeps of its entry, a run along a list keeps. -/
theorem Transformed.map_result_traverse
    {ε α : Type}
    {β : Type u}
    {view : α → β}
    {run : α → Transformed ε α}
    {entries : List α}
    (each : ∀ entry ∈ entries, view (run entry).result = view entry) :
    (traverse run entries).result.map view = entries.map view := by
  have kept :
      List.Forall₂ (fun entry result => view result = view entry)
        entries (traverse run entries).result := by
    apply forall₂_traverse
    · intro entry
      rfl
    · exact each
  rw [← List.forall₂_eq_eq_eq, List.forall₂_map_left_iff,
    List.forall₂_map_right_iff]
  exact kept.flip

namespace Folding

theorem reaches_apply (node : Expr) :
    ReflTransGen Step node (rule.apply node).result := by
  cases verdict : rule node with
  | keep =>
      rw [Rule.apply, verdict]
  | replace result =>
      rw [Rule.apply, verdict]
      exact ReflTransGen.single (step_of_rule_eq_replace verdict)
  | stop fault =>
      rw [Rule.apply, verdict]

/-- Whatever its outcome, a run leaves an expression that is reached by steps. -/
theorem reaches_foldConstants (expression : Expr) :
    ReflTransGen Step expression expression.foldConstants.result := by
  induction expression using Expr.childrenInduction with
  | node expression hypothesis =>
      have below :
          ReflTransGen Step
            (expression.withChildren expression.children)
            (expression.withChildren
              (Transformed.traverse Expr.foldConstants
                expression.children).result) :=
        reaches_withChildren expression [] rfl
          (Transformed.forall₂_traverse (fun _ => ReflTransGen.refl) hypothesis)
      rw [Expr.withChildren_children] at below
      rw [foldConstants_eq]
      cases outcome :
          (Transformed.traverse Expr.foldConstants expression.children).count with
      | error fault =>
          simpa [Transformed.bind, Transformed.map, outcome] using below
      | ok before =>
          simpa [Transformed.bind, Transformed.map, outcome] using
            below.trans (reaches_apply _)

/-- A step keeps the meaning. -/
theorem Step.ofExpr_eq
    {Value Action : Type u}
    {Behaviour : Type v}
    {meaning : Interpretation Value Action Behaviour}
    (respects : meaning.RespectsFolding)
    {expression next : Expr}
    (step : Step expression next) :
    meaning.ofExpr next = meaning.ofExpr expression := by
  induction step with
  | unary folds => exact (respects.unary _ _ _ folds).symm
  | binary folds => exact (respects.binary _ _ _ _ folds).symm
  | @child expression child next before after position _ hypothesis =>
      apply Interpretation.ofExpr_withChildren
      rw [position, List.map_append, List.map_append, List.map_cons,
        List.map_cons, hypothesis]

theorem ofExpr_eq_of_reaches
    {Value Action : Type u}
    {Behaviour : Type v}
    {meaning : Interpretation Value Action Behaviour}
    (respects : meaning.RespectsFolding)
    {expression other : Expr}
    (reaches : ReflTransGen Step expression other) :
    meaning.ofExpr other = meaning.ofExpr expression := by
  induction reaches with
  | refl => rfl
  | tail _ step hypothesis => rw [step.ofExpr_eq respects, hypothesis]

end Folding

namespace Interpretation

variable
  {Value Action : Type u}
  {Behaviour : Type v}
  {meaning : Interpretation Value Action Behaviour}

theorem RespectsFolding.ofExpr_foldConstants
    (respects : meaning.RespectsFolding)
    (expression : Expr) :
    meaning.ofExpr expression.foldConstants.result =
      meaning.ofExpr expression :=
  Folding.ofExpr_eq_of_reaches respects
    (Folding.reaches_foldConstants expression)

theorem RespectsFolding.ofStmt_foldConstants
    (respects : meaning.RespectsFolding)
    (statement : Stmt) :
    meaning.ofStmt statement.foldConstants.result =
      meaning.ofStmt statement := by
  rw [Stmt.foldConstants, Stmt.transform_eq]
  apply ofStmt_withHeld
  exact Transformed.map_result_traverse fun expression _ =>
    respects.ofExpr_foldConstants expression

/--
Whatever an interpretation that respects folding makes of an expression or of a
program, it makes of the tree that folding leaves, whether the run succeeds or
is cut short by a division by zero.
-/
theorem foldConstants_preserves_meaning
    (meaning : Interpretation Value Action Behaviour)
    (respects : meaning.RespectsFolding) :
    (∀ expression : Expr,
      meaning.ofExpr expression.foldConstants.result =
        meaning.ofExpr expression) ∧
    (∀ program : Program,
      meaning.ofProgram program.foldConstants.result =
        meaning.ofProgram program) := by
  refine ⟨respects.ofExpr_foldConstants, ?_⟩
  intro program
  have statements :
      (Transformed.traverse Stmt.foldConstants program.statements).result.map
          meaning.ofStmt =
        program.statements.map meaning.ofStmt :=
    Transformed.map_result_traverse fun statement _ =>
      respects.ofStmt_foldConstants statement
  rw [← ofStmts_eq_map, ← ofStmts_eq_map] at statements
  exact congrArg (meaning.program program.module) statements

/-- The values of expressions whose names stand for given literals. -/
def evaluation (environment : String → Option Literal) :
    Interpretation (Option Literal) (Option Literal)
      (List (Option Literal)) where
  literal := some
  ident := environment
  unary op operand := operand.bind op.fold
  binary op left right :=
    left.bind fun first =>
      right.bind fun second =>
        match op.fold first second with
        | .ok result => result
        | .error _ => none
  call _ arguments := arguments.getLast?.join
  branch condition thenBranch elseBranch :=
    match condition with
    | some (.bool true) => thenBranch
    | some (.bool false) => elseBranch.join
    | _ => none
  loop _ _ := none
  block actions := actions.getLast?.join
  assign _ value := value
  expr value := value
  bind _ value := value
  ret value := value.join
  function _ _ _ := none
  use _ := none
  program _ actions := actions

theorem respectsFolding_evaluation (environment : String → Option Literal) :
    (evaluation environment).RespectsFolding where
  unary op value result folds := folds
  binary op left right result folds := by
    show (match op.fold left right with
      | .ok result => result
      | .error _ => none) = some result
    rw [folds]

/--
The run stops at the remainder by zero in the second argument, with the first
one folded and the third left as it was; the values stay.
-/
theorem foldConstants_preserves_meaning_evaluation :
    let product := Expr.binary .multiply (.ident "x") (.literal (.int 5))
    let sum := Expr.binary .add (.literal (.int 1)) (.literal (.int 2))
    let difference :=
      Expr.binary .subtract (.literal (.int 3)) (.literal (.int 3))
    let remainder := Expr.binary .modulo (.literal (.int 7))
    let before : Program :=
      ⟨"", [.expr (.call (.ident "f") [sum, remainder difference, product]),
        .ret (some sum)]⟩
    let after : Program :=
      ⟨"", [.expr (.call (.ident "f")
          [.literal (.int 3), remainder (.literal (.int 0)), product]),
        .ret (some sum)]⟩
    let meaning := evaluation fun _ => some (.int 4)
    meaning.RespectsFolding ∧
    before.foldConstants = ⟨after, .error .moduloByZero⟩ ∧
    meaning.ofProgram after = meaning.ofProgram before ∧
    meaning.ofProgram before = [some (.int 20), some (.int 3)] := by
  intro product sum difference remainder before after meaning
  have stops : before.foldConstants = ⟨after, .error .moduloByZero⟩ := rfl
  have kept :=
    (foldConstants_preserves_meaning meaning
      (respectsFolding_evaluation _)).2 before
  rw [stops] at kept
  exact ⟨respectsFolding_evaluation _, stops, kept, rfl⟩

end Interpretation

end MiddleEnd
