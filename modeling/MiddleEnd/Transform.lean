import MiddleEnd.Tree.Basic

/-!
# Transformation from the leaves up

A rule looks at one node and keeps it, replaces it or stops the run with a
fault.  `Expr.transform` applies a rule to every node of a tree, children first
and in source order.  A run that stops leaves a tree in which everything
before the faulty node has been transformed and everything after it has not.
-/

namespace MiddleEnd

/-- What a rule makes of a node. -/
inductive Verdict (ε : Type) where
  /-- The node stays. -/
  | keep
  /-- The node is replaced. -/
  | replace (result : Expr)
  /-- The run ends here. -/
  | stop (fault : ε)

/-- A rule for single nodes. -/
abbrev Rule (ε : Type) : Type :=
  Expr → Verdict ε

/-- What a run leaves behind. -/
structure Transformed (ε α : Type) where
  /-- The result, as far as the run got. -/
  result : α
  /-- The number of replacements, or the fault that ended the run. -/
  count : Except ε Nat

namespace Transformed

variable {ε α β γ : Type}

/-- A run with nothing to do. -/
def unchanged (result : α) : Transformed ε α :=
  ⟨result, .ok 0⟩

/-- The run seen inside a larger result. -/
def map (build : α → β) (run : Transformed ε α) : Transformed ε β :=
  ⟨build run.result, run.count⟩

/--
Two runs, one after the other.  If the first one stops, the second does not
take place and its part is left as it was, which is `untouched`.
-/
def andThen
    (build : α → β → γ)
    (first : Transformed ε α)
    (untouched : β)
    (second : Transformed ε β) : Transformed ε γ :=
  match first.count with
  | .error fault => ⟨build first.result untouched, .error fault⟩
  | .ok before =>
      ⟨build first.result second.result, second.count.map (before + ·)⟩

/-- A run followed by one that works on its result. -/
def bind
    (first : Transformed ε α)
    (next : α → Transformed ε α) : Transformed ε α :=
  match first.count with
  | .error fault => ⟨first.result, .error fault⟩
  | .ok before =>
      let second := next first.result
      ⟨second.result, second.count.map (before + ·)⟩

/-- Runs over the entries of a list, in order, until one of them stops. -/
def traverse (run : α → Transformed ε α) : List α → Transformed ε (List α)
  | [] => unchanged []
  | entry :: rest => andThen List.cons (run entry) rest (traverse run rest)

/-- Runs over the entries of a list, each known to be one of them. -/
def traverseMem :
    (entries : List α) →
    (run : (entry : α) → entry ∈ entries → Transformed ε α) →
    Transformed ε (List α)
  | [], _ => unchanged []
  | entry :: rest, run =>
      andThen List.cons (run entry List.mem_cons_self) rest
        (traverseMem rest fun later member =>
          run later (List.mem_cons_of_mem entry member))

theorem traverseMem_eq_traverse
    (run : α → Transformed ε α)
    (entries : List α) :
    traverseMem entries (fun entry _ => run entry) = traverse run entries := by
  induction entries with
  | nil => rfl
  | cons entry rest hypothesis => rw [traverseMem, traverse, hypothesis]

/-- The number of replacements of a run that cannot stop. -/
def total (run : Transformed Empty α) : Nat :=
  match run.count with
  | .ok count => count

end Transformed

/-- One application of a rule, as a run. -/
def Rule.apply {ε : Type} (rule : Rule ε) (node : Expr) : Transformed ε Expr :=
  match rule node with
  | .keep => ⟨node, .ok 0⟩
  | .replace result => ⟨result, .ok 1⟩
  | .stop fault => ⟨node, .error fault⟩

mutual

/-- Applies a rule to every node of an expression, children first. -/
def Expr.transform {ε : Type} (rule : Rule ε) : Expr → Transformed ε Expr
  | .literal value => rule.apply (.literal value)
  | .ident name => rule.apply (.ident name)
  | .unary op operand =>
      ((operand.transform rule).map (Expr.unary op)).bind rule.apply
  | .binary op left right =>
      (Transformed.andThen (Expr.binary op)
        (left.transform rule) right (right.transform rule)).bind rule.apply
  | .call callee arguments =>
      (Transformed.andThen Expr.call
        (callee.transform rule)
        arguments (Expr.transformList rule arguments)).bind rule.apply
  | .branch condition thenBranch elseBranch =>
      (Transformed.andThen
        (fun condition branches => Expr.branch condition branches.1 branches.2)
        (condition.transform rule)
        (thenBranch, elseBranch)
        (Transformed.andThen Prod.mk
          (thenBranch.transform rule)
          elseBranch (Expr.transformOption rule elseBranch))).bind rule.apply
  | .loop condition body =>
      (Transformed.andThen Expr.loop
        (condition.transform rule) body (body.transform rule)).bind rule.apply
  | .block statements =>
      ((Stmt.transformList rule statements).map Expr.block).bind rule.apply
  | .assign target value =>
      ((value.transform rule).map (Expr.assign target)).bind rule.apply

/-- Transforms the expressions of a list, in order. -/
def Expr.transformList {ε : Type} (rule : Rule ε) :
    List Expr → Transformed ε (List Expr)
  | [] => .unchanged []
  | expression :: rest =>
      Transformed.andThen List.cons
        (expression.transform rule) rest (Expr.transformList rule rest)

/-- Transforms an expression that may be missing. -/
def Expr.transformOption {ε : Type} (rule : Rule ε) :
    Option Expr → Transformed ε (Option Expr)
  | none => .unchanged none
  | some expression => (expression.transform rule).map some

/-- Transforms the expression that a statement holds. -/
def Stmt.transform {ε : Type} (rule : Rule ε) : Stmt → Transformed ε Stmt
  | .expr expression => (expression.transform rule).map Stmt.expr
  | .bind name value => (value.transform rule).map (Stmt.bind name)
  | .ret value => (Expr.transformOption rule value).map Stmt.ret
  | .function name parameters body =>
      (body.transform rule).map (Stmt.function name parameters)
  | .use path => .unchanged (.use path)

/-- Transforms the statements of a list, in order. -/
def Stmt.transformList {ε : Type} (rule : Rule ε) :
    List Stmt → Transformed ε (List Stmt)
  | [] => .unchanged []
  | statement :: rest =>
      Transformed.andThen List.cons
        (statement.transform rule) rest (Stmt.transformList rule rest)

end

theorem Expr.transformList_eq_traverse
    {ε : Type}
    (rule : Rule ε)
    (expressions : List Expr) :
    Expr.transformList rule expressions =
      Transformed.traverse (Expr.transform rule) expressions := by
  induction expressions with
  | nil => rfl
  | cons expression rest hypothesis =>
      rw [Expr.transformList, Transformed.traverse, hypothesis]

theorem Stmt.transformList_eq_traverse
    {ε : Type}
    (rule : Rule ε)
    (statements : List Stmt) :
    Stmt.transformList rule statements =
      Transformed.traverse (Stmt.transform rule) statements := by
  induction statements with
  | nil => rfl
  | cons statement rest hypothesis =>
      rw [Stmt.transformList, Transformed.traverse, hypothesis]

/-- Runs over the top-level statements of a program, in order. -/
def Program.transformWith
    {ε : Type}
    (run : Stmt → Transformed ε Stmt)
    (program : Program) : Transformed ε Program :=
  (Transformed.traverse run program.statements).map fun statements =>
    { program with statements }

end MiddleEnd
