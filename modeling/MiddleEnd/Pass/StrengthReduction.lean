import MiddleEnd.Transform
import MiddleEnd.Tree.Walk

/-!
# Strength reduction

A multiplication whose right operand is a literal power of two is marked for a
shift: the exponent takes the place of the literal, and the operator stays.  The
exponent is counted by halving the word as long as more than one is left of it.
A node is rewritten before the nodes below it are visited.
-/

namespace MiddleEnd

/--
Whether a word is a power of two, by its bits, for any way to subtract.  The sign
is looked at first, and nothing is subtracted from a word that is not positive.
-/
def testPowerOfTwo
    {f : Type → Type}
    [Applicative f]
    (subtract : Int64 → Int64 → f Int64)
    (word : Int64) : f Bool :=
  if 0 < word then
    (fun predecessor => word &&& predecessor == 0) <$> subtract word 1
  else
    pure false

/-- Whether the word is a power of two, where differences wrap. -/
def isPowerOfTwo (word : Int64) : Bool :=
  Id.run (testPowerOfTwo (fun left right => pure (left - right)) word)

/-- How far a word has been halved. -/
structure Halving where
  /-- What is left of the word. -/
  rest : Int64
  /-- The number of halvings. -/
  count : Int64

namespace Halving

/-- One more halving, if more than one is left. -/
def next? (state : Halving) : Option Halving :=
  if 1 < state.rest then
    some ⟨state.rest >>> 1, state.count + 1⟩
  else
    none

theorem next?_eq_some_iff (state next : Halving) :
    state.next? = some next ↔
      1 < state.rest ∧ ⟨state.rest >>> 1, state.count + 1⟩ = next := by
  rw [next?, Option.ite_none_right_eq_some, Option.some_inj]

theorem toInt_shiftRight_one (word : Int64) :
    (word >>> 1).toInt = word.toInt / 2 := by
  rw [← Int64.toInt_toBitVec, Int64.toBitVec_shiftRight,
    BitVec.toInt_sshiftRight', Int64.toInt_toBitVec, Int.shiftRight_eq_div_pow]
  rfl

theorem toNatClampNeg_shiftRight_one (word : Int64) :
    (word >>> 1).toNatClampNeg = word.toNatClampNeg / 2 := by
  rw [Int64.toNatClampNeg, toInt_shiftRight_one, Int64.toNatClampNeg]
  omega

/-- A halving leaves less than there was. -/
theorem toNatClampNeg_rest_lt
    {state next : Halving}
    (halved : state.next? = some next) :
    next.rest.toNatClampNeg < state.rest.toNatClampNeg := by
  rcases (next?_eq_some_iff state next).1 halved with ⟨more, rfl⟩
  rw [toNatClampNeg_shiftRight_one]
  apply Nat.div_lt_self _ (Nat.lt_succ_self 1)
  rw [Int64.toNatClampNeg_pos_iff]
  exact Int64.lt_trans (by decide) more

/-- Halves until no more than one is left. -/
def finish (state : Halving) : Halving :=
  match _ : state.next? with
  | some next => next.finish
  | none => state
termination_by state.rest.toNatClampNeg
decreasing_by
  rename_i halved
  exact toNatClampNeg_rest_lt halved

end Halving

/-- The exponent of a word that is a power of two. -/
def exponentOf (word : Int64) : Int64 :=
  (Halving.finish ⟨word, 0⟩).count

namespace StrengthReduction

/-- What the reduction makes of a node. -/
def rule : Rule Empty
  | .binary .multiply left (.literal (.int word)) =>
      if isPowerOfTwo word then
        .replace (.binary .multiply left (.literal (.int (exponentOf word))))
      else
        .keep
  | _ => .keep

/-- A literal takes the place of a literal. -/
theorem length_subexprs_apply (node : Expr) :
    (rule.apply node).result.subexprs.length = node.subexprs.length := by
  fun_cases rule node with
  | case1 left word power => simp [Rule.apply, rule, power, Expr.subexprs]
  | case2 left word other => simp [Rule.apply, rule, other]
  | case3 => simp [Rule.apply, rule, *]

end StrengthReduction

/--
Reduces the multiplications of an expression.  A node is rewritten before its
children are visited, and they are the children that it has then.
-/
def Expr.reduceStrength (expression : Expr) : Transformed Empty Expr :=
  let node := StrengthReduction.rule.apply expression
  .andThen Expr.withChildren node node.result.children
    (.traverseMem node.result.children fun child _ => child.reduceStrength)
termination_by expression.subexprs.length
decreasing_by
  rename_i member
  rw [← StrengthReduction.length_subexprs_apply expression]
  exact Expr.length_subexprs_lt member

/-- Reduces the body of a function statement and leaves all others alone. -/
def Stmt.reduceStrength : Stmt → Transformed Empty Stmt
  | .function name parameters body =>
      body.reduceStrength.map (Stmt.function name parameters)
  | statement => .unchanged statement

/-- Reduces the bodies of the functions at the top of a program. -/
def Program.reduceStrength (program : Program) : Transformed Empty Program :=
  program.transformWith Stmt.reduceStrength

end MiddleEnd
