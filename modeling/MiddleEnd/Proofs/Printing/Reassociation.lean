import Mathlib.Data.List.Forall2
import MiddleEnd.Proofs.Children
import MiddleEnd.Tree.Printer

/-!
# Operators that can be regrouped without a change of text

A right operand of the same precedence is written without parentheses unless
the operator is a subtraction, a division or a remainder.  The text of
`left outer (middle inner right)` is then also that of
`(left outer middle) inner right`.  `Reassociated` is the congruence that such
rotations generate on names, numbers, operators and calls; expressions that it
relates have one text.

Rotating to the left as often as possible ends in one left-rotated expression,
which `Expr.leftRotated` computes from the leaves up.
-/

namespace MiddleEnd

/-- The inner operator of a right operand is written as if it came later. -/
def BinaryOp.Regroups (outer inner : BinaryOp) : Prop :=
  outer.precedence = inner.precedence ∧
    outer ≠ .subtract ∧ outer ≠ .divide ∧ outer ≠ .modulo

instance (outer inner : BinaryOp) : Decidable (outer.Regroups inner) :=
  inferInstanceAs (Decidable (_ ∧ _))

/-- The other operators group a right operand that binds as tightly. -/
theorem BinaryOp.groupsRight_eq_false_iff (op : BinaryOp) :
    op.groupsRight = false ↔ op ≠ .subtract ∧ op ≠ .divide ∧ op ≠ .modulo := by
  cases op <;> decide

/-- The least congruence that relates the two groupings. -/
inductive Reassociated : Expr → Expr → Prop where
  | rotate {outer inner : BinaryOp}
      (regroups : outer.Regroups inner)
      (left middle right : Expr) :
      Reassociated
        (.binary outer left (.binary inner middle right))
        (.binary inner (.binary outer left middle) right)
  | unary (op : UnaryOp) {operand other : Expr}
      (inside : Reassociated operand other) :
      Reassociated (.unary op operand) (.unary op other)
  | left (op : BinaryOp) {operand other : Expr} (right : Expr)
      (inside : Reassociated operand other) :
      Reassociated (.binary op operand right) (.binary op other right)
  | right (op : BinaryOp) (left : Expr) {operand other : Expr}
      (inside : Reassociated operand other) :
      Reassociated (.binary op left operand) (.binary op left other)
  | callee {callee other : Expr} (arguments : List Expr)
      (inside : Reassociated callee other) :
      Reassociated (.call callee arguments) (.call other arguments)
  | argument (callee : Expr) (before : List Expr) {argument other : Expr}
      (after : List Expr)
      (inside : Reassociated argument other) :
      Reassociated
        (.call callee (before ++ argument :: after))
        (.call callee (before ++ other :: after))
  | refl (expression : Expr) : Reassociated expression expression
  | symm {expression other : Expr}
      (reassociated : Reassociated expression other) :
      Reassociated other expression
  | trans {first second third : Expr}
      (before : Reassociated first second)
      (after : Reassociated second third) :
      Reassociated first third

/-! ## One text -/

@[simp]
theorem Expr.precedence_binary (op : BinaryOp) (left right : Expr) :
    (Expr.binary op left right).precedence = op.precedence :=
  rfl

namespace Reassociated

theorem precedence_eq
    {expression other : Expr}
    (reassociated : Reassociated expression other) :
    expression.precedence = other.precedence := by
  induction reassociated with
  | rotate regroups => exact regroups.1
  | symm _ hypothesis => exact hypothesis.symm
  | trans _ _ before after => exact before.trans after
  | _ => rfl

theorem render_eq
    {expression other : Expr}
    (reassociated : Reassociated expression other)
    (level : Int32) :
    expression.render level = other.render level := by
  induction reassociated with
  | @rotate outer inner regroups left middle right =>
      have same := regroups.1
      have free := outer.groupsRight_eq_false_iff.2 regroups.2
      simp [Expr.render, same, free, parenthesize, String.append_assoc]
  | unary op inside hypothesis =>
      rw [Expr.render, Expr.render, hypothesis, inside.precedence_eq]
  | left op right inside hypothesis =>
      rw [Expr.render, Expr.render, hypothesis, inside.precedence_eq]
  | right op left inside hypothesis =>
      rw [Expr.render, Expr.render, hypothesis, inside.precedence_eq]
  | callee arguments inside hypothesis =>
      rw [Expr.render, Expr.render, hypothesis, inside.precedence_eq]
  | argument callee before after inside hypothesis =>
      simp only [Expr.render, Expr.renderList_eq_map, List.map_append,
        List.map_cons, hypothesis]
  | refl => rfl
  | symm _ hypothesis => exact hypothesis.symm
  | trans _ _ before after => exact before.trans after

theorem source_eq
    {expression other : Expr}
    (reassociated : Reassociated expression other) :
    expression.source = other.source :=
  reassociated.render_eq 0

end Reassociated

/-! ## Rotating to the left -/

namespace Expr

/--
The operator applied to a left and a right operand, with the left one moved
down to the first operand that the text of the right one shows.
-/
def graft (op : BinaryOp) (left : Expr) : Expr → Expr
  | .binary inner middle right =>
      if op.Regroups inner then
        .binary inner (graft op left middle) right
      else
        .binary op left (.binary inner middle right)
  | right => .binary op left right

/-- Grafts every right operand. -/
def rotation : Rule Empty
  | .binary op left right => .replace (graft op left right)
  | _ => .keep

/-- The expression with all that can be rotated to the left rotated there. -/
def leftRotated (expression : Expr) : Expr :=
  (expression.transform rotation).result

theorem leftRotated_ident (name : String) :
    (Expr.ident name).leftRotated = .ident name :=
  rfl

theorem leftRotated_literal (value : Literal) :
    (Expr.literal value).leftRotated = .literal value :=
  rfl

theorem leftRotated_unary (op : UnaryOp) (operand : Expr) :
    (Expr.unary op operand).leftRotated = .unary op operand.leftRotated :=
  result_transform rotation (.unary op operand)

theorem leftRotated_binary (op : BinaryOp) (left right : Expr) :
    (Expr.binary op left right).leftRotated =
      graft op left.leftRotated right.leftRotated :=
  result_transform rotation (.binary op left right)

theorem leftRotated_call (callee : Expr) (arguments : List Expr) :
    (Expr.call callee arguments).leftRotated =
      .call callee.leftRotated (arguments.map leftRotated) :=
  result_transform rotation (.call callee arguments)

/-- An operator that the text shows before the one of its right operand. -/
def Rotatable : Expr → Prop
  | .binary outer _ (.binary inner _ _) => outer.Regroups inner
  | _ => False

/-- Nothing in the expression can be rotated to the left. -/
def LeftRotated (expression : Expr) : Prop :=
  ∀ node ∈ expression.subexprs, ¬ node.Rotatable

theorem leftRotated_iff (expression : Expr) :
    expression.LeftRotated ↔
      ¬ expression.Rotatable ∧
        ∀ child ∈ expression.children, child.LeftRotated :=
  expression.forall_subexprs_iff

theorem leftRotated_binary_iff (op : BinaryOp) (left right : Expr) :
    (Expr.binary op left right).LeftRotated ↔
      ¬ (Expr.binary op left right).Rotatable ∧
        left.LeftRotated ∧ right.LeftRotated := by
  rw [leftRotated_iff]
  simp [children]

theorem LeftRotated.graft
    {op : BinaryOp}
    {left right : Expr}
    (leftDone : left.LeftRotated)
    (rightDone : right.LeftRotated) :
    (graft op left right).LeftRotated := by
  fun_induction Expr.graft op left right with
  | case1 inner middle right regroups hypothesis =>
      rcases (leftRotated_binary_iff inner middle right).1 rightDone with
        ⟨here, middleDone, lastDone⟩
      rw [leftRotated_binary_iff]
      -- The last operand stays where it was, so it still cannot be rotated.
      refine ⟨?_, hypothesis middleDone, lastDone⟩
      cases right <;> exact here
  | case2 inner middle right keeps =>
      rw [leftRotated_binary_iff]
      exact ⟨keeps, leftDone, rightDone⟩
  | case3 right single =>
      rw [leftRotated_binary_iff]
      refine ⟨?_, leftDone, rightDone⟩
      cases right with
      | binary inner middle last => exact absurd rfl (single inner middle last)
      | _ => exact id

end Expr

/-! ## Names, numbers, operators and calls -/

/-- An expression of names, numbers, operators and calls. -/
inductive Plain : Expr → Prop where
  | ident {name : String}
      (nonempty : name ≠ "")
      (letters : ∀ letter ∈ name.toList, letter.isAlpha = true) :
      Plain (.ident name)
  | number {value : Int64} (nonnegative : 0 ≤ value) :
      Plain (.literal (.int value))
  | unary (op : UnaryOp) {operand : Expr}
      (inside : Plain operand) :
      Plain (.unary op operand)
  | binary (op : BinaryOp) {left right : Expr}
      (leftPlain : Plain left)
      (rightPlain : Plain right) :
      Plain (.binary op left right)
  | call {callee : Expr} {arguments : List Expr}
      (calleePlain : Plain callee)
      (argumentsPlain : ∀ argument ∈ arguments, Plain argument) :
      Plain (.call callee arguments)

namespace Plain

theorem graft
    {op : BinaryOp}
    {left right : Expr}
    (leftPlain : Plain left)
    (rightPlain : Plain right) :
    Plain (Expr.graft op left right) := by
  fun_induction Expr.graft op left right with
  | case1 inner middle right regroups hypothesis =>
      cases rightPlain with
      | binary _ middlePlain lastPlain =>
          exact binary inner (hypothesis middlePlain) lastPlain
  | case2 => exact binary op leftPlain rightPlain
  | case3 => exact binary op leftPlain rightPlain

theorem leftRotated
    {expression : Expr}
    (plain : Plain expression) :
    Plain expression.leftRotated := by
  induction plain with
  | ident nonempty letters => exact ident nonempty letters
  | number nonnegative => exact number nonnegative
  | unary op _ hypothesis =>
      rw [Expr.leftRotated_unary]
      exact unary op hypothesis
  | binary op _ _ left right =>
      rw [Expr.leftRotated_binary]
      exact left.graft right
  | call _ _ callee arguments =>
      rw [Expr.leftRotated_call]
      refine call callee ?_
      intro argument member
      rcases List.mem_map.1 member with ⟨old, oldMember, rfl⟩
      exact arguments old oldMember

/-- The left-rotated form has nothing left to rotate. -/
theorem leftRotated_leftRotated
    {expression : Expr}
    (plain : Plain expression) :
    expression.leftRotated.LeftRotated := by
  induction plain with
  | ident =>
      rw [Expr.leftRotated_ident, Expr.leftRotated_iff]
      exact ⟨id, by simp [Expr.children]⟩
  | number =>
      rw [Expr.leftRotated_literal, Expr.leftRotated_iff]
      exact ⟨id, by simp [Expr.children]⟩
  | unary op _ hypothesis =>
      rw [Expr.leftRotated_unary, Expr.leftRotated_iff]
      exact ⟨id, by simpa [Expr.children] using hypothesis⟩
  | binary op _ _ left right =>
      rw [Expr.leftRotated_binary]
      exact left.graft right
  | call _ _ callee arguments =>
      rw [Expr.leftRotated_call, Expr.leftRotated_iff]
      exact ⟨id, by simpa [Expr.children] using ⟨callee, arguments⟩⟩

end Plain

namespace Reassociated

theorem graft (op : BinaryOp) (left right : Expr) :
    Reassociated (.binary op left right) (Expr.graft op left right) := by
  fun_induction Expr.graft op left right with
  | case1 inner middle right regroups hypothesis =>
      exact (rotate regroups left middle right).trans
        (Reassociated.left inner right hypothesis)
  | case2 => exact refl _
  | case3 => exact refl _

theorem arguments
    (callee : Expr)
    (before : List Expr)
    {arguments others : List Expr}
    (inside : List.Forall₂ Reassociated arguments others) :
    Reassociated
      (.call callee (before ++ arguments))
      (.call callee (before ++ others)) := by
  induction inside generalizing before with
  | nil => exact refl _
  | @cons argument other rest restOthers here _ hypothesis =>
      have next := hypothesis (before ++ [other])
      simp only [List.append_assoc, List.singleton_append] at next
      exact (Reassociated.argument callee before rest here).trans next

/-- An expression can be regrouped into its left-rotated form. -/
theorem leftRotated
    {expression : Expr}
    (plain : Plain expression) :
    Reassociated expression expression.leftRotated := by
  induction plain with
  | ident => exact refl _
  | number => exact refl _
  | unary op _ hypothesis =>
      rw [Expr.leftRotated_unary]
      exact unary op hypothesis
  | @binary op left right _ _ leftHypothesis rightHypothesis =>
      rw [Expr.leftRotated_binary]
      exact ((Reassociated.left op right leftHypothesis).trans
        (Reassociated.right op left.leftRotated rightHypothesis)).trans
          (graft op left.leftRotated right.leftRotated)
  | @call callee arguments _ _ calleeHypothesis hypothesis =>
      have inside :
          List.Forall₂ Reassociated arguments
            (arguments.map Expr.leftRotated) := by
        rw [List.forall₂_map_right_iff, List.forall₂_same]
        exact hypothesis
      rw [Expr.leftRotated_call]
      exact (Reassociated.callee arguments calleeHypothesis).trans
        (Reassociated.arguments callee.leftRotated [] inside)

end Reassociated

end MiddleEnd
