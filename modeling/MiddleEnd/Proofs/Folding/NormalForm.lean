import MiddleEnd.Proofs.Folding.Rewriting

/-!
# What a run of folding computes

A run folds from the leaves up in one pass and stops at the first division by
a literal zero.  It is compared with the normal form, which may be reached by
steps in any order: the run succeeds exactly if the normal form has no such
division, and then leaves the normal form; otherwise it fails with the fault of
the first division by zero that the normal form has.

An operator that folds or faults has literals for operands, so nothing below it
can fault.  This is why looking for faults in the normal form, where every node
stands before its children, agrees with a run that meets children first.
-/

namespace MiddleEnd

open Relation

/-- Two patterns are zeros. -/
theorem Number.Binary64.isZero_iff (number : Binary64) :
    number.isZero = true ↔
      number.bits = 0 ∨ number.bits = 0x8000000000000000 := by
  have bounded := number.bits.toNat_lt
  have fields :
      number.isZero = true ↔
        number.bits.toNat / 2 ^ 52 % 2 ^ 11 = 0 ∧
          number.bits.toNat % 2 ^ 52 = 0 := by
    rw [isZero, Bool.and_eq_true, decide_eq_true_iff, decide_eq_true_iff]
    rfl
  rw [fields, ← UInt64.toNat_inj, ← UInt64.toNat_inj]
  show _ ↔ number.bits.toNat = 0 ∨ number.bits.toNat = 2 ^ 63
  omega

namespace Folding

/-- A literal divided by zero, with what is said about it. -/
inductive ZeroDivision : Expr → String → Prop where
  | divideInt (left : Int64) :
      ZeroDivision
        (.binary .divide (.literal (.int left)) (.literal (.int 0)))
        "division by zero"
  | moduloInt (left : Int64) :
      ZeroDivision
        (.binary .modulo (.literal (.int left)) (.literal (.int 0)))
        "modulo by zero"
  | divideFloat
      (left right : Number.Binary64)
      (zero : right.bits = 0 ∨ right.bits = 0x8000000000000000) :
      ZeroDivision
        (.binary .divide (.literal (.float left)) (.literal (.float right)))
        "division by zero"

theorem zeroDivision_of_fold
    {op : BinaryOp}
    {left right : Literal}
    {fault : ArithmeticFault}
    (faults : op.fold left right = .error fault) :
    ZeroDivision (.binary op (.literal left) (.literal right))
      fault.message := by
  cases left <;> cases right <;> simp only [BinaryOp.fold, reduceCtorEq] at faults
  case int.int left right =>
    cases op <;> simp only [BinaryOp.foldInt, reduceCtorEq] at faults
    case divide =>
      split at faults
      · rename_i zero
        cases faults
        rw [zero]
        exact ZeroDivision.divideInt left
      · split at faults <;> cases faults
    case modulo =>
      split at faults
      · rename_i zero
        cases faults
        rw [zero]
        exact ZeroDivision.moduloInt left
      · split at faults <;> cases faults
  case float.float left right =>
    cases op <;> simp only [BinaryOp.foldFloat, reduceCtorEq] at faults
    case divide =>
      split at faults
      · rename_i zero
        cases faults
        exact ZeroDivision.divideFloat left right (right.isZero_iff.1 zero)
      · cases faults

/-- The fault of a node, if the rule stops at it. -/
def faultOf (node : Expr) : Option ArithmeticFault :=
  match rule node with
  | .stop fault => some fault
  | _ => none

theorem faultOf_eq_some_iff (node : Expr) (fault : ArithmeticFault) :
    faultOf node = some fault ↔ ZeroDivision node fault.message := by
  constructor
  · intro faults
    unfold faultOf rule at faults
    split at faults
    · rename_i verdict
      split at verdict
      · split at verdict <;> cases verdict
      · rename_i op left right
        split at verdict <;> cases verdict
        rename_i folds
        cases faults
        exact zeroDivision_of_fold folds
      · cases verdict
    · cases faults
  · intro division
    generalize said : fault.message = text at division
    cases division with
    | divideInt left =>
        cases fault with
        | divisionByZero => rfl
        | moduloByZero => simp [ArithmeticFault.message] at said
    | moduloInt left =>
        cases fault with
        | divisionByZero => simp [ArithmeticFault.message] at said
        | moduloByZero => rfl
    | divideFloat left right zero =>
        cases fault with
        | divisionByZero =>
            simp [faultOf, rule, BinaryOp.fold, BinaryOp.foldFloat,
              right.isZero_iff.2 zero]
        | moduloByZero => simp [ArithmeticFault.message] at said

theorem ZeroDivision.exists_fault
    {node : Expr}
    {text : String}
    (division : ZeroDivision node text) :
    ∃ fault : ArithmeticFault, fault.message = text := by
  cases division with
  | divideInt => exact ⟨.divisionByZero, rfl⟩
  | moduloInt => exact ⟨.moduloByZero, rfl⟩
  | divideFloat => exact ⟨.divisionByZero, rfl⟩

theorem faultOf_eq_none_iff (node : Expr) :
    faultOf node = none ↔ ∀ text, ¬ ZeroDivision node text := by
  constructor
  · intro sound text division
    rcases division.exists_fault with ⟨fault, rfl⟩
    rw [(faultOf_eq_some_iff node fault).2 division] at sound
    cases sound
  · intro sound
    cases faults : faultOf node with
    | none => rfl
    | some fault =>
        exact absurd ((faultOf_eq_some_iff node fault).1 faults)
          (sound fault.message)

/-! ## The first fault -/

/-- The first fault that the nodes of the expressions have, in source order. -/
def firstFault (expressions : List Expr) : Option ArithmeticFault :=
  (expressions.flatMap Expr.subexprs).findSome? faultOf

theorem firstFault_cons (expression : Expr) (rest : List Expr) :
    firstFault (expression :: rest) =
      (firstFault [expression]).or (firstFault rest) := by
  simp [firstFault, List.findSome?_append]

theorem firstFault_singleton (expression : Expr) :
    firstFault [expression] =
      (faultOf expression).or (firstFault expression.children) := by
  simp only [firstFault, List.flatMap_singleton]
  rw [Expr.subexprs_eq_cons, List.findSome?_cons]
  cases faultOf expression <;> rfl

@[simp]
theorem firstFault_literal (value : Literal) :
    firstFault [.literal value] = none :=
  rfl

/-- Nothing below a node faults, unless the rule keeps the node. -/
theorem firstFault_children_of_rule_ne_keep
    {node : Expr}
    (active : rule node ≠ .keep) :
    firstFault node.children = none := by
  unfold rule at active
  split at active
  · rfl
  · rfl
  · exact absurd rfl active

theorem firstFault_eq_none_iff (expression : Expr) :
    firstFault [expression] = none ↔
      ∀ node ∈ expression.subexprs, ∀ text, ¬ ZeroDivision node text := by
  rw [firstFault, List.findSome?_eq_none_iff, List.flatMap_singleton]
  simp only [faultOf_eq_none_iff]

theorem firstFault_eq_some
    {expression : Expr}
    {fault : ArithmeticFault}
    (found : firstFault [expression] = some fault) :
    ∃ before node after,
      expression.subexprs = before ++ node :: after ∧
      ZeroDivision node fault.message ∧
      ∀ earlier ∈ before, ∀ text, ¬ ZeroDivision earlier text := by
  rw [firstFault, List.flatMap_singleton, List.findSome?_eq_some_iff] at found
  rcases found with ⟨before, node, after, split, faults, sound⟩
  refine ⟨before, node, after, split, (faultOf_eq_some_iff node fault).1 faults, ?_⟩
  intro earlier member
  exact (faultOf_eq_none_iff earlier).1 (sound earlier member)

/-! ## One run -/

/--
The run fails with the fault, or if there is none leaves what is settled after
the given number of folds.
-/
structure RunsTo
    {α : Type}
    (run : Transformed ArithmeticFault α)
    (fault : Option ArithmeticFault)
    (folds : Nat)
    (settled : α) : Prop where
  stops : ∀ first, fault = some first → run.count = .error first
  finishes : fault = none → run = ⟨settled, .ok folds⟩

theorem RunsTo.fault_eq_none
    {α : Type}
    {run : Transformed ArithmeticFault α}
    {fault : Option ArithmeticFault}
    {folds count : Nat}
    {settled : α}
    (runs : RunsTo run fault folds settled)
    (succeeds : run.count = .ok count) :
    fault = none := by
  cases fault with
  | none => rfl
  | some first =>
      rw [runs.stops first rfl] at succeeds
      cases succeeds

theorem RunsTo.fault_eq_some
    {α : Type}
    {run : Transformed ArithmeticFault α}
    {fault : Option ArithmeticFault}
    {first : ArithmeticFault}
    {folds : Nat}
    {settled : α}
    (runs : RunsTo run fault folds settled)
    (fails : run.count = .error first) :
    fault = some first := by
  cases fault with
  | none =>
      rw [runs.finishes rfl] at fails
      cases fails
  | some other =>
      rw [runs.stops other rfl] at fails
      cases fails
      rfl

theorem foldConstants_eq (expression : Expr) :
    expression.foldConstants =
      ((Transformed.traverse Expr.foldConstants expression.children).map
        expression.withChildren).bind rule.apply :=
  Expr.transform_eq rule expression

theorem operators_le_of_reaches
    {expression other : Expr}
    (reaches : ReflTransGen Step expression other) :
    other.operators ≤ expression.operators := by
  rcases exists_steps_of_reaches reaches with ⟨count, steps⟩
  have used := steps.operators_eq
  omega

theorem operators_normalForm_le (expression : Expr) :
    expression.normalForm.operators ≤ expression.operators :=
  operators_le_of_reaches (reaches_normalForm expression)

theorem operatorsIn_map_normalForm_le (expressions : List Expr) :
    Expr.operatorsIn (expressions.map Expr.normalForm) ≤
      Expr.operatorsIn expressions := by
  induction expressions with
  | nil => simp
  | cons expression rest hypothesis =>
      have below := operators_normalForm_le expression
      simp only [List.map_cons, Expr.operatorsIn_cons]
      omega

theorem runsTo_traverse
    (expressions : List Expr)
    (each :
      ∀ expression ∈ expressions,
        RunsTo expression.foldConstants
          (firstFault [expression.normalForm])
          (expression.operators - expression.normalForm.operators)
          expression.normalForm) :
    RunsTo (Transformed.traverse Expr.foldConstants expressions)
      (firstFault (expressions.map Expr.normalForm))
      (Expr.operatorsIn expressions -
        Expr.operatorsIn (expressions.map Expr.normalForm))
      (expressions.map Expr.normalForm) := by
  induction expressions with
  | nil => exact ⟨by simp [firstFault], fun _ => rfl⟩
  | cons expression rest hypothesis =>
      have head := each expression List.mem_cons_self
      have tail := hypothesis fun other member =>
        each other (List.mem_cons_of_mem expression member)
      have headUsed := operators_normalForm_le expression
      have tailUsed := operatorsIn_map_normalForm_le rest
      rw [List.map_cons, firstFault_cons]
      cases headFault : firstFault [expression.normalForm] with
      | some fault =>
          have stopped := head.stops fault headFault
          refine ⟨?_, by simp⟩
          intro first same
          cases same
          simp [Transformed.traverse, Transformed.andThen, stopped]
      | none =>
          have finished := head.finishes headFault
          rw [Option.none_or]
          constructor
          · intro first restFault
            have stopped := tail.stops first restFault
            simp [Transformed.traverse, Transformed.andThen, finished, stopped,
              Except.map]
          · intro restFault
            simp only [Transformed.traverse, Transformed.andThen, finished,
              tail.finishes restFault, Except.map, Expr.operatorsIn_cons]
            congr 2
            omega

/-- The rule at a node whose children are settled and have no fault. -/
theorem runsTo_apply
    {node : Expr}
    (before : Nat)
    (sound : firstFault node.children = none) :
    RunsTo ((Transformed.mk node (.ok before)).bind rule.apply)
      (firstFault [settle.rewrite node])
      (before + (node.operators - (settle.rewrite node).operators))
      (settle.rewrite node) := by
  cases verdict : rule node with
  | keep =>
      have kept : settle.rewrite node = node :=
        rewrite_settle_of_not_replace (by simp [verdict])
      rw [kept, firstFault_singleton, sound]
      constructor
      · simp [faultOf, verdict]
      · intro _
        simp [Transformed.bind, Rule.apply, verdict, Except.map]
  | replace result =>
      have used := (step_of_rule_eq_replace verdict).operators_eq
      have literal : firstFault [result] = none := by
        rcases (rule_eq_replace_iff node result).1 verdict with
          ⟨_, _, folded, _, _, rfl⟩ | ⟨_, _, _, folded, _, _, rfl⟩ <;>
            exact firstFault_literal folded
      rw [rewrite_settle_of_replace verdict, literal]
      constructor
      · simp
      · intro _
        simp only [Transformed.bind, Rule.apply, verdict, Except.map]
        congr 2
        omega
  | stop fault =>
      have kept : settle.rewrite node = node :=
        rewrite_settle_of_not_replace (by simp [verdict])
      rw [kept, firstFault_singleton, sound]
      constructor
      · intro first same
        have here : fault = first := by simpa [faultOf, verdict] using same
        simp [Transformed.bind, Rule.apply, verdict, Except.map, here]
      · simp [faultOf, verdict]

/-- A run over an expression computes its normal form or its first fault. -/
theorem runsTo_foldConstants (expression : Expr) :
    RunsTo expression.foldConstants
      (firstFault [expression.normalForm])
      (expression.operators - expression.normalForm.operators)
      expression.normalForm := by
  induction expression using Expr.childrenInduction with
  | node expression hypothesis =>
      have below := runsTo_traverse expression.children hypothesis
      have fits :
          (expression.children.map Expr.normalForm).length =
            expression.children.length :=
        List.length_map _
      have inside := Expr.children_withChildren fits
      have used := operatorsIn_map_normalForm_le expression.children
      rw [foldConstants_eq, Expr.normalForm_eq]
      cases childFault :
          firstFault (expression.children.map Expr.normalForm) with
      | some fault =>
          have stopped := below.stops fault childFault
          -- A fault below means that the node is not made of literals.
          have kept :
              rule (expression.withChildren
                (expression.children.map Expr.normalForm)) = .keep := by
            by_contra active
            have none := firstFault_children_of_rule_ne_keep active
            rw [inside, childFault] at none
            cases none
          rw [rewrite_settle_of_not_replace (by simp [kept]),
            firstFault_singleton, inside, childFault]
          constructor
          · intro first same
            have here : fault = first := by simpa [faultOf, kept] using same
            simp [Transformed.map, Transformed.bind, stopped, here]
          · simp [faultOf, kept]
      | none =>
          have finished := below.finishes childFault
          have applied :=
            runsTo_apply
              (Expr.operatorsIn expression.children -
                Expr.operatorsIn (expression.children.map Expr.normalForm))
              (inside ▸ childFault)
          have whole := Expr.operators_eq expression
          have node := Expr.operators_withChildren fits
          have settled :=
            operators_le_of_reaches
              (reaches_rewrite_settle <| expression.withChildren
                (expression.children.map Expr.normalForm))
          rw [finished]
          convert applied using 1
          · rfl
          · omega

/-! ## Settled expressions -/

/-- Folding leaves every node of the expression alone. -/
def Settled (expression : Expr) : Prop :=
  ∀ node ∈ expression.subexprs, rule node = .keep

theorem settled_iff (expression : Expr) :
    Settled expression ↔
      rule expression = .keep ∧
        ∀ child ∈ expression.children, Settled child :=
  expression.forall_subexprs_iff

theorem settled_literal (value : Literal) : Settled (.literal value) := by
  rw [settled_iff]
  exact ⟨rfl, by simp [Expr.children]⟩

theorem Normal.of_mem_children
    {expression child : Expr}
    (normal : Normal expression)
    (member : child ∈ expression.children) :
    Normal child := by
  rcases List.append_of_mem member with ⟨before, after, position⟩
  intro next step
  exact normal _ (Step.child position step)

theorem Normal.of_mem_subexprs
    {expression : Expr}
    (normal : Normal expression) :
    ∀ node ∈ expression.subexprs, Normal node := by
  induction expression using Expr.childrenInduction with
  | node expression hypothesis =>
      rw [Expr.forall_subexprs_iff]
      refine ⟨normal, ?_⟩
      intro child member
      exact hypothesis child member (normal.of_mem_children member)

/-- A run that succeeds leaves a settled expression. -/
theorem settled_of_foldConstants
    {expression : Expr}
    {count : Nat}
    (succeeds : expression.foldConstants.count = .ok count) :
    Settled expression.foldConstants.result := by
  have run := runsTo_foldConstants expression
  have sound := run.fault_eq_none succeeds
  rw [run.finishes sound]
  intro node member
  cases verdict : rule node with
  | keep => rfl
  | replace result =>
      have normal :=
        (normal_normalForm expression).of_mem_subexprs node member
      exact absurd (step_of_rule_eq_replace verdict) (normal result)
  | stop fault =>
      rw [firstFault, List.findSome?_eq_none_iff, List.flatMap_singleton] at sound
      have none := sound node member
      simp [faultOf, verdict] at none

/-- A run over a settled expression does nothing. -/
theorem Settled.foldConstants_eq
    {expression : Expr}
    (settled : Settled expression) :
    expression.foldConstants = .unchanged expression := by
  induction expression using Expr.childrenInduction with
  | node expression hypothesis =>
      rcases (settled_iff expression).1 settled with ⟨kept, below⟩
      have children :
          Transformed.traverse Expr.foldConstants expression.children =
            .unchanged expression.children :=
        Transformed.traverse_eq_unchanged fun child member =>
          hypothesis child member (below child member)
      rw [Folding.foldConstants_eq, children]
      simp [Transformed.map, Transformed.unchanged, Transformed.bind,
        Rule.apply, kept, Except.map]

/--
A node that is left alone still is when its children change but no literal
takes the place of something else.
-/
theorem rule_withChildren_map_eq_keep
    {change : Expr → Expr}
    (literals :
      ∀ child value, change child = .literal value → child = .literal value)
    {node : Expr}
    (kept : rule node = .keep) :
    rule (node.withChildren (node.children.map change)) = .keep := by
  cases node with
  | unary op operand =>
      show rule (.unary op (change operand)) = .keep
      cases operandChange : change operand with
      | literal value =>
          rw [literals operand value operandChange] at kept
          exact kept
      | _ => rfl
  | binary op left right =>
      show rule (.binary op (change left) (change right)) = .keep
      cases leftChange : change left with
      | literal leftValue =>
          cases rightChange : change right with
          | literal rightValue =>
              rw [literals left leftValue leftChange,
                literals right rightValue rightChange] at kept
              exact kept
          | _ => rfl
      | _ => rfl
  | branch condition thenBranch elseBranch => cases elseBranch <;> rfl
  | _ => rfl

end Folding

/--
Folding computes the normal form of an expression.  Steps in any order end, can
be joined again, and lead to one normal form in one number of steps.  A run
succeeds exactly if the normal form divides no literal by zero; it then leaves
the normal form and counts those steps, and a second run finds nothing to do.
A run that fails tells the first division by zero of the normal form.
-/
theorem Expr.foldConstants_computes_normalForm (expression : Expr) :
    (∀ left right,
      ReflTransGen Folding.Step expression left →
      ReflTransGen Folding.Step expression right →
        Join (ReflTransGen Folding.Step) left right) ∧
    Acc (flip Folding.Step) expression ∧
    ∃ normal folds,
      (ReflTransGen Folding.Step expression normal ∧
        Folding.Normal normal ∧
        ∀ other,
          ReflTransGen Folding.Step expression other →
          Folding.Normal other → other = normal) ∧
      (∀ count, Folding.Steps count expression normal ↔ count = folds) ∧
      expression.operators = folds + normal.operators ∧
      ((∃ count, expression.foldConstants.count = .ok count) ↔
        ∀ node ∈ normal.subexprs, ∀ text,
          ¬ Folding.ZeroDivision node text) ∧
      (∀ count,
        expression.foldConstants.count = .ok count →
          expression.foldConstants.result = normal ∧
          count = folds ∧
          normal.foldConstants = ⟨normal, .ok 0⟩) ∧
      (∀ fault,
        expression.foldConstants.count = .error fault →
          ∃ before node after,
            normal.subexprs = before ++ node :: after ∧
            Folding.ZeroDivision node fault.message ∧
            ∀ earlier ∈ before, ∀ text,
              ¬ Folding.ZeroDivision earlier text) := by
  have run := Folding.runsTo_foldConstants expression
  have again := Folding.runsTo_foldConstants expression.normalForm
  have reaches := Folding.reaches_normalForm expression
  refine ⟨?_, Folding.wellFounded_step.apply expression,
    expression.normalForm,
    expression.operators - expression.normalForm.operators,
    ⟨reaches, Folding.normal_normalForm expression, ?_⟩, ?_, ?_, ?_, ?_, ?_⟩
  · intro left right reachesLeft reachesRight
    exact Folding.confluent_step reachesLeft reachesRight
  · intro other reachesOther normal
    exact Folding.eq_normalForm reachesOther normal
  · exact Folding.steps_normalForm_iff expression
  · have fewer := Folding.operators_normalForm_le expression
    omega
  · rw [← Folding.firstFault_eq_none_iff]
    constructor
    · rintro ⟨count, succeeds⟩
      exact run.fault_eq_none succeeds
    · intro sound
      rw [run.finishes sound]
      exact ⟨_, rfl⟩
  · intro count succeeds
    have sound := run.fault_eq_none succeeds
    have finished := run.finishes sound
    rw [Folding.normalForm_normalForm, Nat.sub_self] at again
    rw [finished] at succeeds ⊢
    cases succeeds
    exact ⟨rfl, rfl, again.finishes sound⟩
  · intro fault fails
    exact Folding.firstFault_eq_some (run.fault_eq_some fails)

end MiddleEnd
