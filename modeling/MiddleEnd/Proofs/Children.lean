import Mathlib.Data.List.Basic
import MiddleEnd.Calls
import MiddleEnd.Transform

/-!
# A tree by its children

An expression is its own node together with the list of its children.
`Expr.withChildren` puts other children into the node, and the laws below say
that this reads and writes what `Expr.children` lists.  Induction over the
children then replaces induction over nine kinds of expression and five kinds
of statement, and a transformation is one equation: transform the children in
order, put them back, apply the rule.
-/

namespace MiddleEnd

/-! ## Reading back what was written -/

@[simp]
theorem Stmt.withHeld_held (statement : Stmt) :
    statement.withHeld statement.held = statement := by
  rcases statement with _ | _ | (_ | _) | _ | _ <;> rfl

theorem Stmt.held_withHeld
    {statement : Stmt}
    {expressions : List Expr}
    (fits : expressions.length = statement.held.length) :
    (statement.withHeld expressions).held = expressions := by
  cases statement with
  | expr _ =>
      rcases List.length_eq_one_iff.1 fits with ⟨expression, rfl⟩
      rfl
  | bind _ _ =>
      rcases List.length_eq_one_iff.1 fits with ⟨value, rfl⟩
      rfl
  | ret value =>
      cases value with
      | none =>
          rcases List.length_eq_zero_iff.1 fits with rfl
          rfl
      | some _ =>
          rcases List.length_eq_one_iff.1 fits with ⟨value, rfl⟩
          rfl
  | function _ _ _ =>
      rcases List.length_eq_one_iff.1 fits with ⟨body, rfl⟩
      rfl
  | use _ =>
      rcases List.length_eq_zero_iff.1 fits with rfl
      rfl

theorem Stmt.withHeld_withHeld
    {statement : Stmt}
    {expressions others : List Expr}
    (fits : expressions.length = statement.held.length)
    (othersFit : others.length = statement.held.length) :
    (statement.withHeld expressions).withHeld others =
      statement.withHeld others := by
  cases statement with
  | expr _ =>
      rcases List.length_eq_one_iff.1 fits with ⟨expression, rfl⟩
      rcases List.length_eq_one_iff.1 othersFit with ⟨other, rfl⟩
      rfl
  | bind _ _ =>
      rcases List.length_eq_one_iff.1 fits with ⟨value, rfl⟩
      rcases List.length_eq_one_iff.1 othersFit with ⟨other, rfl⟩
      rfl
  | ret value =>
      cases value with
      | none => rfl
      | some _ =>
          rcases List.length_eq_one_iff.1 fits with ⟨value, rfl⟩
          rcases List.length_eq_one_iff.1 othersFit with ⟨other, rfl⟩
          rfl
  | function _ _ _ =>
      rcases List.length_eq_one_iff.1 fits with ⟨body, rfl⟩
      rcases List.length_eq_one_iff.1 othersFit with ⟨other, rfl⟩
      rfl
  | use _ => rfl

theorem Stmt.refill_flatMap_held (statements : List Stmt) :
    Stmt.refill statements (statements.flatMap Stmt.held) = statements := by
  induction statements with
  | nil => rfl
  | cons statement rest hypothesis =>
      simp [Stmt.refill, hypothesis]

theorem Stmt.flatMap_held_refill
    {statements : List Stmt}
    {expressions : List Expr}
    (fits : expressions.length = (statements.flatMap Stmt.held).length) :
    (Stmt.refill statements expressions).flatMap Stmt.held = expressions := by
  induction statements generalizing expressions with
  | nil =>
      rcases List.length_eq_zero_iff.1 fits with rfl
      rfl
  | cons statement rest hypothesis =>
      rw [List.flatMap_cons, List.length_append] at fits
      have headFits :
          (expressions.take statement.held.length).length =
            statement.held.length := by
        rw [List.length_take]
        omega
      have restFits :
          (expressions.drop statement.held.length).length =
            (rest.flatMap Stmt.held).length := by
        rw [List.length_drop]
        omega
      rw [Stmt.refill, List.flatMap_cons, Stmt.held_withHeld headFits,
        hypothesis restFits, List.take_append_drop]

@[simp]
theorem Expr.withChildren_children (expression : Expr) :
    expression.withChildren expression.children = expression := by
  cases expression with
  | branch condition thenBranch elseBranch => cases elseBranch <;> rfl
  | block statements =>
      rw [Expr.children, Expr.withChildren, Stmt.refill_flatMap_held]
  | _ => rfl

theorem Expr.children_withChildren
    {expression : Expr}
    {children : List Expr}
    (fits : children.length = expression.children.length) :
    (expression.withChildren children).children = children := by
  cases expression with
  | literal _ =>
      rcases List.length_eq_zero_iff.1 fits with rfl
      rfl
  | ident _ =>
      rcases List.length_eq_zero_iff.1 fits with rfl
      rfl
  | unary _ _ =>
      rcases List.length_eq_one_iff.1 fits with ⟨operand, rfl⟩
      rfl
  | binary _ _ _ =>
      rcases List.length_eq_two.1 fits with ⟨left, right, rfl⟩
      rfl
  | call _ _ =>
      rcases List.exists_cons_of_length_eq_add_one fits with
        ⟨callee, arguments, rfl⟩
      rfl
  | branch _ _ elseBranch =>
      cases elseBranch with
      | none =>
          rcases List.length_eq_two.1 fits with ⟨condition, thenBranch, rfl⟩
          rfl
      | some _ =>
          rcases List.length_eq_three.1 fits with
            ⟨condition, thenBranch, elseBranch, rfl⟩
          rfl
  | loop _ _ =>
      rcases List.length_eq_two.1 fits with ⟨condition, body, rfl⟩
      rfl
  | block statements =>
      exact Stmt.flatMap_held_refill fits
  | assign _ _ =>
      rcases List.length_eq_one_iff.1 fits with ⟨value, rfl⟩
      rfl

theorem Stmt.refill_refill
    {statements : List Stmt}
    {expressions others : List Expr}
    (fits : expressions.length = (statements.flatMap Stmt.held).length)
    (othersFit : others.length = (statements.flatMap Stmt.held).length) :
    Stmt.refill (Stmt.refill statements expressions) others =
      Stmt.refill statements others := by
  induction statements generalizing expressions others with
  | nil => rfl
  | cons statement rest hypothesis =>
      rw [List.flatMap_cons, List.length_append] at fits othersFit
      have headFits :
          (expressions.take statement.held.length).length =
            statement.held.length := by
        rw [List.length_take]
        omega
      have sameArity :
          (statement.withHeld
            (expressions.take statement.held.length)).held.length =
            statement.held.length := by
        rw [Stmt.held_withHeld headFits, headFits]
      rw [Stmt.refill, Stmt.refill, Stmt.refill, sameArity,
        Stmt.withHeld_withHeld headFits (by rw [List.length_take]; omega),
        hypothesis (by rw [List.length_drop]; omega)
          (by rw [List.length_drop]; omega)]

/-- Of children put in one after the other, only the last ones stay. -/
theorem Expr.withChildren_withChildren
    {expression : Expr}
    {children others : List Expr}
    (fits : children.length = expression.children.length)
    (othersFit : others.length = expression.children.length) :
    (expression.withChildren children).withChildren others =
      expression.withChildren others := by
  cases expression with
  | literal _ => rfl
  | ident _ => rfl
  | unary _ _ =>
      rcases List.length_eq_one_iff.1 fits with ⟨operand, rfl⟩
      rcases List.length_eq_one_iff.1 othersFit with ⟨other, rfl⟩
      rfl
  | binary _ _ _ =>
      rcases List.length_eq_two.1 fits with ⟨left, right, rfl⟩
      rcases List.length_eq_two.1 othersFit with ⟨otherLeft, otherRight, rfl⟩
      rfl
  | call _ _ =>
      rcases List.exists_cons_of_length_eq_add_one fits with
        ⟨callee, arguments, rfl⟩
      rcases List.exists_cons_of_length_eq_add_one othersFit with
        ⟨otherCallee, otherArguments, rfl⟩
      rfl
  | branch _ _ elseBranch =>
      cases elseBranch with
      | none =>
          rcases List.length_eq_two.1 fits with ⟨condition, thenBranch, rfl⟩
          rcases List.length_eq_two.1 othersFit with
            ⟨otherCondition, otherThen, rfl⟩
          rfl
      | some _ =>
          rcases List.length_eq_three.1 fits with
            ⟨condition, thenBranch, elseBranch, rfl⟩
          rcases List.length_eq_three.1 othersFit with
            ⟨otherCondition, otherThen, otherElse, rfl⟩
          rfl
  | loop _ _ =>
      rcases List.length_eq_two.1 fits with ⟨condition, body, rfl⟩
      rcases List.length_eq_two.1 othersFit with
        ⟨otherCondition, otherBody, rfl⟩
      rfl
  | block statements =>
      exact congrArg Expr.block (Stmt.refill_refill fits othersFit)
  | assign _ _ =>
      rcases List.length_eq_one_iff.1 fits with ⟨value, rfl⟩
      rcases List.length_eq_one_iff.1 othersFit with ⟨other, rfl⟩
      rfl

/-! ## Induction over the children -/

theorem Stmt.sizeOf_held_lt
    {statement : Stmt}
    {expression : Expr}
    (member : expression ∈ statement.held) :
    sizeOf expression < sizeOf statement := by
  cases statement with
  | expr other =>
      rw [List.mem_singleton.1 member, Stmt.expr.sizeOf_spec]
      omega
  | bind _ other =>
      rw [List.mem_singleton.1 member, Stmt.bind.sizeOf_spec]
      omega
  | ret value =>
      cases value with
      | none => simp [Stmt.held] at member
      | some other =>
          rw [List.mem_singleton.1 member, Stmt.ret.sizeOf_spec,
            Option.some.sizeOf_spec]
          omega
  | function _ _ other =>
      rw [List.mem_singleton.1 member, Stmt.function.sizeOf_spec]
      omega
  | use _ => simp [Stmt.held] at member

theorem Expr.sizeOf_children_lt
    {expression child : Expr}
    (member : child ∈ expression.children) :
    sizeOf child < sizeOf expression := by
  cases expression with
  | literal _ => simp [Expr.children] at member
  | ident _ => simp [Expr.children] at member
  | unary _ operand =>
      rw [List.mem_singleton.1 member, Expr.unary.sizeOf_spec]
      omega
  | binary _ left right =>
      rw [Expr.binary.sizeOf_spec]
      rcases List.mem_pair.1 member with rfl | rfl
      · omega
      · omega
  | call callee arguments =>
      rw [Expr.call.sizeOf_spec]
      rcases List.mem_cons.1 member with rfl | argument
      · omega
      · have below := List.sizeOf_lt_of_mem argument
        omega
  | branch condition thenBranch elseBranch =>
      rw [Expr.branch.sizeOf_spec]
      rcases List.mem_cons.1 member with rfl | branch
      · omega
      · rcases List.mem_cons.1 branch with rfl | other
        · omega
        · rw [Option.mem_toList.1 other, Option.some.sizeOf_spec]
          omega
  | loop condition body =>
      rw [Expr.loop.sizeOf_spec]
      rcases List.mem_pair.1 member with rfl | rfl
      · omega
      · omega
  | block statements =>
      rcases List.mem_flatMap.1 member with ⟨statement, inside, held⟩
      have below := Stmt.sizeOf_held_lt held
      have within := List.sizeOf_lt_of_mem inside
      rw [Expr.block.sizeOf_spec]
      omega
  | assign _ value =>
      rw [List.mem_singleton.1 member, Expr.assign.sizeOf_spec]
      omega

/-- What holds of an expression if it holds of its children holds of all. -/
@[elab_as_elim]
theorem Expr.childrenInduction
    {motive : Expr → Prop}
    (node :
      ∀ expression : Expr,
        (∀ child ∈ expression.children, motive child) → motive expression)
    (expression : Expr) :
    motive expression := by
  apply node
  intro child member
  have below := Expr.sizeOf_children_lt member
  exact Expr.childrenInduction node child
termination_by sizeOf expression

theorem Expr.forall_subexprs_iff
    {property : Expr → Prop}
    (expression : Expr) :
    (∀ node ∈ expression.subexprs, property node) ↔
      property expression ∧
        ∀ child ∈ expression.children, ∀ node ∈ child.subexprs,
          property node := by
  rw [Expr.subexprs_eq_cons]
  simp only [List.forall_mem_cons, List.mem_flatMap]
  constructor
  · rintro ⟨here, below⟩
    exact ⟨here, fun child member node inside =>
      below node ⟨child, member, inside⟩⟩
  · rintro ⟨here, below⟩
    refine ⟨here, ?_⟩
    rintro node ⟨child, member, inside⟩
    exact below child member node inside

/-! ## Transforming the children -/

namespace Transformed

variable {ε α β : Type}

theorem length_traverse
    (run : α → Transformed ε α)
    (entries : List α) :
    (traverse run entries).result.length = entries.length := by
  induction entries with
  | nil => rfl
  | cons entry rest hypothesis =>
      cases outcome : (run entry).count <;>
        simp [traverse, andThen, outcome, hypothesis]

/-- A run over a list that succeeds is a successful run over each entry. -/
theorem traverse_of_ok
    {run : α → Transformed ε α}
    {entries : List α}
    {total : Nat}
    (succeeds : (traverse run entries).count = .ok total) :
    (traverse run entries).result =
        (entries.map fun entry => (run entry).result) ∧
      ∀ entry ∈ entries, ∃ count, (run entry).count = .ok count := by
  induction entries generalizing total with
  | nil => exact ⟨rfl, by simp⟩
  | cons entry rest hypothesis =>
      cases first : (run entry).count with
      | error fault => simp [traverse, andThen, first] at succeeds
      | ok before =>
          cases second : (traverse run rest).count with
          | error fault =>
              simp [traverse, andThen, first, second, Except.map] at succeeds
          | ok after =>
              have others := hypothesis second
              constructor
              · simp [traverse, andThen, first, others.1]
              · exact List.forall_mem_cons.2 ⟨⟨before, first⟩, others.2⟩

/-- Successful runs over all entries are a successful run over the list. -/
theorem exists_traverse_ok
    {run : α → Transformed ε α}
    {entries : List α}
    (each : ∀ entry ∈ entries, ∃ count, (run entry).count = .ok count) :
    ∃ total, (traverse run entries).count = .ok total := by
  induction entries with
  | nil => exact ⟨0, rfl⟩
  | cons entry rest hypothesis =>
      rcases List.forall_mem_cons.1 each with ⟨⟨before, first⟩, others⟩
      rcases hypothesis others with ⟨after, second⟩
      exact ⟨before + after, by simp [traverse, andThen, first, second, Except.map]⟩

theorem map_andThen
    {γ δ : Type}
    (build : α → β → γ)
    (outer : γ → δ)
    (first : Transformed ε α)
    (untouched : β)
    (second : Transformed ε β) :
    (andThen build first untouched second).map outer =
      andThen (fun left right => outer (build left right))
        first untouched second := by
  cases outcome : first.count <;> simp [andThen, map, outcome]

theorem andThen_map_right
    {γ δ : Type}
    (build : α → β → γ)
    (inner : δ → β)
    (first : Transformed ε α)
    (untouched : δ)
    (second : Transformed ε δ) :
    andThen build first (inner untouched) (second.map inner) =
      andThen (fun left right => build left (inner right))
        first untouched second := by
  cases outcome : first.count <;> simp [andThen, map, outcome]

theorem andThen_unchanged
    {γ : Type}
    (build : α → β → γ)
    (first : Transformed ε α)
    (untouched : β) :
    andThen build first untouched (unchanged untouched) =
      first.map fun left => build left untouched := by
  cases outcome : first.count <;>
    simp [andThen, map, unchanged, Except.map, outcome]

theorem unchanged_andThen
    {γ : Type}
    (build : α → β → γ)
    (first : α)
    (untouched : β)
    (second : Transformed ε β) :
    andThen build (unchanged first) untouched second =
      second.map (build first) := by
  rcases second with ⟨result, _ | count⟩ <;>
    simp [andThen, map, unchanged, Except.map]

theorem bind_eq_self
    {run : Transformed ε α}
    {next : α → Transformed ε α}
    (nothing : next run.result = .unchanged run.result) :
    run.bind next = run := by
  rcases run with ⟨result, _ | count⟩
  · rfl
  · rw [bind, nothing]
    rfl

/-- Two runs over parts of a list are a run over the whole. -/
theorem traverse_append
    (run : α → Transformed ε α)
    (entries others : List α) :
    traverse run (entries ++ others) =
      andThen (· ++ ·) (traverse run entries) others (traverse run others) := by
  induction entries with
  | nil =>
      rw [traverse, unchanged_andThen]
      rfl
  | cons entry rest hypothesis =>
      cases first : (run entry).count with
      | error fault => simp [traverse, andThen, first]
      | ok before =>
          cases second : (traverse run rest).count <;>
            cases third : (traverse run others).count <;>
              simp [traverse, andThen, hypothesis, Except.map, first, second,
                third, Nat.add_assoc]

theorem traverse_congr
    {run other : α → Transformed ε α}
    {entries : List α}
    (each : ∀ entry ∈ entries, run entry = other entry) :
    traverse run entries = traverse other entries := by
  induction entries with
  | nil => rfl
  | cons entry rest hypothesis =>
      rcases List.forall_mem_cons.1 each with ⟨here, later⟩
      rw [traverse, traverse, here, hypothesis later]

@[simp]
theorem traverse_singleton (run : α → Transformed ε α) (entry : α) :
    traverse run [entry] = (run entry).map fun result => [result] :=
  andThen_unchanged List.cons (run entry) []

theorem traverse_pair (run : α → Transformed ε α) (first second : α) :
    traverse run [first, second] =
      andThen (fun left right => [left, right])
        (run first) second (run second) := by
  rw [traverse, traverse_singleton]
  exact andThen_map_right List.cons (fun result => [result]) _ second _

end Transformed

theorem Transformed.traverse_eq_unchanged
    {ε α : Type}
    {run : α → Transformed ε α}
    {entries : List α}
    (each : ∀ entry ∈ entries, run entry = .unchanged entry) :
    Transformed.traverse run entries = .unchanged entries := by
  induction entries with
  | nil => rfl
  | cons entry rest hypothesis =>
      have restUnchanged := hypothesis fun other member =>
        each other (List.mem_cons_of_mem entry member)
      rw [Transformed.traverse, restUnchanged, each entry List.mem_cons_self,
        Transformed.unchanged_andThen]
      rfl

theorem Stmt.transform_eq
    {ε : Type}
    (rule : Rule ε)
    (statement : Stmt) :
    statement.transform rule =
      (Transformed.traverse (Expr.transform rule) statement.held).map
        statement.withHeld := by
  cases statement with
  | expr expression =>
      rw [Stmt.transform, Stmt.held, Transformed.traverse_singleton]
      rfl
  | bind name value =>
      rw [Stmt.transform, Stmt.held, Transformed.traverse_singleton]
      rfl
  | ret value =>
      cases value with
      | none => simp [Stmt.transform, Expr.transformOption]; rfl
      | some value =>
          rw [Stmt.transform, Stmt.held, Option.toList,
            Transformed.traverse_singleton]
          rfl
  | function name parameters body =>
      rw [Stmt.transform, Stmt.held, Transformed.traverse_singleton]
      rfl
  | use path => simp [Stmt.transform]; rfl

theorem Stmt.transformList_eq_refill
    {ε : Type}
    (rule : Rule ε)
    (statements : List Stmt) :
    Stmt.transformList rule statements =
      (Transformed.traverse (Expr.transform rule)
        (statements.flatMap Stmt.held)).map (Stmt.refill statements) := by
  induction statements with
  | nil => rfl
  | cons statement rest hypothesis =>
      have fits :=
        Transformed.length_traverse (Expr.transform rule) statement.held
      rw [Stmt.transformList, hypothesis, Stmt.transform_eq,
        List.flatMap_cons, Transformed.traverse_append]
      cases outcome :
          (Transformed.traverse (Expr.transform rule) statement.held).count <;>
        simp [Transformed.andThen, Transformed.map, Stmt.refill, outcome,
          ← fits, Stmt.refill_flatMap_held]

/--
A run over an expression is a run over its children in source order, followed
by the rule at the node that they are put back into.
-/
theorem Expr.transform_eq
    {ε : Type}
    (rule : Rule ε)
    (expression : Expr) :
    expression.transform rule =
      ((Transformed.traverse (Expr.transform rule) expression.children).map
        expression.withChildren).bind rule.apply := by
  cases expression with
  | literal value =>
      rcases outcome : rule.apply (.literal value) with ⟨result, _ | count⟩ <;>
        simp [Expr.transform, Expr.children, Transformed.traverse,
          Transformed.unchanged, Transformed.map, Transformed.bind,
          Expr.withChildren, Except.map, outcome]
  | ident name =>
      rcases outcome : rule.apply (.ident name) with ⟨result, _ | count⟩ <;>
        simp [Expr.transform, Expr.children, Transformed.traverse,
          Transformed.unchanged, Transformed.map, Transformed.bind,
          Expr.withChildren, Except.map, outcome]
  | unary op operand =>
      rw [Expr.transform, Expr.children, Transformed.traverse_singleton]
      rfl
  | binary op left right =>
      rw [Expr.transform, Expr.children, Transformed.traverse_pair,
        Transformed.map_andThen]
      rfl
  | call callee arguments =>
      rw [Expr.transform, Expr.children, Transformed.traverse,
        Transformed.map_andThen, Expr.transformList_eq_traverse]
      rfl
  | branch condition thenBranch elseBranch =>
      cases elseBranch with
      | none =>
          rw [Expr.transform, Expr.children, Option.toList,
            Transformed.traverse_pair, Transformed.map_andThen,
            Expr.transformOption, Transformed.andThen_unchanged,
            Transformed.andThen_map_right
              (fun condition branches =>
                Expr.branch condition branches.1 branches.2)
              (fun thenBranch => (thenBranch, none))]
          rfl
      | some elseBranch =>
          rw [Expr.transform, Expr.children, Option.toList,
            Expr.transformOption, Transformed.traverse,
            Transformed.traverse_pair, Transformed.map_andThen,
            Transformed.andThen_map_right]
          cases first : (condition.transform rule).count <;>
            cases second : (thenBranch.transform rule).count <;>
              simp [Transformed.andThen, Expr.withChildren, first, second]
  | loop condition body =>
      rw [Expr.transform, Expr.children, Transformed.traverse_pair,
        Transformed.map_andThen]
      rfl
  | block statements =>
      rw [Expr.transform, Expr.children, Stmt.transformList_eq_refill]
      rfl
  | assign target value =>
      rw [Expr.transform, Expr.children, Transformed.traverse_singleton]
      rfl

/-! ## Rules that never stop -/

/-- What a rule that cannot stop makes of a node. -/
def Rule.rewrite (rule : Rule Empty) (node : Expr) : Expr :=
  (rule.apply node).result

namespace Transformed

variable {α β : Type}

theorem count_eq_total (run : Transformed Empty α) :
    run.count = .ok run.total := by
  rcases run with ⟨result, _ | count⟩
  · contradiction
  · rfl

theorem result_traverse
    (run : α → Transformed Empty α)
    (entries : List α) :
    (traverse run entries).result =
      entries.map fun entry => (run entry).result :=
  (traverse_of_ok (traverse run entries).count_eq_total).1

end Transformed

/-- The tree that a rule leaves when it cannot stop. -/
theorem Expr.result_transform
    (rule : Rule Empty)
    (expression : Expr) :
    (expression.transform rule).result =
      rule.rewrite
        (expression.withChildren
          (expression.children.map fun child =>
            (child.transform rule).result)) := by
  rw [Expr.transform_eq]
  simp [Transformed.bind, Transformed.map, Transformed.count_eq_total,
    Transformed.result_traverse, Rule.rewrite]

/-! ## Names called below a node -/

namespace Expr

/-- What is read off a tree node by node is read off its root and its children. -/
theorem filterMap_subexprs
    {α : Type}
    (view : Expr → Option α)
    (expression : Expr) :
    expression.subexprs.filterMap view =
      (view expression).toList ++
        expression.children.flatMap fun child =>
          child.subexprs.filterMap view := by
  rw [subexprs_eq_cons, List.filterMap_cons, List.filterMap_flatMap]
  cases view expression <;> rfl

theorem calledNames_eq (expression : Expr) :
    expression.calledNames =
      expression.callee?.toList ++
        expression.children.flatMap calledNames :=
  filterMap_subexprs callee? expression

@[simp]
theorem calledNames_literal (value : Literal) :
    (Expr.literal value).calledNames = [] :=
  rfl

theorem calledNames_binary (op : BinaryOp) (left right : Expr) :
    (Expr.binary op left right).calledNames =
      left.calledNames ++ right.calledNames := by
  rw [calledNames_eq]
  simp [children, callee?]

theorem callee?_call_eq_some_iff
    (callee : Expr)
    (arguments : List Expr)
    (name : String) :
    (Expr.call callee arguments).callee? = some name ↔
      callee = .ident name := by
  cases callee <;> simp [callee?]

/-- The name that a node calls stays if names change into themselves only. -/
theorem callee?_withChildren_map
    {change : Expr → Expr}
    (names : ∀ child name, change child = .ident name ↔ child = .ident name)
    (expression : Expr) :
    (expression.withChildren (expression.children.map change)).callee? =
      expression.callee? := by
  cases expression with
  | call callee arguments =>
      ext name
      show (Expr.call (change callee) (arguments.map change)).callee? = _ ↔ _
      rw [callee?_call_eq_some_iff, callee?_call_eq_some_iff, names]
  | branch condition thenBranch elseBranch => cases elseBranch <;> rfl
  | _ => rfl

end Expr

end MiddleEnd
