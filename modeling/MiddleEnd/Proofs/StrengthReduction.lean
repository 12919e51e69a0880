import MiddleEnd.Pass.StrengthReduction
import MiddleEnd.Proofs.Folding.NormalForm
import MiddleEnd.Proofs.LiveFunctions
import MiddleEnd.Proofs.PowersOfTwo

/-!
# What strength reduction does to a tree

A reduction changes the right operand of some multiplications and nothing
else.  `Expr.reduced_cases` says so once for a node; the laws after it are read
off the two cases.  No literal and no name appears or vanishes, so calls stay as
they are, and an operator that folding leaves alone is left alone afterwards:
the left operand of a reduced multiplication was no integer before and is none
now.

An exponent may be a power of two again.  `exhausts` counts how often a word can
be reduced, and no word of 64 bits can be reduced more than five times.
-/

namespace MiddleEnd

/-- The expression that strength reduction leaves. -/
def Expr.reduced (expression : Expr) : Expr :=
  expression.reduceStrength.result

/-- The walk rewrites the node and then visits the children of what it is now. -/
theorem Expr.reduceStrength_eq (expression : Expr) :
    expression.reduceStrength =
      let node := StrengthReduction.rule.apply expression
      .andThen Expr.withChildren node node.result.children
        (.traverse Expr.reduceStrength node.result.children) := by
  rw [reduceStrength, Transformed.traverseMem_eq_traverse]

namespace StrengthReduction

/-- The node is a multiplication by a literal power of two. -/
def Reducible (node : Expr) : Prop :=
  ∃ left word,
    node = .binary .multiply left (.literal (.int word)) ∧
      isPowerOfTwo word = true

theorem apply_multiply
    {word : Int64}
    (power : isPowerOfTwo word = true)
    (left : Expr) :
    rule.apply (.binary .multiply left (.literal (.int word))) =
      ⟨.binary .multiply left (.literal (.int (exponentOf word))), .ok 1⟩ := by
  simp [Rule.apply, rule, power]

theorem rule_of_not_reducible
    {node : Expr}
    (irreducible : ¬ Reducible node) :
    rule node = .keep := by
  unfold rule
  split
  · rename_i left word
    have other : isPowerOfTwo word ≠ true := by
      intro power
      exact irreducible ⟨left, word, rfl, power⟩
    simp [other]
  · rfl

theorem apply_of_not_reducible
    {node : Expr}
    (irreducible : ¬ Reducible node) :
    rule.apply node = .unchanged node := by
  rw [Rule.apply, rule_of_not_reducible irreducible]
  rfl

end StrengthReduction

namespace Expr

theorem withChildren_eq_binary
    {expression : Expr}
    {children : List Expr}
    {op : BinaryOp}
    {left right : Expr}
    (fits : children.length = expression.children.length)
    (equal : expression.withChildren children = .binary op left right) :
    children = [left, right] ∧
      ∃ oldLeft oldRight, expression = .binary op oldLeft oldRight := by
  have inside := children_withChildren fits
  rw [equal] at inside
  refine ⟨inside.symm, ?_⟩
  unfold withChildren at equal
  split at equal <;> simp_all

/-- A node that stays has its children reduced. -/
theorem reduceStrength_of_not_reducible
    {expression : Expr}
    (irreducible : ¬ StrengthReduction.Reducible expression) :
    expression.reduceStrength =
      (Transformed.traverse reduceStrength expression.children).map
        expression.withChildren := by
  rw [reduceStrength_eq, StrengthReduction.apply_of_not_reducible irreducible]
  exact Transformed.unchanged_andThen _ _ _ _

theorem reduceStrength_leaf
    {leaf : Expr}
    (childless : leaf.children = []) :
    leaf.reduceStrength = .unchanged leaf := by
  have irreducible : ¬ StrengthReduction.Reducible leaf := by
    rintro ⟨left, word, rfl, _⟩
    cases childless
  have same := leaf.withChildren_children
  rw [childless] at same
  rw [reduceStrength_of_not_reducible irreducible, childless]
  exact congrArg Transformed.unchanged same

theorem reduceStrength_literal (value : Literal) :
    (Expr.literal value).reduceStrength = .unchanged (.literal value) :=
  reduceStrength_leaf rfl

theorem traverse_reduceStrength_literal (left : Expr) (value : Literal) :
    Transformed.traverse reduceStrength [left, .literal value] =
      left.reduceStrength.map ([·, .literal value]) := by
  rw [Transformed.traverse_pair, reduceStrength_literal,
    Transformed.andThen_unchanged]

/-- Nothing is left to do at the literal that a product gets. -/
theorem reduceStrength_product
    {word : Int64}
    (power : isPowerOfTwo word = true)
    (left : Expr) :
    (Expr.binary .multiply left (.literal (.int word))).reduceStrength =
      ⟨.binary .multiply left.reduced (.literal (.int (exponentOf word))),
        left.reduceStrength.count.map (1 + ·)⟩ := by
  rw [reduceStrength_eq, StrengthReduction.apply_multiply power]
  exact congrArg (Transformed.andThen withChildren _ _)
    (traverse_reduceStrength_literal left _)

theorem reduced_product
    {word : Int64}
    (power : isPowerOfTwo word = true)
    (left : Expr) :
    (Expr.binary .multiply left (.literal (.int word))).reduced =
      .binary .multiply left.reduced (.literal (.int (exponentOf word))) :=
  congrArg Transformed.result (reduceStrength_product power left)

theorem reduced_of_not_reducible
    {expression : Expr}
    (irreducible : ¬ StrengthReduction.Reducible expression) :
    expression.reduced =
      expression.withChildren (expression.children.map reduced) := by
  rw [reduced, reduceStrength_of_not_reducible irreducible, Transformed.map,
    Transformed.result_traverse]
  rfl

@[simp]
theorem reduced_ident (name : String) :
    (Expr.ident name).reduced = .ident name :=
  congrArg Transformed.result (reduceStrength_leaf rfl)

@[simp]
theorem reduced_literal (value : Literal) :
    (Expr.literal value).reduced = .literal value :=
  congrArg Transformed.result (reduceStrength_literal value)

/--
Either the node is a multiplication by a literal power of two and gets the
exponent for it, or the node stays and has its children reduced.
-/
theorem reduced_cases (expression : Expr) :
    (∃ left word,
      expression = .binary .multiply left (.literal (.int word)) ∧
      isPowerOfTwo word = true ∧
      expression.reduced =
        .binary .multiply left.reduced (.literal (.int (exponentOf word)))) ∨
    (¬ StrengthReduction.Reducible expression ∧
      expression.reduced =
        expression.withChildren (expression.children.map reduced)) := by
  by_cases reducible : StrengthReduction.Reducible expression
  · rcases reducible with ⟨left, word, rfl, power⟩
    exact Or.inl ⟨left, word, rfl, power, reduced_product power left⟩
  · exact Or.inr ⟨reducible, reduced_of_not_reducible reducible⟩

/-- Only a leaf is reduced to a leaf, and it is the same one. -/
theorem eq_of_reduced_eq_leaf
    {expression leaf : Expr}
    (childless : leaf.children = [])
    (equal : expression.reduced = leaf) :
    expression = leaf := by
  rcases expression.reduced_cases with ⟨left, word, _, _, product⟩ | ⟨_, kept⟩
  · rw [← equal, product] at childless
    cases childless
  · rw [kept] at equal
    have inside : (expression.children.map reduced) = [] := by
      rw [← childless, ← equal, children_withChildren (List.length_map _)]
    have none : expression.children = [] := List.map_eq_nil_iff.1 inside
    rw [← equal, inside, ← none, withChildren_children]

theorem eq_multiply_of_withChildren_reduced
    {expression left : Expr}
    {word : Int64}
    (equal :
      expression.withChildren (expression.children.map reduced) =
        .binary .multiply left (.literal (.int word))) :
    ∃ oldLeft,
      expression = .binary .multiply oldLeft (.literal (.int word)) := by
  rcases withChildren_eq_binary (List.length_map _) equal with
    ⟨operands, oldLeft, oldRight, rfl⟩
  simp only [children, List.map_cons, List.map_nil, List.cons.injEq] at operands
  rw [eq_of_reduced_eq_leaf rfl operands.2.1]
  exact ⟨oldLeft, rfl⟩

/-- Reducing what is below a node makes it no more and no less reducible. -/
theorem reducible_withChildren_reduced_iff (expression : Expr) :
    StrengthReduction.Reducible
        (expression.withChildren (expression.children.map reduced)) ↔
      StrengthReduction.Reducible expression := by
  constructor
  · rintro ⟨left, word, equal, power⟩
    rcases eq_multiply_of_withChildren_reduced equal with ⟨oldLeft, old⟩
    exact ⟨oldLeft, word, old, power⟩
  · rintro ⟨left, word, rfl, power⟩
    refine ⟨left.reduced, word, ?_, power⟩
    rw [children, List.map_cons, List.map_singleton, reduced_literal]
    rfl

/-- The walk from the leaves up leaves the same tree and counts the same. -/
theorem reduceStrength_eq_transform (expression : Expr) :
    expression.reduceStrength =
      expression.transform StrengthReduction.rule := by
  induction expression using childrenInduction with
  | node expression hypothesis =>
      rw [transform_eq, ← Transformed.traverse_congr hypothesis]
      by_cases reducible : StrengthReduction.Reducible expression
      · rcases reducible with ⟨left, word, rfl, power⟩
        -- The replacement is counted first here and last there.
        rw [reduceStrength_product power, children,
          traverse_reduceStrength_literal, Transformed.bind]
        simp only [Transformed.map, Transformed.count_eq_total left.reduceStrength,
          withChildren]
        rw [← Expr.reduced, StrengthReduction.apply_multiply power]
        simp [Except.map, Nat.add_comm]
      · have still :
            ¬ StrengthReduction.Reducible
              (expression.withChildren (expression.children.map reduced)) := by
          rwa [reducible_withChildren_reduced_iff]
        rw [reduceStrength_of_not_reducible reducible, Transformed.bind_eq_self]
        rw [Transformed.map, Transformed.result_traverse]
        exact StrengthReduction.apply_of_not_reducible still

/-! ## Calls stay -/

theorem calledNames_reduced (expression : Expr) :
    expression.reduced.calledNames = expression.calledNames := by
  induction expression using childrenInduction with
  | node expression hypothesis =>
      rcases expression.reduced_cases with
        ⟨left, word, rfl, _, product⟩ | ⟨_, kept⟩
      · have leftNames := hypothesis left List.mem_cons_self
        rw [product, calledNames_binary, calledNames_binary, leftNames,
          calledNames_literal, calledNames_literal]
      · have sameCallee := callee?_withChildren_map
          (fun child name =>
            ⟨eq_of_reduced_eq_leaf rfl, fun equal => by rw [equal, reduced_ident]⟩)
          expression
        rw [kept, calledNames_eq, sameCallee, calledNames_eq expression,
          children_withChildren (List.length_map _), List.flatMap_map]
        congr 1
        exact List.flatMap_congr hypothesis

/-! ## Settled expressions stay settled -/

theorem settled_reduced
    {expression : Expr}
    (settled : Folding.Settled expression) :
    Folding.Settled expression.reduced := by
  induction expression using childrenInduction with
  | node expression hypothesis =>
      rcases (Folding.settled_iff expression).1 settled with ⟨kept, below⟩
      rw [Folding.settled_iff]
      rcases expression.reduced_cases with
        ⟨left, word, rfl, _, product⟩ | ⟨_, same⟩
      · rw [product]
        constructor
        · cases leftReduced : left.reduced with
          | literal value =>
              rw [eq_of_reduced_eq_leaf rfl leftReduced] at kept
              cases value with
              | int _ => cases kept
              | _ => rfl
          | _ => rfl
        · intro child member
          rcases List.mem_pair.1 member with rfl | rfl
          · exact hypothesis left List.mem_cons_self
              (below left List.mem_cons_self)
          · exact Folding.settled_literal _
      · rw [same, children_withChildren (List.length_map _)]
        constructor
        · exact Folding.rule_withChildren_map_eq_keep
            (fun child value => eq_of_reduced_eq_leaf rfl) kept
        · intro child member
          rcases List.mem_map.1 member with ⟨old, oldMember, rfl⟩
          exact hypothesis old oldMember (below old oldMember)

end Expr

/-! ## Exponents run out -/

namespace StrengthReduction

/-- Whether a word is no power of two after so many reductions at most. -/
def exhausts : Nat → Int64 → Bool
  | 0, word => !isPowerOfTwo word
  | rounds + 1, word => !isPowerOfTwo word || exhausts rounds (exponentOf word)

theorem exhausts_of_not_isPowerOfTwo
    {word : Int64}
    (other : isPowerOfTwo word ≠ true)
    (rounds : Nat) :
    exhausts rounds word = true := by
  cases rounds <;> simp [exhausts, other]

theorem exponentOf_eq_ofNat (word : Int64) :
    ∃ exponent < 64, exponentOf word = Int64.ofNat exponent := by
  refine ⟨word.toNatClampNeg.log2, ?_, exponentOf_eq_log2 word⟩
  by_cases zero : word.toNatClampNeg = 0
  · simp [zero]
  · rw [Nat.log2_lt zero]
    have bound := word.toInt_lt
    rw [Int64.toNatClampNeg]
    omega

/-- From the exponents of words, four more reductions are the most. -/
theorem exhausts_four_of_lt :
    ∀ exponent < 64, exhausts 4 (Int64.ofNat exponent) = true := by
  decide +kernel

theorem exhausts_five (word : Int64) : exhausts 5 word = true := by
  rcases exponentOf_eq_ofNat word with ⟨exponent, small, equal⟩
  rw [exhausts, equal, exhausts_four_of_lt exponent small, Bool.or_true]

end StrengthReduction

namespace Expr

/-- No multiplication can be reduced more often than so many times. -/
def ExhaustedAfter (rounds : Nat) (expression : Expr) : Prop :=
  ∀ node ∈ expression.subexprs,
    ∀ left word, node = .binary .multiply left (.literal (.int word)) →
      StrengthReduction.exhausts rounds word = true

theorem exhaustedAfter_iff (rounds : Nat) (expression : Expr) :
    ExhaustedAfter rounds expression ↔
      (∀ left word,
        expression = .binary .multiply left (.literal (.int word)) →
          StrengthReduction.exhausts rounds word = true) ∧
      ∀ child ∈ expression.children, ExhaustedAfter rounds child :=
  expression.forall_subexprs_iff

theorem exhaustedAfter_five (expression : Expr) :
    ExhaustedAfter 5 expression := by
  intro _ _ _ word _
  exact StrengthReduction.exhausts_five word

/-- A reduction takes one round off every multiplication. -/
theorem ExhaustedAfter.reduced
    {rounds : Nat}
    {expression : Expr}
    (exhausted : ExhaustedAfter (rounds + 1) expression) :
    ExhaustedAfter rounds expression.reduced := by
  induction expression using childrenInduction with
  | node expression hypothesis =>
      have ⟨here, below⟩ := (exhaustedAfter_iff _ expression).1 exhausted
      rw [exhaustedAfter_iff]
      rcases expression.reduced_cases with
        ⟨left, word, rfl, power, product⟩ | ⟨irreducible, same⟩
      · rw [product]
        constructor
        · rintro _ _ ⟨rfl, rfl⟩
          have more := here left word rfl
          simpa [StrengthReduction.exhausts, power] using more
        · intro child member
          rcases List.mem_pair.1 member with rfl | rfl
          · exact hypothesis left List.mem_cons_self
              (below left List.mem_cons_self)
          · intro node inside
            simp [subexprs] at inside
            simp [inside]
      · rw [same, children_withChildren (List.length_map _)]
        constructor
        · intro left word equal
          rcases eq_multiply_of_withChildren_reduced equal with ⟨oldLeft, old⟩
          apply StrengthReduction.exhausts_of_not_isPowerOfTwo
          intro power
          exact irreducible ⟨oldLeft, word, old, power⟩
        · intro child member
          rcases List.mem_map.1 member with ⟨old, oldMember, rfl⟩
          exact hypothesis old oldMember (below old oldMember)

theorem ExhaustedAfter.reduced_eq_self
    {expression : Expr}
    (exhausted : ExhaustedAfter 0 expression) :
    expression.reduced = expression := by
  induction expression using childrenInduction with
  | node expression hypothesis =>
      have ⟨here, below⟩ := (exhaustedAfter_iff _ expression).1 exhausted
      rcases expression.reduced_cases with
        ⟨left, word, rfl, power, _⟩ | ⟨_, same⟩
      · have none := here left word rfl
        simp [StrengthReduction.exhausts, power] at none
      · have children :
            expression.children.map Expr.reduced = expression.children := by
          calc
            expression.children.map Expr.reduced =
                expression.children.map id :=
              List.map_congr_left fun child member =>
                hypothesis child member (below child member)
            _ = expression.children := List.map_id _
        rw [same, children, withChildren_children]

end Expr

/-! ## Strength reduction of a program -/

/-- The statement that strength reduction leaves. -/
def Stmt.reduced (statement : Stmt) : Stmt :=
  statement.reduceStrength.result

/-- The function that strength reduction leaves. -/
def FunctionDef.reduced (definition : FunctionDef) : FunctionDef :=
  { definition with body := definition.body.reduced }

/-- The program that strength reduction leaves. -/
def Program.reduced (program : Program) : Program :=
  program.reduceStrength.result

theorem Stmt.function?_reduced (statement : Stmt) :
    statement.reduced.function? =
      statement.function?.map FunctionDef.reduced := by
  cases statement <;> rfl

theorem Stmt.callView_reduced (statement : Stmt) :
    statement.reduced.callView = statement.callView := by
  cases statement with
  | function name parameters body =>
      have calls := body.calledNames_reduced
      exact congrArg (fun called => (some name, called ++ [])) calls
  | _ => rfl

theorem Stmt.reduced_eq_self
    {statement : Stmt}
    (outside : statement.isFunction = false) :
    statement.reduced = statement := by
  cases statement with
  | function name parameters body => cases outside
  | _ => rfl

namespace Program

theorem reduced_eq (program : Program) :
    program.reduced =
      { program with statements := program.statements.map Stmt.reduced } :=
  congrArg (Program.mk program.module)
    (Transformed.result_traverse Stmt.reduceStrength program.statements)

theorem functions_reduced (program : Program) :
    program.reduced.functions =
      program.functions.map FunctionDef.reduced := by
  rw [reduced_eq, functions, functions, List.filterMap_map,
    List.map_filterMap]
  congr 1
  funext statement
  exact statement.function?_reduced

theorem defines_reduced (program : Program) (name : String) :
    program.reduced.defines name = program.defines name := by
  rw [defines, functions_reduced, List.any_map]
  rfl

theorem liveNames_reduced (program : Program) (entryPoint : String) :
    program.reduced.liveNames entryPoint = program.liveNames entryPoint := by
  apply liveNames_congr
  rw [reduced_eq, List.map_map]
  apply List.map_congr_left
  intro statement _
  exact statement.callView_reduced

/-- No multiplication in a function can be reduced more often than this. -/
def ExhaustedAfter (rounds : Nat) (program : Program) : Prop :=
  ∀ definition ∈ program.functions, definition.body.ExhaustedAfter rounds

theorem exhaustedAfter_five (program : Program) : program.ExhaustedAfter 5 := by
  intro definition _
  exact definition.body.exhaustedAfter_five

theorem ExhaustedAfter.reduced
    {rounds : Nat}
    {program : Program}
    (exhausted : program.ExhaustedAfter (rounds + 1)) :
    program.reduced.ExhaustedAfter rounds := by
  intro definition member
  rw [functions_reduced] at member
  rcases List.mem_map.1 member with ⟨old, oldMember, rfl⟩
  exact (exhausted old oldMember).reduced

theorem ExhaustedAfter.reduced_eq_self
    {program : Program}
    (exhausted : program.ExhaustedAfter 0) :
    program.reduced = program := by
  have same : program.statements.map Stmt.reduced = program.statements := by
    calc
      program.statements.map Stmt.reduced = program.statements.map id :=
        List.map_congr_left fun statement member => by
          cases statement with
          | function name parameters body =>
              have inside : ⟨name, parameters, body⟩ ∈ program.functions :=
                List.mem_filterMap.2 ⟨_, member, rfl⟩
              have body := (exhausted _ inside).reduced_eq_self
              exact congrArg (Stmt.function name parameters) body
          | _ => exact Stmt.reduced_eq_self rfl
      _ = program.statements := List.map_id _
  rw [reduced_eq, same]

end Program

end MiddleEnd
