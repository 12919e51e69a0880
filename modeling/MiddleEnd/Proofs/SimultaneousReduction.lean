import Mathlib.Algebra.Order.BigOperators.Group.List
import Mathlib.Algebra.Order.Ring.Nat
import MiddleEnd.Proofs.PowersOfTwo
import MiddleEnd.Proofs.StrengthReduction

/-!
# Strength reduction at all places at once

Strength reduction works its way down a tree and looks at nodes that it may have
put there itself.  What it does can be said of the original tree alone: a site is
a product with a literal power of two on its right, and the result has the
exponent there, at every site and nowhere else.  An exponent that happens to be a
power of two is not taken for one in the same run.

`Expr.ReducesTo` is that description.  It relates a tree to one other tree only,
the one that the reduction leaves, and the reductions counted are the sites.
-/

namespace MiddleEnd

/-! ## Replacements that cannot stop, counted -/

namespace Transformed

variable {α β : Type}

theorem total_eq_of_count
    {run : Transformed Empty α}
    {replacements : Nat}
    (counted : run.count = .ok replacements) :
    run.total = replacements := by
  rw [count_eq_total] at counted
  exact Except.ok.inj counted

theorem total_traverse
    (run : α → Transformed Empty α)
    (entries : List α) :
    (traverse run entries).total =
      (entries.map fun entry => (run entry).total).sum := by
  induction entries with
  | nil => rfl
  | cons entry rest hypothesis =>
      apply total_eq_of_count
      rw [traverse, andThen, count_eq_total (run entry)]
      show (traverse run rest).count.map _ = _
      rw [count_eq_total (traverse run rest), hypothesis]
      rfl

end Transformed

/-! ## Sites -/

namespace StrengthReduction

/-- The node is a product with a literal power of two on its right. -/
def IsSite (node : Expr) : Prop :=
  ∃ left word,
    node = .binary .multiply left (.literal (.int word)) ∧
      ∃ exponent ≤ 62, word.toInt = 2 ^ exponent

theorem isSite_iff_reducible (node : Expr) : IsSite node ↔ Reducible node := by
  simp only [IsSite, Reducible, isPowerOfTwo_iff]

theorem total_apply_of_isSite {node : Expr} (site : IsSite node) :
    (rule.apply node).total = 1 := by
  rw [isSite_iff_reducible] at site
  rcases site with ⟨left, word, rfl, power⟩
  rw [apply_multiply power]
  rfl

theorem total_apply_of_not_isSite {node : Expr} (elsewhere : ¬ IsSite node) :
    (rule.apply node).total = 0 := by
  rw [isSite_iff_reducible] at elsewhere
  rw [apply_of_not_reducible elsewhere]
  rfl

instance : DecidablePred IsSite := fun node =>
  decidable_of_iff ((rule.apply node).total = 1) <| by
    constructor
    · intro replaced
      by_contra elsewhere
      rw [total_apply_of_not_isSite elsewhere] at replaced
      cases replaced
    · exact total_apply_of_isSite

/-- Rewriting what is below a node makes no site of it and leaves it one. -/
theorem isSite_withChildren_reduced_iff (expression : Expr) :
    IsSite (expression.withChildren (expression.children.map Expr.reduced)) ↔
      IsSite expression := by
  rw [isSite_iff_reducible, isSite_iff_reducible]
  exact expression.reducible_withChildren_reduced_iff

end StrengthReduction

open StrengthReduction (IsSite)

namespace Expr

/-- How many nodes of the expression are sites. -/
def sites (expression : Expr) : Nat :=
  expression.subexprs.countP fun node => IsSite node

theorem sites_eq (expression : Expr) :
    expression.sites =
      (expression.children.map sites).sum +
        if IsSite expression then 1 else 0 := by
  rw [sites, subexprs_eq_cons, List.countP_cons, List.countP_flatMap]
  simp only [decide_eq_true_eq]
  rfl

theorem sites_literal (value : Literal) : (Expr.literal value).sites = 0 := by
  have elsewhere : ¬ IsSite (.literal value) := by
    rintro ⟨left, word, equal, _⟩
    cases equal
  rw [sites_eq, if_neg elsewhere]
  rfl

theorem sites_product (left : Expr) (value : Literal) :
    (Expr.binary .multiply left (.literal value)).sites =
      left.sites +
        if IsSite (.binary .multiply left (.literal value)) then 1 else 0 := by
  rw [sites_eq]
  simp [children, sites_literal]

theorem total_reduceStrength (expression : Expr) :
    expression.reduceStrength.total = expression.sites := by
  induction expression using childrenInduction with
  | node expression hypothesis =>
      by_cases site : IsSite expression
      · rcases (StrengthReduction.isSite_iff_reducible _).1 site with
          ⟨left, word, rfl, power⟩
        have below := hypothesis left List.mem_cons_self
        apply Transformed.total_eq_of_count
        rw [reduceStrength_product power,
          Transformed.count_eq_total left.reduceStrength, below, sites_product,
          if_pos site, Nat.add_comm]
        rfl
      · have irreducible : ¬ StrengthReduction.Reducible expression := by
          rwa [← StrengthReduction.isSite_iff_reducible]
        rw [reduceStrength_of_not_reducible irreducible, sites_eq, if_neg site,
          ← List.map_congr_left hypothesis]
        exact Transformed.total_traverse reduceStrength expression.children

/-! ## The tree with all sites rewritten -/

/--
The second tree is the first one with the exponent in place of the power of two
at every site, and is the same everywhere else.
-/
inductive ReducesTo : Expr → Expr → Prop where
  /-- At a site the operator stays, and sites are rewritten on its left. -/
  | site
      {left next : Expr}
      {word : Int64}
      {exponent : Nat}
      (small : exponent ≤ 62)
      (power : word.toInt = 2 ^ exponent)
      (inside : ReducesTo left next) :
      ReducesTo
        (.binary .multiply left (.literal (.int word)))
        (.binary .multiply next (.literal (.int (Int64.ofNat exponent))))
  /-- A node that is no site stays, and sites are rewritten in its children. -/
  | other
      {expression : Expr}
      {children : List Expr}
      (elsewhere : ¬ IsSite expression)
      (inside : List.Forall₂ ReducesTo expression.children children) :
      ReducesTo expression (expression.withChildren children)

theorem reduced_site
    {word : Int64}
    {exponent : Nat}
    (small : exponent ≤ 62)
    (power : word.toInt = 2 ^ exponent)
    (left : Expr) :
    (Expr.binary .multiply left (.literal (.int word))).reduced =
      .binary .multiply left.reduced
        (.literal (.int (Int64.ofNat exponent))) := by
  have passes := (isPowerOfTwo_iff word).2 ⟨exponent, small, power⟩
  rw [reduced_product passes, exponentOf_eq power]

theorem reduced_of_not_isSite
    {expression : Expr}
    (elsewhere : ¬ IsSite expression) :
    expression.reduced =
      expression.withChildren (expression.children.map reduced) := by
  apply reduced_of_not_reducible
  rwa [← StrengthReduction.isSite_iff_reducible]

theorem reducesTo_reduced (expression : Expr) :
    expression.ReducesTo expression.reduced := by
  induction expression using childrenInduction with
  | node expression hypothesis =>
      by_cases site : IsSite expression
      · rcases site with ⟨left, word, rfl, exponent, small, power⟩
        rw [reduced_site small power]
        exact ReducesTo.site small power (hypothesis left List.mem_cons_self)
      · rw [reduced_of_not_isSite site]
        apply ReducesTo.other site
        rw [List.forall₂_map_right_iff, List.forall₂_same]
        exact hypothesis

/-- No two trees can be had by rewriting all sites. -/
theorem ReducesTo.eq_reduced
    {expression result : Expr}
    (reduces : expression.ReducesTo result) :
    result = expression.reduced := by
  induction expression using childrenInduction generalizing result with
  | node expression hypothesis =>
      cases reduces with
      | @site left next word exponent small power inside =>
          rw [reduced_site small power,
            hypothesis left List.mem_cons_self inside]
      | @other _ children elsewhere inside =>
          have each := (List.forall₂_and_left _ _).2 ⟨hypothesis, inside⟩
          have rewritten : expression.children.map reduced = children := by
            rw [← List.forall₂_eq_eq_eq, List.forall₂_map_left_iff]
            exact each.imp fun _ _ pair => (pair.1 pair.2).symm
          rw [reduced_of_not_isSite elsewhere, rewritten]

theorem reducesTo_iff (expression result : Expr) :
    expression.ReducesTo result ↔ expression.reduced = result := by
  constructor
  · intro reduces
    exact reduces.eq_reduced.symm
  · rintro rfl
    exact expression.reducesTo_reduced

/-! ## Run after run -/

/-- A product that was no site does not become one. -/
theorem sites_reduced_le (expression : Expr) :
    expression.reduced.sites ≤ expression.sites := by
  induction expression using childrenInduction with
  | node expression hypothesis =>
      by_cases site : IsSite expression
      · rcases site with ⟨left, word, rfl, exponent, small, power⟩
        have below := hypothesis left List.mem_cons_self
        have here : IsSite (.binary .multiply left (.literal (.int word))) :=
          ⟨left, word, rfl, exponent, small, power⟩
        rw [reduced_site small power, sites_product, sites_product,
          if_pos here]
        split
        · exact Nat.add_le_add_right below 1
        · exact Nat.le_add_right_of_le below
      · have here :
            ¬ IsSite
              (expression.withChildren (expression.children.map reduced)) := by
          rwa [StrengthReduction.isSite_withChildren_reduced_iff]
        rw [reduced_of_not_isSite site, sites_eq, sites_eq expression,
          if_neg here, if_neg site, children_withChildren (List.length_map _),
          List.map_map]
        exact Nat.add_le_add_right (List.sum_le_sum hypothesis) 0

end Expr

/-! ## Programs -/

/--
The second statement is the first one with all sites rewritten in its body, if
it is a function; any other statement stays.
-/
inductive Stmt.ReducesTo : Stmt → Stmt → Prop where
  | function
      {name : String}
      {parameters : List String}
      {body next : Expr}
      (inside : body.ReducesTo next) :
      ReducesTo
        (.function name parameters body) (.function name parameters next)
  | other
      {statement : Stmt}
      (outside : statement.isFunction = false) :
      ReducesTo statement statement

theorem Stmt.reducesTo_iff (statement result : Stmt) :
    statement.ReducesTo result ↔ statement.reduced = result := by
  cases statement with
  | function name parameters body =>
      constructor
      · intro reduces
        cases reduces with
        | function inside =>
            rw [inside.eq_reduced]
            rfl
        | other outside => cases outside
      · rintro rfl
        exact ReducesTo.function body.reducesTo_reduced
  | _ =>
      constructor
      · intro reduces
        cases reduces
        rfl
      · rintro rfl
        exact ReducesTo.other rfl

theorem Stmt.total_reduceStrength (statement : Stmt) :
    statement.reduceStrength.total =
      (statement.function?.toList.map fun definition =>
        definition.body.sites).sum := by
  cases statement with
  | function name parameters body => exact body.total_reduceStrength
  | _ => rfl

namespace Program

theorem total_reduceStrength (program : Program) :
    program.reduceStrength.total =
      (program.functions.map fun definition => definition.body.sites).sum := by
  have each :
      (program.statements.map fun statement => statement.reduceStrength.total) =
        program.statements.map fun statement =>
          (statement.function?.toList.map fun definition =>
            definition.body.sites).sum :=
    List.map_congr_left fun statement _ => statement.total_reduceStrength
  calc
    program.reduceStrength.total =
        (Transformed.traverse Stmt.reduceStrength program.statements).total :=
      rfl
    _ = (program.statements.map fun statement =>
          statement.reduceStrength.total).sum :=
      Transformed.total_traverse Stmt.reduceStrength program.statements
    _ = (program.functions.map fun definition =>
          definition.body.sites).sum := by
      rw [each, functions, List.filterMap_eq_flatMap_toList, List.map_flatMap,
        List.flatMap_def, List.sum_flatten, List.map_map]
      rfl

/-- One program only is had by rewriting all sites of all functions. -/
theorem reducesTo_iff (program : Program) (statements : List Stmt) :
    List.Forall₂ Stmt.ReducesTo program.statements statements ↔
      program.reduced = { program with statements } := by
  have each :
      List.Forall₂ Stmt.ReducesTo program.statements statements ↔
        program.statements.map Stmt.reduced = statements := by
    rw [← List.forall₂_eq_eq_eq, List.forall₂_map_left_iff]
    simp only [← Stmt.reducesTo_iff]
  rw [each, reduced_eq]
  constructor
  · rintro rfl
    rfl
  · intro same
    exact congrArg Program.statements same

end Program

/--
Strength reduction rewrites all sites of a tree at once.  It counts the sites and
leaves the one tree in which every power of two at a site is replaced by its
exponent, and nothing else; of a program it rewrites the bodies of the functions
in this way.  Run again and again, it never finds more sites than it did before.
-/
theorem StrengthReduction.rewrites_sites_at_once :
    (∀ expression : Expr,
      expression.reduceStrength.count = .ok (expression.subexprs.countP IsSite) ∧
      ∀ result,
        expression.ReducesTo result ↔
          expression.reduceStrength.result = result) ∧
    (∀ program : Program,
      program.reduceStrength.count =
        .ok (program.functions.map fun definition =>
          definition.body.subexprs.countP IsSite).sum ∧
      ∀ statements,
        List.Forall₂ Stmt.ReducesTo program.statements statements ↔
          program.reduceStrength.result = { program with statements }) ∧
    ∀ expression : Expr,
      Antitone fun runs =>
        ((fun current : Expr => current.reduceStrength.result)^[runs]
          expression).reduceStrength.total := by
  refine ⟨?_, ?_, ?_⟩
  · intro expression
    constructor
    · rw [Transformed.count_eq_total, expression.total_reduceStrength]
      rfl
    · exact expression.reducesTo_iff
  · intro program
    constructor
    · rw [Transformed.count_eq_total, program.total_reduceStrength]
      rfl
    · exact program.reducesTo_iff
  · intro expression
    apply antitone_nat_of_succ_le
    intro runs
    rw [Function.iterate_succ_apply', Expr.total_reduceStrength,
      Expr.total_reduceStrength]
    exact Expr.sites_reduced_le _

/-- The exponents are powers of two again, and are left for the next run. -/
example :
    let product left (word : Int64) :=
      Expr.binary .multiply left (.literal (.int word))
    (product (product (.ident "x") 4) 16).reduceStrength =
      ⟨product (product (.ident "x") 2) 4, .ok 2⟩ := by
  cbv

end MiddleEnd
