import MiddleEnd.Proofs.Children
import MiddleEnd.Proofs.Printing.Layout
import MiddleEnd.Proofs.Printing.Literal

/-!
# Indentation

A line of a program begins with a statement or with the brace that closes a
block, and how many blocks are around it is told by the tree alone.
`Program.lineDepths` lists these depths.  The main statement says that what
stands on the lines does not depend on the level at which a program is written:
the level only decides how many spaces each line starts with, two for each
block and for each level, and none below zero.  It holds where a word can count
the spaces; so far below zero that it cannot, lines are indented again.

Names must not hold a newline of their own.  Strings may, since they are written
with escapes.
-/

namespace MiddleEnd

/-! ## Names and depths -/

/-- The names that a statement has besides those of its expression. -/
def Stmt.ownNames : Stmt → List String
  | .expr _ => []
  | .bind name _ => [name]
  | .ret _ => []
  | .function name parameters _ => name :: parameters
  | .use path => [path]

/-- The names that an expression has besides those of its children. -/
def Expr.ownNames : Expr → List String
  | .ident name => [name]
  | .assign target _ => [target]
  | .block statements => statements.flatMap Stmt.ownNames
  | _ => []

/-- All names of a program: of variables, functions, parameters and modules. -/
def Program.names (program : Program) : List String :=
  program.statements.flatMap fun statement =>
    statement.ownNames ++ statement.subexprs.flatMap Expr.ownNames

mutual

/--
The depths of the lines that begin inside an expression, counted from the line
on which the expression begins.  The statements of a block are one deeper than
the brace that closes it.
-/
def Expr.lineDepths : Expr → List Nat
  | .literal _ => []
  | .ident _ => []
  | .unary _ operand => operand.lineDepths
  | .binary _ left right => left.lineDepths ++ right.lineDepths
  | .call callee arguments =>
      callee.lineDepths ++ Expr.lineDepthsOfList arguments
  | .branch condition thenBranch elseBranch =>
      condition.lineDepths ++ thenBranch.lineDepths ++
        Expr.lineDepthsOfOption elseBranch
  | .loop condition body => condition.lineDepths ++ body.lineDepths
  | .block statements => (Stmt.lineDepthsOfList statements).map (· + 1) ++ [0]
  | .assign _ value => value.lineDepths

/-- The depths of the lines inside the expressions of a list. -/
def Expr.lineDepthsOfList : List Expr → List Nat
  | [] => []
  | expression :: rest =>
      expression.lineDepths ++ Expr.lineDepthsOfList rest

/-- The depths of the lines inside an expression that may be missing. -/
def Expr.lineDepthsOfOption : Option Expr → List Nat
  | none => []
  | some expression => expression.lineDepths

/-- The depths of the lines of a statement. -/
def Stmt.lineDepths : Stmt → List Nat
  | .expr expression => 0 :: expression.lineDepths
  | .bind _ value => 0 :: value.lineDepths
  | .ret value => 0 :: Expr.lineDepthsOfOption value
  | .function _ _ body => 0 :: body.lineDepths
  | .use _ => [0]

/-- The depths of the lines of the statements of a list. -/
def Stmt.lineDepthsOfList : List Stmt → List Nat
  | [] => []
  | statement :: rest => statement.lineDepths ++ Stmt.lineDepthsOfList rest

end

/-- The depths of the lines of a program. -/
def Program.lineDepths (program : Program) : List Nat :=
  Stmt.lineDepthsOfList program.statements

/-! ## Expressions -/

theorem newline_not_mem_unary (op : UnaryOp) : '\n' ∉ op.spelling.toList := by
  cases op <;> decide

theorem newline_not_mem_binary (op : BinaryOp) : '\n' ∉ op.spelling.toList := by
  cases op <;> decide

/-- What closes a statement, before the newline. -/
def Expr.closing (expression : Expr) : String :=
  if expression.endsWithBlock then "" else ";"

theorem Expr.newline_not_mem_closing (expression : Expr) :
    '\n' ∉ expression.closing.toList := by
  unfold closing
  split <;> decide

theorem Expr.terminator_eq (expression : Expr) :
    expression.terminator = expression.closing ++ "\n" := by
  unfold terminator closing
  split <;> rfl

theorem Expr.lineDepthsOfList_eq_flatMap (expressions : List Expr) :
    Expr.lineDepthsOfList expressions = expressions.flatMap Expr.lineDepths := by
  induction expressions with
  | nil => rfl
  | cons expression rest hypothesis =>
      rw [Expr.lineDepthsOfList, hypothesis, List.flatMap_cons]

/-- The text of a second branch or of a returned value, or of none. -/
theorem Expr.lays_option
    {expression : Option Expr}
    (each :
      ∀ present ∈ expression.toList,
        Lays (fun level => present.render level) present.lineDepths) :
    Lays (fun level => Expr.renderElse level expression)
        (Expr.lineDepthsOfOption expression) ∧
      Lays (fun level => Expr.renderReturned level expression)
        (Expr.lineDepthsOfOption expression) := by
  cases expression with
  | none => exact ⟨Lays.constant (by decide), Lays.constant (by decide)⟩
  | some present =>
      have lays := each present (by simp)
      exact ⟨lays.before (by decide), lays.before (by decide)⟩

/-- A statement is made of whole lines if its expression is laid out. -/
theorem Stmt.laysLines
    {statement : Stmt}
    (unbroken : ∀ name ∈ statement.ownNames, '\n' ∉ name.toList)
    (each :
      ∀ expression ∈ statement.held,
        Lays (fun level => expression.render level) expression.lineDepths) :
    LaysLines (fun level => statement.render level) statement.lineDepths := by
  cases statement with
  | expr expression =>
      have lays := each expression (by simp [Stmt.held])
      have lines :
          LaysLines
            (fun level =>
              indentation level ++
                (expression.render level ++ expression.closing) ++ "\n")
            (Stmt.expr expression).lineDepths :=
        (lays.behind expression.newline_not_mem_closing).line
      simpa only [Stmt.render, Expr.terminator_eq, String.append_assoc] using lines
  | bind name value =>
      have lays := each value (by simp [Stmt.held])
      have ownName := unbroken name (by simp [Stmt.ownNames])
      have lines :
          LaysLines
            (fun level =>
              indentation level ++
                ("let " ++ (name ++ (" = " ++ value.render level))) ++ ";\n")
            (Stmt.bind name value).lineDepths :=
        (((lays.before (by decide)).before ownName).before (by decide)).closedLine
      simpa only [Stmt.render, String.append_assoc] using lines
  | ret value =>
      have lines :
          LaysLines
            (fun level =>
              indentation level ++
                ("return" ++ Expr.renderReturned level value) ++ ";\n")
            (Stmt.ret value).lineDepths :=
        ((Expr.lays_option each).2.before (by decide)).closedLine
      simpa only [Stmt.render, String.append_assoc] using lines
  | function name parameters body =>
      have lays := each body (by simp [Stmt.held])
      rcases List.forall_mem_cons.1 unbroken with ⟨ownName, ownParameters⟩
      have noLines : parameters.flatMap (fun _ => ([] : List Nat)) = [] :=
        List.flatMap_eq_nil_iff.2 fun _ _ => rfl
      have commas : Lays (fun _ => ", ".intercalate parameters) [] := by
        simpa [noLines] using Lays.commas fun parameter member =>
          Lays.constant (ownParameters parameter member)
      have heading :
          Lays
            (fun _ =>
              "fn " ++ name ++ "(" ++ ", ".intercalate parameters ++ ") ") [] :=
        ((((Lays.constant (by decide)).behind ownName).behind (by decide)).append
          commas).behind (by decide)
      have lines :
          LaysLines
            (fun level =>
              indentation level ++
                ("fn " ++ name ++ "(" ++ ", ".intercalate parameters ++ ") " ++
                  body.render level ++ body.closing) ++ "\n")
            (Stmt.function name parameters body).lineDepths :=
        ((heading.append lays).behind body.newline_not_mem_closing).line
      simpa only [Stmt.render, Expr.terminator_eq, String.append_assoc] using lines
  | use path =>
      have ownName := unbroken path (by simp [Stmt.ownNames])
      have lines :
          LaysLines
            (fun level => indentation level ++ ("use " ++ path) ++ ";\n")
            (Stmt.use path).lineDepths :=
        ((Lays.constant ownName).before (by decide)).closedLine
      simpa only [Stmt.render, String.append_assoc] using lines

theorem Stmt.laysLines_list
    {statements : List Stmt}
    (each :
      ∀ statement ∈ statements,
        LaysLines (fun level => statement.render level) statement.lineDepths) :
    LaysLines
      (fun level => Stmt.renderList level statements)
      (Stmt.lineDepthsOfList statements) := by
  induction statements with
  | nil => exact LaysLines.nil
  | cons statement rest hypothesis =>
      rcases List.forall_mem_cons.1 each with ⟨here, others⟩
      exact here.append (hypothesis others)

/-- An expression is laid out the same way at every level. -/
theorem Expr.lays
    (expression : Expr)
    (unbroken :
      ∀ node ∈ expression.subexprs, ∀ name ∈ node.ownNames,
        '\n' ∉ name.toList) :
    Lays (fun level => expression.render level) expression.lineDepths := by
  induction expression using Expr.childrenInduction with
  | node expression hypothesis =>
      rw [Expr.forall_subexprs_iff] at unbroken
      rcases unbroken with ⟨ownNames, below⟩
      have each :
          ∀ child ∈ expression.children,
            Lays (fun level => child.render level) child.lineDepths :=
        fun child member => hypothesis child member (below child member)
      cases expression with
      | literal value => exact Lays.constant value.newline_not_mem_render
      | ident name => exact Lays.constant (ownNames name (by simp [Expr.ownNames]))
      | unary op operand =>
          have lays := each operand (by simp [Expr.children])
          exact (lays.parenthesize _).before (newline_not_mem_unary op)
      | binary op left right =>
          have leftLays := each left (by simp [Expr.children])
          have rightLays := each right (by simp [Expr.children])
          exact
            ((((leftLays.parenthesize _).behind (by decide)).behind
              (newline_not_mem_binary op)).behind (by decide)).append
                (rightLays.parenthesize _)
      | call callee arguments =>
          rcases List.forall_mem_cons.1 each with ⟨calleeLays, argumentsLay⟩
          have commas := Lays.commas argumentsLay
          simp only [← Expr.renderList_eq_map,
            ← Expr.lineDepthsOfList_eq_flatMap] at commas
          exact
            (((calleeLays.parenthesize _).behind (by decide)).append
              commas).behind (by decide)
      | branch condition thenBranch elseBranch =>
          rcases List.forall_mem_cons.1 each with ⟨conditionLays, branches⟩
          rcases List.forall_mem_cons.1 branches with ⟨thenLays, elseLays⟩
          exact
            (((conditionLays.before (by decide)).behind (by decide)).append
              thenLays).append (Expr.lays_option elseLays).1
      | loop condition body =>
          have conditionLays := each condition (by simp [Expr.children])
          have bodyLays := each body (by simp [Expr.children])
          exact
            ((conditionLays.before (by decide)).behind (by decide)).append bodyLays
      | block statements =>
          have lines := Stmt.laysLines_list fun statement member =>
            Stmt.laysLines
              (fun name own =>
                ownNames name (List.mem_flatMap.2 ⟨statement, member, own⟩))
              (fun held inside =>
                each held (List.mem_flatMap.2 ⟨statement, member, inside⟩))
          exact lines.block
      | assign target value =>
          have lays := each value (by simp [Expr.children])
          have ownName := ownNames target (by simp [Expr.ownNames])
          exact ((Lays.constant ownName).behind (by decide)).append
            (lays.parenthesize _)

/-! ## Programs -/

theorem Program.laysLines
    {program : Program}
    (unbroken : ∀ name ∈ program.names, '\n' ∉ name.toList) :
    LaysLines (fun level => program.render level) program.lineDepths := by
  apply Stmt.laysLines_list
  intro statement member
  have names :
      ∀ name ∈ statement.ownNames ++ statement.subexprs.flatMap Expr.ownNames,
        '\n' ∉ name.toList :=
    fun name inside =>
      unbroken name (List.mem_flatMap.2 ⟨statement, member, inside⟩)
  rw [List.forall_mem_append] at names
  refine Stmt.laysLines names.1 fun expression held => Expr.lays expression ?_
  intro node inside name own
  apply names.2
  rw [Stmt.subexprs_eq_flatMap]
  exact List.mem_flatMap.2
    ⟨node, List.mem_flatMap.2 ⟨expression, held, inside⟩, own⟩

/-! ## The end of a statement -/

/-- The text ends with a newline behind a semicolon or a closing brace. -/
def EndsStatement (text : String) : Prop :=
  ∃ before, text = before ++ ";\n" ∨ text = before ++ "\x7d\n"

theorem EndsStatement.behind
    {text : String}
    (ends : EndsStatement text)
    (before : String) :
    EndsStatement (before ++ text) := by
  rcases ends with ⟨start, rfl | rfl⟩
  · exact ⟨before ++ start, Or.inl (String.append_assoc ..).symm⟩
  · exact ⟨before ++ start, Or.inr (String.append_assoc ..).symm⟩

theorem Expr.exists_render_eq_of_endsWithBlock
    (level : Int32)
    {expression : Expr}
    (block : expression.endsWithBlock = true) :
    ∃ before, expression.render level = before ++ "\x7d" := by
  fun_induction Expr.endsWithBlock expression with
  | case1 statements => exact ⟨_, rfl⟩
  | case2 condition thenBranch hypothesis =>
      rcases hypothesis block with ⟨before, written⟩
      refine ⟨"if (" ++ condition.render level ++ ") " ++ before, ?_⟩
      simp only [Expr.render, Expr.renderElse, written, String.append_assoc,
        String.append_empty]
  | case3 condition thenBranch elseBranch hypothesis =>
      rcases hypothesis block with ⟨before, written⟩
      refine ⟨"if (" ++ condition.render level ++ ") " ++
        thenBranch.render level ++ " else " ++ before, ?_⟩
      simp only [Expr.render, Expr.renderElse, written, String.append_assoc]
  | case4 condition body hypothesis =>
      rcases hypothesis block with ⟨before, written⟩
      refine ⟨"while (" ++ condition.render level ++ ") " ++ before, ?_⟩
      simp only [Expr.render, written, String.append_assoc]
  | case5 => cases block

/-- What ends with an expression is closed by a semicolon or by its brace. -/
theorem Expr.endsStatement (level : Int32) (expression : Expr) :
    EndsStatement (expression.render level ++ expression.terminator) := by
  unfold terminator
  split
  · rename_i block
    rcases exists_render_eq_of_endsWithBlock level block with ⟨before, written⟩
    refine ⟨before, Or.inr ?_⟩
    rw [written, String.append_assoc]
    rfl
  · exact ⟨expression.render level, Or.inl rfl⟩

theorem Stmt.endsStatement (level : Int32) (statement : Stmt) :
    EndsStatement (statement.render level) := by
  cases statement with
  | expr expression =>
      rw [Stmt.render, String.append_assoc]
      exact (expression.endsStatement level).behind _
  | bind name value => exact ⟨_, Or.inl rfl⟩
  | ret value => exact ⟨_, Or.inl rfl⟩
  | function name parameters body =>
      rw [Stmt.render, String.append_assoc]
      exact (body.endsStatement level).behind _
  | use path => exact ⟨_, Or.inl rfl⟩

/-- At the level the spaces of every line can be counted by a word. -/
def Program.FitsAt (program : Program) (level : Int32) : Prop :=
  ∀ depth ∈ program.lineDepths, FitsWord (2 * (depth + level.toInt))

instance (program : Program) (level : Int32) :
    Decidable (program.FitsAt level) :=
  inferInstanceAs (Decidable (∀ _ ∈ _, _))

end MiddleEnd
