import MiddleEnd.Proofs.Printing.Token

/-!
# Which conditional a second branch belongs to

A condition is written in parentheses, but the branches of a conditional and the
body of a loop are written bare.  Where a first branch ends in a conditional
that has no second branch of its own, a second branch that follows it reads as
that of the inner conditional.  Such a second branch is misplaced: the text is
also that of an expression in which it belongs to the inner one.

On names, conditionals and loops this is all that the text leaves open.
`Expr.elsesMoved` gives every misplaced second branch to the nearest conditional
before it that has none, which keeps the text, and an expression without
misplaced branches is determined by its text.
-/

namespace MiddleEnd

/-- An expression of names, conditionals and loops; no name is a keyword. -/
inductive Control : Expr → Prop where
  | ident {name : String}
      (nonempty : name ≠ "")
      (letters : ∀ letter ∈ name.toList, letter.isAlpha = true)
      (free : name ∉ ["if", "else", "while"]) :
      Control (.ident name)
  | single {condition thenBranch : Expr}
      (conditionControl : Control condition)
      (thenControl : Control thenBranch) :
      Control (.branch condition thenBranch none)
  | double {condition thenBranch elseBranch : Expr}
      (conditionControl : Control condition)
      (thenControl : Control thenBranch)
      (elseControl : Control elseBranch) :
      Control (.branch condition thenBranch (some elseBranch))
  | loop {condition body : Expr}
      (conditionControl : Control condition)
      (bodyControl : Control body) :
      Control (.loop condition body)

/-- What makes a name a word that is no keyword can be decided. -/
theorem Control.word
    {name : String}
    (valid :
      name ≠ "" ∧ name.toList.all Char.isAlpha = true ∧
        name ∉ ["if", "else", "while"]) :
    Control (.ident name) :=
  .ident valid.1 (List.all_eq_true.1 valid.2.1) valid.2.2

/-! ## Tokens of conditionals and loops -/

/-- A keyword with its condition, and the tokens that follow. -/
def Token.guarded (keyword : String) (condition rest : List Token) :
    List Token :=
  .word keyword :: .opening :: (condition ++ .closing :: rest)

namespace Expr

/-- The tokens of names, conditionals and loops. -/
def controlTokens : Expr → List Token
  | .ident name => [.word name]
  | .branch condition thenBranch none =>
      Token.guarded "if" condition.controlTokens thenBranch.controlTokens
  | .branch condition thenBranch (some elseBranch) =>
      Token.guarded "if" condition.controlTokens
        (thenBranch.controlTokens ++
          .word "else" :: elseBranch.controlTokens)
  | .loop condition body =>
      Token.guarded "while" condition.controlTokens body.controlTokens
  | _ => []

/-- A keyword with its condition, and the text that follows. -/
def guardedText (keyword : String) (condition rest : List Char) : List Char :=
  keyword.toList ++ ' ' :: '(' :: (condition ++ ')' :: ' ' :: rest)

theorem text_single (condition thenBranch : Expr) :
    (Expr.branch condition thenBranch none).text =
      guardedText "if" condition.text thenBranch.text := by
  simp [text, source, render, renderElse, guardedText]

theorem text_double (condition thenBranch elseBranch : Expr) :
    (Expr.branch condition thenBranch (some elseBranch)).text =
      guardedText "if" condition.text
        (thenBranch.text ++
          ' ' :: ("else".toList ++ ' ' :: elseBranch.text)) := by
  simp [text, source, render, renderElse, guardedText]

theorem text_loop (condition body : Expr) :
    (Expr.loop condition body).text =
      guardedText "while" condition.text body.text := by
  simp [text, source, render, guardedText]

end Expr

namespace Token

theorem scans_keyword
    {keyword : String}
    (member : keyword ∈ ["if", "else", "while"]) :
    Scans keyword.toList [.word keyword] := by
  simp only [List.mem_cons, List.not_mem_nil, or_false] at member
  rcases member with rfl | rfl | rfl
  · exact scans_word (by decide) (List.all_eq_true.1 (by decide))
  · exact scans_word (by decide) (List.all_eq_true.1 (by decide))
  · exact scans_word (by decide) (List.all_eq_true.1 (by decide))

theorem Scans.guarded
    {keyword : String}
    (member : keyword ∈ ["if", "else", "while"])
    {condition rest : List Char}
    {conditionTokens restTokens : List Token}
    (conditionScans : Scans condition conditionTokens)
    (restScans : Scans rest restTokens) :
    Scans (Expr.guardedText keyword condition rest)
      (guarded keyword conditionTokens restTokens) := by
  intro after stops
  simp only [Expr.guardedText, List.append_assoc, List.cons_append]
  rw [scans_keyword member _ (stops_blank _), scan_of_blank blank_kind,
    scan_of_mark opening_kind, conditionScans _ (stops_closing _),
    scan_of_mark closing_kind, scan_of_blank blank_kind,
    restScans _ stops]
  simp [Token.guarded, Function.comp_def]

theorem scans_controlText
    {expression : Expr}
    (control : Control expression) :
    Scans expression.text expression.controlTokens := by
  induction control with
  | ident nonempty letters _ =>
      rw [Expr.controlTokens]
      exact scans_word nonempty letters
  | single _ _ conditionScans thenScans =>
      rw [Expr.text_single, Expr.controlTokens]
      exact conditionScans.guarded (by decide) thenScans
  | double _ _ _ conditionScans thenScans elseScans =>
      rw [Expr.text_double, Expr.controlTokens]
      apply conditionScans.guarded (by decide)
      intro rest stops
      simp only [List.append_assoc, List.cons_append]
      rw [thenScans _ (stops_blank _), scan_of_blank blank_kind,
        scans_keyword (by decide) _ (stops_blank _),
        scan_of_blank blank_kind, elseScans _ stops]
      simp [Function.comp_def]
  | loop _ _ conditionScans bodyScans =>
      rw [Expr.text_loop, Expr.controlTokens]
      exact conditionScans.guarded (by decide) bodyScans

end Token

/-! ## Misplaced second branches -/

namespace Expr

/-- Whether a second branch that follows the expression would become part of it. -/
def openEnded : Expr → Bool
  | .branch _ _ none => true
  | .branch _ _ (some elseBranch) => elseBranch.openEnded
  | .loop _ body => body.openEnded
  | _ => false

/-- A conditional whose first branch would take the second one for its own. -/
def Misplaces : Expr → Prop
  | .branch _ thenBranch (some _) => thenBranch.openEnded = true
  | _ => False

/-- No second branch in the expression is misplaced. -/
def ElsesInPlace (expression : Expr) : Prop :=
  ∀ node ∈ expression.subexprs, ¬ node.Misplaces

theorem elsesInPlace_iff (expression : Expr) :
    expression.ElsesInPlace ↔
      ¬ expression.Misplaces ∧
        ∀ child ∈ expression.children, child.ElsesInPlace :=
  expression.forall_subexprs_iff

theorem elsesInPlace_single_iff (condition thenBranch : Expr) :
    (Expr.branch condition thenBranch none).ElsesInPlace ↔
      condition.ElsesInPlace ∧ thenBranch.ElsesInPlace := by
  rw [elsesInPlace_iff]
  simp [children, Misplaces]

theorem elsesInPlace_double_iff (condition thenBranch elseBranch : Expr) :
    (Expr.branch condition thenBranch (some elseBranch)).ElsesInPlace ↔
      thenBranch.openEnded = false ∧ condition.ElsesInPlace ∧
        thenBranch.ElsesInPlace ∧ elseBranch.ElsesInPlace := by
  rw [elsesInPlace_iff]
  simp [children, Misplaces]

theorem elsesInPlace_loop_iff (condition body : Expr) :
    (Expr.loop condition body).ElsesInPlace ↔
      condition.ElsesInPlace ∧ body.ElsesInPlace := by
  rw [elsesInPlace_iff]
  simp [children, Misplaces]

theorem elsesInPlace_ident (name : String) :
    (Expr.ident name).ElsesInPlace := by
  rw [elsesInPlace_iff]
  simp [children, Misplaces]

/-- The tokens do not go on with a second branch that the expression would take. -/
def EndsBefore (expression : Expr) (rest : List Token) : Prop :=
  expression.openEnded = true → rest.head? ≠ some (.word "else")

theorem endsBefore_closing (expression : Expr) (rest : List Token) :
    expression.EndsBefore (.closing :: rest) := by
  intro _
  simp

theorem EndsBefore.of_closed
    {expression : Expr}
    (closed : expression.openEnded = false)
    (rest : List Token) :
    expression.EndsBefore rest := by
  intro opened
  rw [closed] at opened
  contradiction

/--
No other expression without misplaced branches has the tokens of this one,
whatever follows them without becoming part of it.
-/
def Determined (first : Expr) : Prop :=
  ∀ second : Expr, Control second → second.ElsesInPlace →
    ∀ firstRest secondRest : List Token,
      first.EndsBefore firstRest → second.EndsBefore secondRest →
      first.controlTokens ++ firstRest =
        second.controlTokens ++ secondRest →
      first = second ∧ firstRest = secondRest

/-- A condition ends at its parenthesis. -/
theorem Determined.of_guarded
    {condition other : Expr}
    (determined : condition.Determined)
    (otherControl : Control other)
    (otherInPlace : other.ElsesInPlace)
    {keyword : String}
    {inside otherInside rest otherRest : List Token}
    (same :
      Token.guarded keyword condition.controlTokens inside ++ rest =
        Token.guarded keyword other.controlTokens otherInside ++ otherRest) :
    condition = other ∧ inside ++ rest = otherInside ++ otherRest := by
  simp only [Token.guarded, List.cons_append, List.append_assoc,
    List.cons.injEq, true_and] at same
  rcases determined other otherControl otherInPlace _ _
      (endsBefore_closing _ _) (endsBefore_closing _ _) same with
    ⟨sameCondition, sameRest⟩
  exact ⟨sameCondition, List.tail_eq_of_cons_eq sameRest⟩

theorem guarded_ne_guarded
    {keyword other : String}
    (different : keyword ≠ other)
    {condition inside rest otherCondition otherInside otherRest : List Token} :
    Token.guarded keyword condition inside ++ rest ≠
      Token.guarded other otherCondition otherInside ++ otherRest := by
  intro same
  simp only [Token.guarded, List.cons_append, List.cons.injEq,
    Token.word.injEq] at same
  exact different same.1

/-- A name is no keyword, so it is told from what starts with one. -/
theorem word_ne_guarded
    {name keyword : String}
    (free : name ∉ ["if", "else", "while"])
    (member : keyword ∈ ["if", "else", "while"])
    {condition inside rest otherRest : List Token} :
    [Token.word name] ++ rest ≠
      Token.guarded keyword condition inside ++ otherRest := by
  intro same
  simp only [Token.guarded, List.cons_append, List.nil_append,
    List.cons.injEq, Token.word.injEq] at same
  rw [same.1] at free
  exact free member

theorem determined_ident
    {name : String}
    (free : name ∉ ["if", "else", "while"]) :
    (Expr.ident name).Determined := by
  intro second secondControl _ firstRest secondRest _ _ same
  cases secondControl with
  | ident =>
      simp only [controlTokens, List.cons_append, List.nil_append,
        List.cons.injEq, Token.word.injEq] at same
      rw [same.1]
      exact ⟨rfl, same.2⟩
  | single => exact absurd same (word_ne_guarded free (by decide))
  | double => exact absurd same (word_ne_guarded free (by decide))
  | loop => exact absurd same (word_ne_guarded free (by decide))

theorem Determined.single
    {condition thenBranch : Expr}
    (conditionDetermined : condition.Determined)
    (thenDetermined : thenBranch.Determined) :
    (Expr.branch condition thenBranch none).Determined := by
  intro second secondControl inPlace firstRest secondRest firstEnds secondEnds
    same
  cases secondControl with
  | ident _ _ free => exact absurd same.symm (word_ne_guarded free (by decide))
  | single otherCondition otherThen =>
      rcases (elsesInPlace_single_iff _ _).1 inPlace with
        ⟨conditionInPlace, thenInPlace⟩
      rcases conditionDetermined.of_guarded otherCondition conditionInPlace
          same with ⟨rfl, branches⟩
      rcases thenDetermined _ otherThen thenInPlace _ _
          (fun _ => firstEnds rfl) (fun _ => secondEnds rfl) branches with
        ⟨rfl, rests⟩
      exact ⟨rfl, rests⟩
  | double otherCondition otherThen =>
      rcases (elsesInPlace_double_iff _ _ _).1 inPlace with
        ⟨closed, conditionInPlace, thenInPlace, _⟩
      rcases conditionDetermined.of_guarded otherCondition conditionInPlace
          same with ⟨_, branches⟩
      rw [List.append_assoc, List.cons_append] at branches
      rcases thenDetermined _ otherThen thenInPlace _ _
          (fun _ => firstEnds rfl) (EndsBefore.of_closed closed _)
          branches with ⟨_, rests⟩
      rw [rests] at firstEnds
      exact absurd rfl (firstEnds rfl)
  | loop => exact absurd same (guarded_ne_guarded (by decide))

theorem Determined.double
    {condition thenBranch elseBranch : Expr}
    (closed : thenBranch.openEnded = false)
    (conditionDetermined : condition.Determined)
    (thenDetermined : thenBranch.Determined)
    (elseDetermined : elseBranch.Determined) :
    (Expr.branch condition thenBranch (some elseBranch)).Determined := by
  intro second secondControl inPlace firstRest secondRest firstEnds secondEnds
    same
  cases secondControl with
  | ident _ _ free => exact absurd same.symm (word_ne_guarded free (by decide))
  | single otherCondition otherThen =>
      rcases (elsesInPlace_single_iff _ _).1 inPlace with
        ⟨conditionInPlace, thenInPlace⟩
      rcases conditionDetermined.of_guarded otherCondition conditionInPlace
          same with ⟨_, branches⟩
      rw [List.append_assoc, List.cons_append] at branches
      rcases thenDetermined _ otherThen thenInPlace _ _
          (EndsBefore.of_closed closed _) (fun _ => secondEnds rfl)
          branches with ⟨_, rests⟩
      rw [← rests] at secondEnds
      exact absurd rfl (secondEnds rfl)
  | double otherCondition otherThen otherElse =>
      rcases (elsesInPlace_double_iff _ _ _).1 inPlace with
        ⟨otherClosed, conditionInPlace, thenInPlace, elseInPlace⟩
      rcases conditionDetermined.of_guarded otherCondition conditionInPlace
          same with ⟨rfl, branches⟩
      simp only [List.append_assoc, List.cons_append] at branches
      rcases thenDetermined _ otherThen thenInPlace _ _
          (EndsBefore.of_closed closed _)
          (EndsBefore.of_closed otherClosed _) branches with ⟨rfl, others⟩
      rcases elseDetermined _ otherElse elseInPlace _ _ firstEnds secondEnds
          (List.tail_eq_of_cons_eq others) with ⟨rfl, rests⟩
      exact ⟨rfl, rests⟩
  | loop => exact absurd same (guarded_ne_guarded (by decide))

theorem Determined.loop
    {condition body : Expr}
    (conditionDetermined : condition.Determined)
    (bodyDetermined : body.Determined) :
    (Expr.loop condition body).Determined := by
  intro second secondControl inPlace firstRest secondRest firstEnds secondEnds
    same
  cases secondControl with
  | ident _ _ free => exact absurd same.symm (word_ne_guarded free (by decide))
  | single => exact absurd same (guarded_ne_guarded (by decide))
  | double => exact absurd same (guarded_ne_guarded (by decide))
  | loop otherCondition otherBody =>
      rcases (elsesInPlace_loop_iff _ _).1 inPlace with
        ⟨conditionInPlace, bodyInPlace⟩
      rcases conditionDetermined.of_guarded otherCondition conditionInPlace
          same with ⟨rfl, bodies⟩
      rcases bodyDetermined _ otherBody bodyInPlace _ _ firstEnds secondEnds
          bodies with ⟨rfl, rests⟩
      exact ⟨rfl, rests⟩

theorem determined_of_elsesInPlace
    {expression : Expr}
    (control : Control expression)
    (inPlace : expression.ElsesInPlace) :
    expression.Determined := by
  induction control with
  | ident _ _ free => exact determined_ident free
  | single _ _ conditionHypothesis thenHypothesis =>
      rcases (elsesInPlace_single_iff _ _).1 inPlace with
        ⟨conditionInPlace, thenInPlace⟩
      exact (conditionHypothesis conditionInPlace).single
        (thenHypothesis thenInPlace)
  | double _ _ _ conditionHypothesis thenHypothesis elseHypothesis =>
      rcases (elsesInPlace_double_iff _ _ _).1 inPlace with
        ⟨closed, conditionInPlace, thenInPlace, elseInPlace⟩
      exact (conditionHypothesis conditionInPlace).double closed
        (thenHypothesis thenInPlace) (elseHypothesis elseInPlace)
  | loop _ _ conditionHypothesis bodyHypothesis =>
      rcases (elsesInPlace_loop_iff _ _).1 inPlace with
        ⟨conditionInPlace, bodyInPlace⟩
      exact (conditionHypothesis conditionInPlace).loop
        (bodyHypothesis bodyInPlace)

/-- Without misplaced branches the text determines the expression. -/
theorem eq_of_source_eq
    {first second : Expr}
    (firstControl : Control first)
    (secondControl : Control second)
    (firstInPlace : first.ElsesInPlace)
    (secondInPlace : second.ElsesInPlace)
    (same : first.source = second.source) :
    first = second := by
  have firstScans := Token.scans_controlText firstControl [] Token.stops_nil
  have secondScans := Token.scans_controlText secondControl [] Token.stops_nil
  have texts : first.text = second.text := congrArg String.toList same
  rw [texts, secondScans] at firstScans
  have tokens : first.controlTokens ++ [] = second.controlTokens ++ [] := by
    simpa using firstScans.symm
  exact (determined_of_elsesInPlace firstControl firstInPlace second
    secondControl secondInPlace [] [] (by simp [EndsBefore])
    (by simp [EndsBefore]) tokens).1

/-! ## Moving second branches -/

/-- Gives a second branch to the last conditional that can take one. -/
def giveElse (elseBranch : Expr) : Expr → Expr
  | .branch condition thenBranch none =>
      if thenBranch.openEnded then
        .branch condition (giveElse elseBranch thenBranch) none
      else
        .branch condition thenBranch (some elseBranch)
  | .branch condition thenBranch (some other) =>
      .branch condition thenBranch (some (giveElse elseBranch other))
  | .loop condition body => .loop condition (giveElse elseBranch body)
  | expression => expression

/-- Moves the second branch of a conditional that misplaces it. -/
def elseMove : Rule Empty
  | .branch condition thenBranch (some elseBranch) =>
      if thenBranch.openEnded then
        .replace (.branch condition (giveElse elseBranch thenBranch) none)
      else
        .keep
  | _ => .keep

/-- The expression with every misplaced second branch moved. -/
def elsesMoved (expression : Expr) : Expr :=
  (expression.transform elseMove).result

theorem elsesMoved_ident (name : String) :
    (Expr.ident name).elsesMoved = .ident name :=
  rfl

theorem elsesMoved_single (condition thenBranch : Expr) :
    (Expr.branch condition thenBranch none).elsesMoved =
      .branch condition.elsesMoved thenBranch.elsesMoved none :=
  result_transform elseMove (.branch condition thenBranch none)

theorem elsesMoved_loop (condition body : Expr) :
    (Expr.loop condition body).elsesMoved =
      .loop condition.elsesMoved body.elsesMoved :=
  result_transform elseMove (.loop condition body)

theorem elsesMoved_double (condition thenBranch elseBranch : Expr) :
    (Expr.branch condition thenBranch (some elseBranch)).elsesMoved =
      if thenBranch.elsesMoved.openEnded then
        .branch condition.elsesMoved
          (giveElse elseBranch.elsesMoved thenBranch.elsesMoved) none
      else
        .branch condition.elsesMoved thenBranch.elsesMoved
          (some elseBranch.elsesMoved) := by
  have moved :=
    result_transform elseMove (.branch condition thenBranch (some elseBranch))
  refine moved.trans ?_
  show elseMove.rewrite (.branch condition.elsesMoved thenBranch.elsesMoved
    (some elseBranch.elsesMoved)) = _
  cases opened : thenBranch.elsesMoved.openEnded <;>
    simp [Rule.rewrite, Rule.apply, elseMove, opened]

theorem render_giveElse
    {expression : Expr}
    (opened : expression.openEnded = true)
    (elseBranch : Expr)
    (level : Int32) :
    (giveElse elseBranch expression).render level =
      expression.render level ++ " else " ++ elseBranch.render level := by
  fun_induction giveElse elseBranch expression with
  | case1 condition thenBranch inner hypothesis =>
      simp [render, renderElse, hypothesis inner, String.append_assoc]
  | case2 condition thenBranch closed =>
      simp [render, renderElse, String.append_assoc]
  | case3 condition thenBranch other hypothesis =>
      simp [render, renderElse, hypothesis opened, String.append_assoc]
  | case4 condition body hypothesis =>
      simp [render, hypothesis opened, String.append_assoc]
  | case5 expression noSingle noDouble noLoop =>
      unfold openEnded at opened
      split at opened
      · exact absurd rfl (noSingle _ _)
      · exact absurd rfl (noDouble _ _ _)
      · exact absurd rfl (noLoop _ _)
      · contradiction

theorem ElsesInPlace.giveElse
    {expression elseBranch : Expr}
    (inPlace : expression.ElsesInPlace)
    (elseInPlace : elseBranch.ElsesInPlace) :
    (giveElse elseBranch expression).ElsesInPlace := by
  fun_induction Expr.giveElse elseBranch expression with
  | case1 condition thenBranch inner hypothesis =>
      rw [elsesInPlace_single_iff] at inPlace ⊢
      exact ⟨inPlace.1, hypothesis inPlace.2⟩
  | case2 condition thenBranch closed =>
      rw [elsesInPlace_single_iff] at inPlace
      rw [elsesInPlace_double_iff]
      exact ⟨Bool.eq_false_iff.2 closed, inPlace.1, inPlace.2, elseInPlace⟩
  | case3 condition thenBranch other hypothesis =>
      rw [elsesInPlace_double_iff] at inPlace ⊢
      rcases inPlace with
        ⟨closed, conditionInPlace, thenInPlace, otherInPlace⟩
      exact ⟨closed, conditionInPlace, thenInPlace, hypothesis otherInPlace⟩
  | case4 condition body hypothesis =>
      rw [elsesInPlace_loop_iff] at inPlace ⊢
      exact ⟨inPlace.1, hypothesis inPlace.2⟩
  | case5 => exact inPlace

end Expr

namespace Control

theorem giveElse
    {expression elseBranch : Expr}
    (control : Control expression)
    (elseControl : Control elseBranch) :
    Control (Expr.giveElse elseBranch expression) := by
  induction control with
  | ident nonempty letters free => exact ident nonempty letters free
  | single conditionControl thenControl _ thenHypothesis =>
      rw [Expr.giveElse]
      split
      · exact single conditionControl thenHypothesis
      · exact double conditionControl thenControl elseControl
  | double conditionControl thenControl _ _ _ otherHypothesis =>
      exact double conditionControl thenControl otherHypothesis
  | loop conditionControl _ _ bodyHypothesis =>
      exact loop conditionControl bodyHypothesis

theorem elsesMoved
    {expression : Expr}
    (control : Control expression) :
    Control expression.elsesMoved := by
  induction control with
  | ident nonempty letters free => exact ident nonempty letters free
  | single _ _ condition thenBranch =>
      rw [Expr.elsesMoved_single]
      exact single condition thenBranch
  | double _ _ _ condition thenBranch elseBranch =>
      rw [Expr.elsesMoved_double]
      split
      · exact single condition (thenBranch.giveElse elseBranch)
      · exact double condition thenBranch elseBranch
  | loop _ _ condition body =>
      rw [Expr.elsesMoved_loop]
      exact loop condition body

/-- Where all second branches have been moved, none is misplaced. -/
theorem elsesInPlace_elsesMoved
    {expression : Expr}
    (control : Control expression) :
    expression.elsesMoved.ElsesInPlace := by
  induction control with
  | @ident name => exact Expr.elsesInPlace_ident name
  | single _ _ condition thenBranch =>
      rw [Expr.elsesMoved_single, Expr.elsesInPlace_single_iff]
      exact ⟨condition, thenBranch⟩
  | double _ _ _ condition thenBranch elseBranch =>
      rw [Expr.elsesMoved_double]
      split
      · rw [Expr.elsesInPlace_single_iff]
        exact ⟨condition, thenBranch.giveElse elseBranch⟩
      · rename_i closed
        rw [Expr.elsesInPlace_double_iff]
        exact ⟨Bool.eq_false_iff.2 closed, condition, thenBranch, elseBranch⟩
  | loop _ _ condition body =>
      rw [Expr.elsesMoved_loop, Expr.elsesInPlace_loop_iff]
      exact ⟨condition, body⟩

/-- Moving second branches keeps the text. -/
theorem render_elsesMoved
    {expression : Expr}
    (control : Control expression)
    (level : Int32) :
    expression.elsesMoved.render level = expression.render level := by
  induction control with
  | ident => rfl
  | single _ _ condition thenBranch =>
      rw [Expr.elsesMoved_single]
      simp only [Expr.render, condition, thenBranch]
  | double _ _ _ condition thenBranch elseBranch =>
      rw [Expr.elsesMoved_double]
      split
      · rename_i opened
        simp only [Expr.render, Expr.renderElse, Expr.render_giveElse opened,
          condition, thenBranch, elseBranch, String.append_assoc,
          String.append_empty]
      · simp only [Expr.render, Expr.renderElse, condition, thenBranch,
          elseBranch]
  | loop _ _ condition body =>
      rw [Expr.elsesMoved_loop]
      simp only [Expr.render, condition, body]

end Control

namespace Expr

/--
Two expressions of names, conditionals and loops have one text exactly if they
are the same once each second branch has been given to the nearest conditional
before it that has none.  So the text determines an expression in which no
second branch follows a first branch that would take it.
-/
theorem source_eq_iff_elsesMoved_eq
    {first second : Expr}
    (firstControl : Control first)
    (secondControl : Control second) :
    (first.source = second.source ↔
      first.elsesMoved = second.elsesMoved) ∧
    (first.ElsesInPlace → second.ElsesInPlace →
      first.source = second.source → first = second) := by
  have firstText := firstControl.render_elsesMoved 0
  have secondText := secondControl.render_elsesMoved 0
  refine ⟨⟨?_, ?_⟩, eq_of_source_eq firstControl secondControl⟩
  · intro same
    apply eq_of_source_eq firstControl.elsesMoved secondControl.elsesMoved
      firstControl.elsesInPlace_elsesMoved
      secondControl.elsesInPlace_elsesMoved
    rw [source, source, firstText, secondText]
    exact same
  · intro same
    rw [source, source, ← firstText, ← secondText, same]

/-- A second branch behind a loop whose body ends in an open conditional. -/
theorem source_eq_iff_elsesMoved_eq_behind_loop :
    let inner := Expr.branch (.ident "c") (.ident "d")
    let first :=
      Expr.branch (.ident "a") (.loop (.ident "b") (inner none))
        (some (.ident "e"))
    let second :=
      Expr.branch (.ident "a") (.loop (.ident "b") (inner (some (.ident "e"))))
        none
    let third :=
      Expr.branch (.ident "a") (.loop (.ident "b") (inner none)) none
    (Control first ∧ Control second ∧ Control third) ∧
    first.source = "if (a) while (b) if (c) d else e" ∧
    first.elsesMoved = second ∧
    second.ElsesInPlace ∧ third.ElsesInPlace ∧
    second.source ≠ third.source := by
  intro inner first second third
  have opened : Control (inner none) :=
    .single (.word (by decide)) (.word (by decide))
  have firstControl : Control first :=
    .double (.word (by decide)) (.loop (.word (by decide)) opened)
      (.word (by decide))
  have secondControl : Control second :=
    .single (.word (by decide))
      (.loop (.word (by decide))
        (.double (.word (by decide)) (.word (by decide)) (.word (by decide))))
  have thirdControl : Control third :=
    .single (.word (by decide)) (.loop (.word (by decide)) opened)
  have secondInPlace : second.ElsesInPlace := by
    simp [second, inner, elsesInPlace_single_iff, elsesInPlace_double_iff,
      elsesInPlace_loop_iff, elsesInPlace_ident, openEnded]
  have thirdInPlace : third.ElsesInPlace := by
    simp [third, inner, elsesInPlace_single_iff, elsesInPlace_loop_iff,
      elsesInPlace_ident]
  have text : first.source = second.source := by decide
  refine ⟨⟨firstControl, secondControl, thirdControl⟩, by decide, ?_,
    secondInPlace, thirdInPlace, ?_⟩
  · exact (source_eq_iff_elsesMoved_eq firstControl secondControl).1.1 text
  · intro same
    have equal :=
      (source_eq_iff_elsesMoved_eq secondControl thirdControl).2
        secondInPlace thirdInPlace same
    simp [second, third, inner] at equal

/-- One text for a second branch of the outer and one of the inner conditional. -/
theorem source_leaves_else_open :
    let outer :=
      Expr.branch (.ident "a") (.branch (.ident "b") (.ident "c") none)
        (some (.ident "d"))
    let inner :=
      Expr.branch (.ident "a")
        (.branch (.ident "b") (.ident "c") (some (.ident "d"))) none
    (Control outer ∧ Control inner) ∧
    outer.source = "if (a) if (b) c else d" ∧
    inner.source = "if (a) if (b) c else d" ∧
    outer ≠ inner := by
  intro outer inner
  have outerControl : Control outer :=
    .double (.word (by decide))
      (.single (.word (by decide)) (.word (by decide))) (.word (by decide))
  have innerControl : Control inner :=
    .single (.word (by decide))
      (.double (.word (by decide)) (.word (by decide)) (.word (by decide)))
  refine ⟨⟨outerControl, innerControl⟩, by decide, by decide, ?_⟩
  simp [outer, inner]

end Expr

end MiddleEnd
