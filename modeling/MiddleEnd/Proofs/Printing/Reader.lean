import MiddleEnd.Proofs.Printing.Token

/-!
# Reading the text of an expression back

The reader takes one token after the other and keeps what it is inside of on a
stack of frames.  Where an operand is complete, the token that follows decides
how much of the stack is completed with it: an operator completes all operators
that bind at least as tightly, which makes operators of one precedence associate
to the left, and a closing mark completes all of them.

A left-rotated expression is read back from its tokens as it is.  An expression
has the text of its left-rotated form, so that form is what its text is read
as, and expressions of one text are those that can be regrouped into each other.
-/

namespace MiddleEnd

/-- What the reader is inside of. -/
inductive Frame where
  /-- Inside a parenthesis. -/
  | group
  /-- After a unary operator. -/
  | operand (op : UnaryOp)
  /-- After a binary operator and its left operand. -/
  | right (op : BinaryOp) (left : Expr)
  /-- Inside a call, with the arguments that are complete. -/
  | call (callee : Expr) (arguments : List Expr)

/-- Completes the operators that bind at least as tightly as the level. -/
def complete (level : Nat) : List Frame → Expr → List Frame × Expr
  | .operand op :: frames, expression =>
      if level ≤ Precedence.unary then
        complete level frames (.unary op expression)
      else
        (.operand op :: frames, expression)
  | .right op left :: frames, expression =>
      if level ≤ op.precedence then
        complete level frames (.binary op left expression)
      else
        (.right op left :: frames, expression)
  | frames, expression => (frames, expression)

/-- How far the reader is. -/
inductive Reading where
  /-- An operand has to follow. -/
  | awaiting (frames : List Frame)
  /-- An operand has just ended. -/
  | holding (frames : List Frame) (expression : Expr)

namespace Reading

/-- One token further. -/
def step : Reading → Token → Option Reading
  | .awaiting frames, .word name => some (.holding frames (.ident name))
  | .awaiting frames, .number value =>
      some (.holding frames (.literal (.int (Int64.ofInt value))))
  | .awaiting frames, .opening => some (.awaiting (.group :: frames))
  | .awaiting frames, .operator .subtract =>
      some (.awaiting (.operand .negate :: frames))
  | .awaiting frames, .bang => some (.awaiting (.operand .not :: frames))
  | .awaiting (.call callee [] :: frames), .closing =>
      some (.holding frames (.call callee []))
  | .holding frames expression, .operator op =>
      match complete op.precedence frames expression with
      | (frames, left) => some (.awaiting (.right op left :: frames))
  | .holding frames expression, .opening =>
      some (.awaiting (.call expression [] :: frames))
  | .holding frames expression, .comma =>
      match complete 0 frames expression with
      | (.call callee arguments :: frames, last) =>
          some (.awaiting (.call callee (arguments ++ [last]) :: frames))
      | _ => none
  | .holding frames expression, .closing =>
      match complete 0 frames expression with
      | (.group :: frames, inner) => some (.holding frames inner)
      | (.call callee arguments :: frames, last) =>
          some (.holding frames (.call callee (arguments ++ [last])))
      | _ => none
  | _, _ => none

/-- All tokens, one after the other. -/
def run : Reading → List Token → Option Reading
  | reading, [] => some reading
  | reading, token :: rest => (reading.step token).bind fun next => next.run rest

/-- The expression that is read when the text ends. -/
def finish : Reading → Option Expr
  | .awaiting _ => none
  | .holding frames expression =>
      match complete 0 frames expression with
      | ([], whole) => some whole
      | _ => none

end Reading

/-- The expression that a text is read as, if it is the text of one. -/
def Expr.read (source : String) : Option Expr :=
  (Token.scan source.toList).bind fun tokens =>
    ((Reading.awaiting []).run tokens).bind Reading.finish

/-! ## Frames -/

/-- The innermost frame does not end where an operator of the level follows. -/
def Admits : List Frame → Nat → Prop
  | .operand _ :: _, level => Precedence.unary < level
  | .right op _ :: _, level => op.precedence < level
  | _, _ => True

theorem Admits.mono
    {frames : List Frame}
    {level higher : Nat}
    (admits : Admits frames level)
    (above : level ≤ higher) :
    Admits frames higher := by
  rcases frames with _ | ⟨_ | _ | _ | _, frames⟩
  · trivial
  · trivial
  · exact Nat.lt_of_lt_of_le admits above
  · exact Nat.lt_of_lt_of_le admits above
  · trivial

theorem complete_of_admits
    {frames : List Frame}
    {level : Nat}
    (admits : Admits frames level)
    (expression : Expr) :
    complete level frames expression = (frames, expression) := by
  rcases frames with _ | ⟨_ | _ | _ | _, frames⟩
  · rfl
  · rfl
  · rw [complete, if_neg (Nat.not_le_of_lt admits)]
  · rw [complete, if_neg (Nat.not_le_of_lt admits)]
  · rfl

namespace Expr

/-- Only operators have the precedence of an operator. -/
theorem rotatable_binary_iff (op : BinaryOp) (left right : Expr) :
    (Expr.binary op left right).Rotatable ↔
      right.precedence = op.precedence ∧ op.groupsRight = false := by
  cases right with
  | binary inner middle last =>
      rw [Rotatable, BinaryOp.Regroups, precedence_binary,
        op.groupsRight_eq_false_iff, eq_comm]
  | _ =>
      have bounds := op.precedence_bounds
      simp only [Rotatable, precedence, Precedence.control,
        Precedence.assignment, Precedence.unary, Precedence.call,
        Precedence.primary, false_iff, not_and] at bounds ⊢
      intro same
      omega

/-- The right operand is written in parentheses. -/
def groupsOperand (op : BinaryOp) (right : Expr) : Bool :=
  right.precedence < op.precedence ||
    (right.precedence == op.precedence && op.groupsRight)

/--
The frames that are still open where the text of an expression ends, and the
operand that ended there.
-/
def openFrames : Expr → List Frame × Expr
  | .unary op operand => ([.operand op], operand)
  | .binary op left right =>
      if groupsOperand op right then
        ([.right op left], right)
      else
        (right.openFrames.1 ++ [.right op left], right.openFrames.2)
  | expression => ([], expression)

/-- The state of the reader where the text of an expression ends. -/
def ended (frames : List Frame) (expression : Expr) : Reading :=
  .holding (expression.openFrames.1 ++ frames) expression.openFrames.2

/-- What follows completes the expression, if it binds no more tightly. -/
theorem complete_openFrames
    {level : Nat}
    (expression : Expr)
    (frames : List Frame)
    (loose : level ≤ expression.precedence) :
    complete level (expression.openFrames.1 ++ frames)
        expression.openFrames.2 =
      complete level frames expression := by
  fun_induction openFrames expression generalizing frames with
  | case1 op operand =>
      show complete level (.operand op :: frames) operand = _
      rw [complete]
      exact if_pos loose
  | case2 op left right grouped =>
      show complete level (.right op left :: frames) right = _
      rw [complete]
      exact if_pos loose
  | case3 op left right bare hypothesis =>
      have above : op.precedence ≤ right.precedence := by
        simp only [groupsOperand, Bool.or_eq_true, decide_eq_true_eq] at bare
        omega
      have inner :=
        hypothesis (.right op left :: frames) (Nat.le_trans loose above)
      rw [← List.singleton_append, ← List.append_assoc] at inner
      refine inner.trans ?_
      show complete level (.right op left :: frames) right = _
      rw [complete]
      exact if_pos loose
  | case4 => rfl

end Expr

namespace Reading

variable {frames : List Frame}

theorem run_ended_operator
    {op : BinaryOp}
    (admits : Admits frames op.precedence)
    {expression : Expr}
    (loose : op.precedence ≤ expression.precedence)
    (rest : List Token) :
    run (Expr.ended frames expression) (.operator op :: rest) =
      run (.awaiting (.right op expression :: frames)) rest := by
  rw [run, Expr.ended, step, Expr.complete_openFrames _ _ loose,
    complete_of_admits admits]
  rfl

theorem run_ended_closing_group (expression : Expr) (rest : List Token) :
    run (Expr.ended (.group :: frames) expression) (.closing :: rest) =
      run (.holding frames expression) rest := by
  rw [run, Expr.ended, step, Expr.complete_openFrames _ _ (Nat.zero_le _)]
  rfl

theorem run_ended_closing_call
    (callee : Expr)
    (arguments : List Expr)
    (expression : Expr)
    (rest : List Token) :
    run (Expr.ended (.call callee arguments :: frames) expression)
        (.closing :: rest) =
      run (.holding frames (.call callee (arguments ++ [expression]))) rest := by
  rw [run, Expr.ended, step, Expr.complete_openFrames _ _ (Nat.zero_le _)]
  rfl

theorem run_ended_comma
    (callee : Expr)
    (arguments : List Expr)
    (expression : Expr)
    (rest : List Token) :
    run (Expr.ended (.call callee arguments :: frames) expression)
        (.comma :: rest) =
      run (.awaiting (.call callee (arguments ++ [expression]) :: frames))
        rest := by
  rw [run, Expr.ended, step, Expr.complete_openFrames _ _ (Nat.zero_le _)]
  rfl

/-- From any frames that admit the expression, its tokens are read as it. -/
def Reads (expression : Expr) : Prop :=
  ∀ frames rest,
    Admits frames expression.precedence →
      run (.awaiting frames) (expression.tokens ++ rest) =
        run (Expr.ended frames expression) rest

theorem Reads.run_enclosed
    {expression : Expr}
    (reads : Reads expression)
    (frames : List Frame)
    (rest : List Token) :
    run (.awaiting frames) (Token.enclosed true expression.tokens ++ rest) =
      run (.holding frames expression) rest := by
  show run (.awaiting (.group :: frames))
    (expression.tokens ++ [.closing] ++ rest) = _
  rw [List.append_assoc, List.singleton_append, reads (.group :: frames) _ trivial,
    run_ended_closing_group]

theorem Reads.run_left
    {op : BinaryOp}
    {left : Expr}
    (reads : Reads left)
    (admits : Admits frames op.precedence)
    (rest : List Token) :
    run (.awaiting frames)
        (Token.enclosed (left.precedence < op.precedence) left.tokens ++
          .operator op :: rest) =
      run (.awaiting (.right op left :: frames)) rest := by
  cases needed : decide (left.precedence < op.precedence) with
  | true =>
      rw [reads.run_enclosed, run, step, complete_of_admits admits]
      rfl
  | false =>
      have above := Nat.le_of_not_lt (of_decide_eq_false needed)
      show run _ (left.tokens ++ _) = _
      rw [reads _ _ (admits.mono above), run_ended_operator admits above]

theorem Reads.run_right
    {op : BinaryOp}
    {left right : Expr}
    (reads : Reads right)
    (settled : ¬ (Expr.binary op left right).Rotatable)
    (rest : List Token) :
    run (.awaiting (.right op left :: frames))
        (Token.enclosed (Expr.groupsOperand op right) right.tokens ++ rest) =
      run (Expr.ended frames (.binary op left right)) rest := by
  cases needed : Expr.groupsOperand op right with
  | true =>
      rw [reads.run_enclosed, Expr.ended, Expr.openFrames, if_pos needed]
      rfl
  | false =>
      have tighter : op.precedence < right.precedence := by
        rw [Expr.rotatable_binary_iff] at settled
        simp only [Expr.groupsOperand, Bool.or_eq_false_iff,
          Bool.and_eq_false_iff, decide_eq_false_iff_not,
          beq_eq_false_iff_ne] at needed
        grind
      show run _ (right.tokens ++ _) = _
      rw [reads (.right op left :: frames) rest tighter, Expr.ended,
        Expr.ended, Expr.openFrames, if_neg (by simp [needed]),
        List.append_assoc, List.singleton_append]

theorem openFrames_of_tight
    {expression : Expr}
    (tight : Precedence.unary < expression.precedence) :
    expression.openFrames = ([], expression) := by
  cases expression with
  | unary op operand => exact absurd tight (Nat.lt_irrefl _)
  | binary op left right =>
      exact absurd tight (Nat.lt_asymm op.precedence_bounds.2)
  | _ => rfl

theorem Reads.run_unary
    {op : UnaryOp}
    {operand : Expr}
    (reads : Reads operand)
    (rest : List Token) :
    run (.awaiting (.operand op :: frames))
        (Token.enclosed (operand.precedence ≤ Precedence.unary)
          operand.tokens ++ rest) =
      run (Expr.ended frames (.unary op operand)) rest := by
  cases needed : decide (operand.precedence ≤ Precedence.unary) with
  | true => exact reads.run_enclosed _ rest
  | false =>
      have tight := Nat.lt_of_not_le (of_decide_eq_false needed)
      show run _ (operand.tokens ++ _) = _
      rw [reads (.operand op :: frames) rest tight, Expr.ended,
        openFrames_of_tight tight]
      rfl

theorem Reads.run_callee
    {callee : Expr}
    (reads : Reads callee)
    (admits : Admits frames Precedence.call)
    (rest : List Token) :
    run (.awaiting frames)
        (Token.enclosed (callee.precedence < Precedence.call) callee.tokens ++
          .opening :: rest) =
      run (.awaiting (.call callee [] :: frames)) rest := by
  cases needed : decide (callee.precedence < Precedence.call) with
  | true =>
      rw [reads.run_enclosed]
      rfl
  | false =>
      have above := Nat.le_of_not_lt (of_decide_eq_false needed)
      show run _ (callee.tokens ++ _) = _
      rw [reads _ _ (admits.mono above), Expr.ended,
        openFrames_of_tight (Nat.lt_of_lt_of_le (by decide) above)]
      rfl

/-- The arguments of a call are read one after the other, behind those before. -/
theorem run_arguments
    (callee : Expr)
    (before : List Expr)
    {argument : Expr}
    {others : List Expr}
    (reads : ∀ each ∈ argument :: others, Reads each)
    (rest : List Token) :
    run (.awaiting (.call callee before :: frames))
        ([Token.comma].intercalate ((argument :: others).map Expr.tokens) ++
          .closing :: rest) =
      run (.holding frames (.call callee (before ++ argument :: others)))
        rest := by
  rcases List.forall_mem_cons.1 reads with ⟨here, after⟩
  induction others generalizing before argument with
  | nil =>
      rw [List.map_singleton, List.intercalate_singleton,
        here (.call callee before :: frames) _ trivial, run_ended_closing_call]
  | cons next others hypothesis =>
      rcases List.forall_mem_cons.1 after with ⟨nextReads, othersRead⟩
      rw [List.map_cons, List.map_cons, List.intercalate_cons_cons,
        List.append_assoc, List.append_assoc, List.singleton_append,
        here (.call callee before :: frames) _ trivial, run_ended_comma]
      have following := hypothesis (before ++ [argument]) after nextReads othersRead
      rw [List.append_assoc, List.singleton_append] at following
      exact following

/-- A left-rotated expression is read from its tokens as it is. -/
theorem reads_of_leftRotated
    {expression : Expr}
    (plain : Plain expression)
    (rotated : expression.LeftRotated) :
    Reads expression := by
  induction plain with
  | ident =>
      intro frames rest _
      rfl
  | @number value nonnegative =>
      intro frames rest _
      show run (.holding frames (.literal (.int (Int64.ofInt _)))) rest = _
      rw [Expr.natCast_toNat_toInt nonnegative, Int64.ofInt_toInt]
      rfl
  | @unary op operand _ hypothesis =>
      intro frames rest _
      have reads := hypothesis
        (((Expr.leftRotated_iff _).1 rotated).2 operand List.mem_cons_self)
      rw [Expr.tokens, List.cons_append]
      cases op <;> exact reads.run_unary rest
  | @binary op left right _ _ leftHypothesis rightHypothesis =>
      intro frames rest admits
      rcases (Expr.leftRotated_binary_iff op left right).1 rotated with
        ⟨settled, leftRotated, rightRotated⟩
      rw [Expr.tokens, List.append_assoc, List.cons_append,
        (leftHypothesis leftRotated).run_left admits]
      exact (rightHypothesis rightRotated).run_right settled rest
  | @call callee arguments _ _ calleeHypothesis hypothesis =>
      intro frames rest admits
      have below := ((Expr.leftRotated_iff _).1 rotated).2
      have calleeReads := calleeHypothesis (below callee List.mem_cons_self)
      have reads : ∀ argument ∈ arguments, Reads argument := by
        intro argument member
        exact hypothesis argument member
          (below argument (List.mem_cons_of_mem callee member))
      rw [Expr.tokens, Expr.tokensOfList_eq_map, List.append_assoc,
        List.cons_append, calleeReads.run_callee admits, List.append_assoc,
        List.singleton_append]
      cases arguments with
      | nil => rfl
      | cons argument others => exact run_arguments callee [] reads rest

end Reading

namespace Expr

/-- The text of a left-rotated expression is read as the expression. -/
theorem read_source_of_leftRotated
    {expression : Expr}
    (plain : Plain expression)
    (rotated : expression.LeftRotated) :
    Expr.read expression.source = some expression := by
  have scanned := Token.scans_text plain [] Token.stops_nil
  have reached := Reading.reads_of_leftRotated plain rotated [] [] trivial
  rw [List.append_nil, Token.scan_nil] at scanned
  rw [List.append_nil] at reached
  show (Token.scan expression.text).bind _ = _
  rw [scanned]
  show ((Reading.awaiting []).run (expression.tokens ++ [])).bind _ = _
  rw [List.append_nil, reached]
  show Reading.finish (ended [] expression) = _
  rw [ended, Reading.finish, complete_openFrames _ _ (Nat.zero_le _)]
  rfl

/-- The text of an expression is read as its left-rotated form. -/
theorem read_source
    {expression : Expr}
    (plain : Plain expression) :
    Expr.read expression.source = some expression.leftRotated := by
  rw [(Reassociated.leftRotated plain).source_eq]
  exact read_source_of_leftRotated plain.leftRotated
    plain.leftRotated_leftRotated

theorem leftRotated_eq_of_source_eq
    {first second : Expr}
    (firstPlain : Plain first)
    (secondPlain : Plain second)
    (same : first.source = second.source) :
    first.leftRotated = second.leftRotated := by
  have readings := congrArg Expr.read same
  rw [read_source firstPlain, read_source secondPlain] at readings
  exact Option.some.inj readings

/--
Two expressions of names, numbers, operators and calls have one text exactly if
operators of one precedence can be regrouped to make one of the other.  The
text of an expression is read back, with operators that associate to the left,
as its left-rotated form: the expression it can be regrouped into that has
nothing left to rotate.
-/
theorem source_eq_iff_reassociated
    {first second : Expr}
    (firstPlain : Plain first)
    (secondPlain : Plain second) :
    (first.source = second.source ↔ Reassociated first second) ∧
    Expr.read first.source = some first.leftRotated ∧
    first.leftRotated.LeftRotated ∧
    Reassociated first first.leftRotated := by
  have firstRotates := Reassociated.leftRotated firstPlain
  have secondRotates := Reassociated.leftRotated secondPlain
  refine ⟨⟨?_, Reassociated.source_eq⟩, read_source firstPlain,
    firstPlain.leftRotated_leftRotated, firstRotates⟩
  intro same
  rw [← leftRotated_eq_of_source_eq firstPlain secondPlain same] at secondRotates
  exact firstRotates.trans secondRotates.symm

/-- Two groupings of a conjunction, and of a product inside a call in it. -/
theorem source_eq_iff_reassociated_conjunction :
    let call argument := Expr.unary .negate (.call (.ident "f") [argument])
    let bound :=
      Expr.binary .subtract (.literal (.int 20))
        (.binary .subtract (.ident "x") (.ident "y"))
    let first :=
      Expr.binary .and (.ident "y")
        (.binary .and
          (.binary .less
            (call (.binary .multiply (.ident "x")
              (.binary .divide (.ident "y") (.literal (.int 20))))) bound)
          (.unary .not (.ident "x")))
    let second :=
      Expr.binary .and
        (.binary .and (.ident "y")
          (.binary .less
            (call (.binary .divide (.binary .multiply (.ident "x") (.ident "y"))
              (.literal (.int 20)))) bound))
        (.unary .not (.ident "x"))
    Plain first ∧ Plain second ∧
    first.source = "y && -f(x * y / 20) < 20 - (x - y) && !x" ∧
    Reassociated first second ∧
    Expr.read first.source = some second := by
  intro call bound first second
  have names : Plain (.ident "f") ∧ Plain (.ident "x") ∧ Plain (.ident "y") :=
    ⟨.ident (by decide) (List.all_eq_true.1 (by decide)),
      .ident (by decide) (List.all_eq_true.1 (by decide)),
      .ident (by decide) (List.all_eq_true.1 (by decide))⟩
  rcases names with ⟨function, left, right⟩
  have twenty : Plain (.literal (.int 20)) := .number (by decide)
  have callPlain : ∀ argument, Plain argument → Plain (call argument) := by
    intro argument plain
    exact .unary _ (.call function (by simpa using plain))
  have boundPlain : Plain bound := .binary _ twenty (.binary _ left right)
  have firstPlain : Plain first :=
    .binary _ right (.binary _
      (.binary _ (callPlain _ (.binary _ left (.binary _ right twenty)))
        boundPlain)
      (.unary _ left))
  have secondPlain : Plain second :=
    .binary _ (.binary _ right
      (.binary _ (callPlain _ (.binary _ (.binary _ left right) twenty))
        boundPlain))
      (.unary _ left)
  have determined := source_eq_iff_reassociated firstPlain secondPlain
  exact ⟨firstPlain, secondPlain, by decide, determined.1.1 (by decide),
    determined.2.1⟩

end Expr

end MiddleEnd
