import MiddleEnd.Proofs.Printing.Reassociation

/-!
# The tokens of a text

A text is cut into words, numbers, operators, parentheses and commas.  A word, a
number and an operator are runs of characters of one kind, as long as possible;
the other tokens are single characters, and blanks only separate.

`Expr.tokens` are the tokens that the text of an expression has by its shape.
The main statement says that scanning the text of names, numbers, operators and
calls finds exactly these.  It is proved with what follows the text left open,
as long as that does not continue the last token.
-/

namespace MiddleEnd

/-- A token of the text of an expression. -/
inductive Token where
  | word (name : String)
  | number (value : Nat)
  | opening
  | closing
  | comma
  /-- The sign of negation, which no binary operator is spelled with alone. -/
  | bang
  /-- An operator; the sign of a subtraction may also stand before an operand. -/
  | operator (op : BinaryOp)
deriving DecidableEq

namespace Token

/-- What a character can be part of. -/
inductive Kind where
  | letter
  | digit
  | symbol
  | blank
  | mark (token : Token)
  | other
deriving DecidableEq

def kindOf (character : Char) : Kind :=
  if character.isAlpha then .letter
  else if character.isDigit then .digit
  else if character ∈
      ['+', '-', '*', '/', '%', '=', '!', '<', '>', '&', '|'] then .symbol
  else if character = ' ' then .blank
  else if character = '(' then .mark .opening
  else if character = ')' then .mark .closing
  else if character = ',' then .mark .comma
  else .other

/-- The token that a run of symbols spells. -/
def ofSymbols (run : List Char) : Option Token :=
  if run = ['!'] then
    some .bang
  else
    (BinaryOp.all.find? fun op => op.spelling.toList = run).map .operator

/-- The token that a run of characters of one kind is. -/
def ofRun : Kind → List Char → Option Token
  | .letter, run => some (.word (String.ofList run))
  | .digit, run => some (.number (Nat.ofDigitChars 10 run 0))
  | .symbol, run => ofSymbols run
  | _, _ => none

/-- The tokens of a text, if it is made of them. -/
def scan : List Char → Option (List Token)
  | [] => some []
  | character :: rest =>
      match kindOf character with
      | .blank => scan rest
      | .mark token => (scan rest).map (token :: ·)
      | kind =>
          (ofRun kind
            (character :: rest.takeWhile (kindOf · = kind))).bind fun token =>
              (scan (rest.dropWhile (kindOf · = kind))).map (token :: ·)
termination_by text => text.length
decreasing_by
  · simp
  · simp
  · have shorter := (List.dropWhile_suffix (kindOf · = kind) (l := rest)).length_le
    simp only [List.length_cons]
    omega

end Token

/-- A list between two marks, if they are needed. -/
def enclose {α : Type} (opening closing : α) (needed : Bool) (inner : List α) :
    List α :=
  if needed then opening :: inner ++ [closing] else inner

/-- The token of a unary operator. -/
def UnaryOp.token : UnaryOp → Token
  | .negate => .operator .subtract
  | .not => .bang

/-- Tokens, in parentheses if they are needed. -/
abbrev Token.enclosed (needed : Bool) (tokens : List Token) : List Token :=
  enclose .opening .closing needed tokens

mutual

/-- The tokens of names, numbers, operators and calls. -/
def Expr.tokens : Expr → List Token
  | .ident name => [.word name]
  | .literal (.int value) => [.number value.toInt.toNat]
  | .unary op operand =>
      op.token ::
        Token.enclosed (operand.precedence ≤ Precedence.unary) operand.tokens
  | .binary op left right =>
      Token.enclosed (left.precedence < op.precedence) left.tokens ++
        .operator op ::
          Token.enclosed
            (right.precedence < op.precedence ||
              (right.precedence == op.precedence && op.groupsRight))
            right.tokens
  | .call callee arguments =>
      Token.enclosed (callee.precedence < Precedence.call) callee.tokens ++
        .opening ::
          ([Token.comma].intercalate (Expr.tokensOfList arguments) ++
            [.closing])
  | _ => []

/-- The tokens of the expressions of a list. -/
def Expr.tokensOfList : List Expr → List (List Token)
  | [] => []
  | expression :: rest => expression.tokens :: Expr.tokensOfList rest

end

theorem Expr.tokensOfList_eq_map (expressions : List Expr) :
    Expr.tokensOfList expressions = expressions.map Expr.tokens := by
  induction expressions with
  | nil => rfl
  | cons expression rest hypothesis =>
      rw [Expr.tokensOfList, hypothesis, List.map_cons]

/-! ## Texts by their characters -/

namespace Expr

/-- The characters of the text of an expression. -/
def text (expression : Expr) : List Char :=
  expression.source.toList

/-- Characters, in parentheses if they are needed. -/
abbrev enclosedText (needed : Bool) (text : List Char) : List Char :=
  enclose '(' ')' needed text

theorem toList_parenthesize (needed : Bool) (inner : String) :
    (parenthesize needed inner).toList = enclosedText needed inner.toList := by
  cases needed <;> simp [parenthesize, enclose]

/-- A nonnegative word is the natural number that its text shows. -/
theorem natCast_toNat_toInt {value : Int64} (nonnegative : 0 ≤ value) :
    (value.toInt.toNat : Int) = value.toInt :=
  Int.toNat_of_nonneg (Int64.le_iff_toInt_le.1 nonnegative)

theorem text_number {value : Int64} (nonnegative : 0 ≤ value) :
    (Expr.literal (.int value)).text = Nat.toDigits 10 value.toInt.toNat := by
  show (toString value.toInt).toList = _
  rw [← natCast_toNat_toInt nonnegative]
  exact Nat.toList_repr

theorem text_unary (op : UnaryOp) (operand : Expr) :
    (Expr.unary op operand).text =
      op.spelling.toList ++
        enclosedText (operand.precedence ≤ Precedence.unary) operand.text := by
  simp [text, source, render, toList_parenthesize]

theorem text_binary (op : BinaryOp) (left right : Expr) :
    (Expr.binary op left right).text =
      enclosedText (left.precedence < op.precedence) left.text ++
        ' ' :: (op.spelling.toList ++
          ' ' :: enclosedText
            (right.precedence < op.precedence ||
              (right.precedence == op.precedence && op.groupsRight))
            right.text) := by
  simp [text, source, render, toList_parenthesize]

theorem text_call (callee : Expr) (arguments : List Expr) :
    (Expr.call callee arguments).text =
      enclosedText (callee.precedence < Precedence.call) callee.text ++
        '(' :: ([',', ' '].intercalate (arguments.map text) ++ [')']) := by
  have texts :
      (arguments.map (render 0)).map String.toList = arguments.map text :=
    List.map_map
  show (render 0 (.call callee arguments)).toList = _
  rw [render, renderList_eq_map]
  simp only [String.toList_append, toList_parenthesize,
    String.toList_intercalate, texts]
  simp [text, source]

end Expr

/-! ## Scanning one token -/

theorem BinaryOp.precedence_bounds (op : BinaryOp) :
    Precedence.assignment < op.precedence ∧
      op.precedence < Precedence.unary := by
  cases op <;> decide

namespace Token

@[simp]
theorem scan_nil : scan [] = some [] := by
  rw [scan]

theorem scan_of_blank
    {character : Char}
    (blank : kindOf character = .blank)
    (rest : List Char) :
    scan (character :: rest) = scan rest := by
  rw [scan, blank]

theorem scan_of_mark
    {character : Char}
    {token : Token}
    (mark : kindOf character = .mark token)
    (rest : List Char) :
    scan (character :: rest) = (scan rest).map (token :: ·) := by
  rw [scan, mark]

/-- A text after which the token before it is complete. -/
def Stops (rest : List Char) : Prop :=
  ∀ next ∈ rest.head?,
    kindOf next = .blank ∨ ∃ token, kindOf next = .mark token

theorem stops_nil : Stops [] := by
  simp [Stops]

theorem blank_kind : kindOf ' ' = .blank := by
  decide

theorem opening_kind : kindOf '(' = .mark .opening := by
  decide

theorem closing_kind : kindOf ')' = .mark .closing := by
  decide

theorem comma_kind : kindOf ',' = .mark .comma := by
  decide

theorem stops_blank (rest : List Char) : Stops (' ' :: rest) := by
  rintro next ⟨⟩
  exact Or.inl blank_kind

theorem stops_opening (rest : List Char) : Stops ('(' :: rest) := by
  rintro next ⟨⟩
  exact Or.inr ⟨.opening, opening_kind⟩

theorem stops_closing (rest : List Char) : Stops (')' :: rest) := by
  rintro next ⟨⟩
  exact Or.inr ⟨.closing, closing_kind⟩

theorem stops_comma (rest : List Char) : Stops (',' :: rest) := by
  rintro next ⟨⟩
  exact Or.inr ⟨.comma, comma_kind⟩

/-- A kind of which tokens are runs. -/
def Kind.MakesRuns (kind : Kind) : Prop :=
  kind ≠ .blank ∧ ∀ token, kind ≠ .mark token

theorem Stops.kindOf_ne
    {rest : List Char}
    (stops : Stops rest)
    {kind : Kind}
    (runs : kind.MakesRuns) :
    ∀ next ∈ rest.head?, kindOf next ≠ kind := by
  intro next member same
  rcases stops next member with blank | ⟨token, mark⟩
  · exact runs.1 (same.symm.trans blank)
  · exact runs.2 token (same.symm.trans mark)

theorem takeWhile_eq_nil_of_head?
    {rest : List Char}
    {kind : Kind}
    (ends : ∀ next ∈ rest.head?, kindOf next ≠ kind) :
    rest.takeWhile (kindOf · = kind) = [] ∧
      rest.dropWhile (kindOf · = kind) = rest := by
  cases rest with
  | nil => exact ⟨rfl, rfl⟩
  | cons next others =>
      have different := ends next rfl
      simp [different]

/-- A run that is not continued is scanned as one token. -/
theorem scan_run
    {kind : Kind}
    (runs : kind.MakesRuns)
    {run rest : List Char}
    (nonempty : run ≠ [])
    (inside : ∀ character ∈ run, kindOf character = kind)
    (ends : ∀ next ∈ rest.head?, kindOf next ≠ kind) :
    scan (run ++ rest) =
      (ofRun kind run).bind fun token => (scan rest).map (token :: ·) := by
  cases run with
  | nil => exact absurd rfl nonempty
  | cons first others =>
      rcases List.forall_mem_cons.1 inside with ⟨firstKind, othersKind⟩
      have all : ∀ other ∈ others, decide (kindOf other = kind) = true := by
        intro other member
        exact decide_eq_true (othersKind other member)
      rcases takeWhile_eq_nil_of_head? ends with ⟨taken, dropped⟩
      rw [List.cons_append, scan, firstKind]
      split
      · exact absurd rfl runs.1
      · exact absurd rfl (runs.2 _)
      · rw [List.takeWhile_append_of_pos all, List.dropWhile_append_of_pos all,
          taken, dropped, List.append_nil]

/-- Scanning the text finds the tokens, whatever follows without continuing them. -/
def Scans (text : List Char) (tokens : List Token) : Prop :=
  ∀ rest, Stops rest → scan (text ++ rest) = (scan rest).map (tokens ++ ·)

theorem makesRuns_letter : Kind.letter.MakesRuns :=
  ⟨by decide, by simp⟩

theorem makesRuns_digit : Kind.digit.MakesRuns :=
  ⟨by decide, by simp⟩

theorem makesRuns_symbol : Kind.symbol.MakesRuns :=
  ⟨by decide, by simp⟩

theorem kindOf_of_isDigit
    {character : Char}
    (digit : character.isDigit = true) :
    kindOf character = .digit := by
  have bound : character.val ≤ '9'.val :=
    of_decide_eq_true (Bool.and_eq_true_iff.1 digit).2
  -- The digits come before the letters of both cases.
  have apart : ¬ character.isAlpha = true := by
    intro letter
    rcases Bool.or_eq_true_iff.1 letter with upper | lower
    · have above : 'A'.val ≤ character.val := (of_decide_eq_true upper).1
      exact absurd (UInt32.le_trans above bound) (by decide)
    · have above : 'a'.val ≤ character.val :=
        of_decide_eq_true (Bool.and_eq_true_iff.1 lower).1
      exact absurd (UInt32.le_trans above bound) (by decide)
  rw [kindOf, if_neg apart, if_pos digit]

theorem kindOf_of_letters
    {text : List Char}
    (letters : ∀ letter ∈ text, letter.isAlpha = true) :
    ∀ letter ∈ text, kindOf letter = .letter := by
  intro letter member
  rw [kindOf, if_pos (letters letter member)]

theorem kindOf_of_mem_toDigits (value : Nat) :
    ∀ digit ∈ Nat.toDigits 10 value, kindOf digit = .digit := by
  intro digit member
  exact kindOf_of_isDigit
    (Nat.isDigit_of_mem_toDigits (by decide) (by decide) member)

theorem scans_word
    {name : String}
    (nonempty : name ≠ "")
    (letters : ∀ letter ∈ name.toList, letter.isAlpha = true) :
    Scans name.toList [.word name] := by
  intro rest stops
  rw [scan_run makesRuns_letter (by simpa using nonempty)
    (kindOf_of_letters letters) (stops.kindOf_ne makesRuns_letter)]
  simp [ofRun]

theorem scans_number (value : Nat) :
    Scans (Nat.toDigits 10 value) [.number value] := by
  intro rest stops
  rw [scan_run makesRuns_digit (by simp) (kindOf_of_mem_toDigits value)
    (stops.kindOf_ne makesRuns_digit)]
  simp [ofRun, Nat.ofDigitChars_toDigits]

theorem kindOf_of_mem_spelling
    {spelling : List Char}
    (symbols : spelling.all (kindOf · = .symbol) = true) :
    ∀ character ∈ spelling, kindOf character = .symbol := by
  intro character member
  exact of_decide_eq_true (List.all_eq_true.1 symbols character member)

theorem scan_unary
    (op : UnaryOp)
    {rest : List Char}
    (ends : ∀ next ∈ rest.head?, kindOf next ≠ .symbol) :
    scan (op.spelling.toList ++ rest) = (scan rest).map (op.token :: ·) := by
  rw [scan_run makesRuns_symbol (by cases op <;> decide)
    (kindOf_of_mem_spelling (by cases op <;> decide)) ends]
  cases op <;> rfl

theorem scan_binary (op : BinaryOp) (rest : List Char) :
    scan (op.spelling.toList ++ ' ' :: rest) =
      (scan (' ' :: rest)).map (.operator op :: ·) := by
  rw [scan_run makesRuns_symbol (by cases op <;> decide)
    (kindOf_of_mem_spelling (by cases op <;> decide))
    ((stops_blank rest).kindOf_ne makesRuns_symbol)]
  cases op <;> rfl

/-! ## Scanning an expression -/

theorem Scans.enclosed
    {text : List Char}
    {tokens : List Token}
    (scans : Scans text tokens)
    (needed : Bool) :
    Scans (Expr.enclosedText needed text) (enclosed needed tokens) := by
  cases needed with
  | false => exact scans
  | true =>
      intro rest stops
      show scan ('(' :: (text ++ [')']) ++ rest) = _
      rw [List.cons_append, List.append_assoc, List.singleton_append,
        scan_of_mark opening_kind, scans _ (stops_closing rest),
        scan_of_mark closing_kind]
      simp [enclose, Function.comp_def]

theorem Scans.intercalate
    {texts : List (List Char)}
    {tokenLists : List (List Token)}
    (each : List.Forall₂ Scans texts tokenLists) :
    Scans ([',', ' '].intercalate texts)
      ([Token.comma].intercalate tokenLists) := by
  induction each with
  | nil =>
      intro rest _
      simp
  | @cons text tokens others otherTokens here each hypothesis =>
      cases each with
      | nil => simpa using here
      | cons next each =>
          intro rest stops
          simp only [List.intercalate_cons_cons, List.append_assoc,
            List.cons_append, List.nil_append]
          rw [here _ (stops_comma _), scan_of_mark comma_kind,
            scan_of_blank blank_kind, hypothesis rest stops]
          simp [Function.comp_def]

/-- A text that does not continue a unary operator before it. -/
def StartsOperand (text : List Char) : Prop :=
  ∃ first others, text = first :: others ∧ kindOf first ≠ .symbol

theorem StartsOperand.kindOf_ne
    {text : List Char}
    (starts : StartsOperand text)
    (rest : List Char) :
    ∀ next ∈ (text ++ rest).head?, kindOf next ≠ .symbol := by
  rcases starts with ⟨first, others, rfl, different⟩
  rintro next ⟨⟩
  exact different

theorem StartsOperand.enclosed
    {needed : Bool}
    {text : List Char}
    (bare : needed = false → StartsOperand text) :
    StartsOperand (Expr.enclosedText needed text) := by
  cases needed with
  | false => exact bare rfl
  | true => exact ⟨'(', text ++ [')'], rfl, by decide⟩

theorem StartsOperand.append
    {text : List Char}
    (starts : StartsOperand text)
    (rest : List Char) :
    StartsOperand (text ++ rest) := by
  rcases starts with ⟨first, others, rfl, different⟩
  exact ⟨first, others ++ rest, rfl, different⟩

theorem startsOperand_of_kind
    {text : List Char}
    {kind : Kind}
    (nonempty : text ≠ [])
    (inside : ∀ character ∈ text, kindOf character = kind)
    (different : kind ≠ .symbol) :
    StartsOperand text := by
  rcases List.exists_cons_of_ne_nil nonempty with ⟨first, others, rfl⟩
  exact ⟨first, others, rfl, (inside first List.mem_cons_self).symm ▸ different⟩

/-- What binds more tightly than a unary operator starts with no symbol. -/
theorem startsOperand_text
    {expression : Expr}
    (plain : Plain expression)
    (tight : Precedence.unary < expression.precedence) :
    StartsOperand expression.text := by
  induction plain with
  | @ident name nonempty letters =>
      show StartsOperand name.toList
      exact startsOperand_of_kind (by simpa using nonempty)
        (kindOf_of_letters letters) (by decide)
  | number nonnegative =>
      rw [Expr.text_number nonnegative]
      exact startsOperand_of_kind (by simp) (kindOf_of_mem_toDigits _)
        (by decide)
  | unary op => exact absurd tight (Nat.lt_irrefl _)
  | binary op => exact absurd tight (Nat.lt_asymm op.precedence_bounds.2)
  | call _ _ hypothesis _ =>
      rw [Expr.text_call]
      apply StartsOperand.append
      apply StartsOperand.enclosed
      intro bare
      apply hypothesis
      have bound := of_decide_eq_false bare
      exact Nat.lt_of_lt_of_le (by decide) (Nat.le_of_not_lt bound)

theorem scans_text
    {expression : Expr}
    (plain : Plain expression) :
    Scans expression.text expression.tokens := by
  induction plain with
  | ident nonempty letters =>
      rw [Expr.tokens]
      exact scans_word nonempty letters
  | @number value nonnegative =>
      rw [Expr.tokens, Expr.text_number nonnegative]
      exact scans_number value.toInt.toNat
  | @unary op operand plain hypothesis =>
      intro rest stops
      have starts :
          StartsOperand
            (Expr.enclosedText (operand.precedence ≤ Precedence.unary)
              operand.text) := by
        apply StartsOperand.enclosed
        intro bare
        exact startsOperand_text plain (Nat.lt_of_not_le (of_decide_eq_false bare))
      rw [Expr.tokens, Expr.text_unary, List.append_assoc,
        scan_unary op (starts.kindOf_ne rest), hypothesis.enclosed _ _ stops]
      simp [Function.comp_def]
  | @binary op left right _ _ leftScans rightScans =>
      intro rest stops
      simp only [Expr.tokens, Expr.text_binary, List.append_assoc,
        List.cons_append]
      rw [leftScans.enclosed _ _ (stops_blank _), scan_of_blank blank_kind,
        scan_binary, scan_of_blank blank_kind, rightScans.enclosed _ _ stops]
      simp [Function.comp_def]
  | @call callee arguments _ _ calleeScans argumentsScan =>
      intro rest stops
      have inside :
          List.Forall₂ Scans (arguments.map Expr.text)
            (arguments.map Expr.tokens) := by
        rw [List.forall₂_map_left_iff, List.forall₂_map_right_iff,
          List.forall₂_same]
        exact argumentsScan
      simp only [Expr.tokens, Expr.tokensOfList_eq_map, Expr.text_call,
        List.append_assoc, List.cons_append, List.nil_append]
      rw [calleeScans.enclosed _ _ (stops_opening _),
        scan_of_mark opening_kind,
        Scans.intercalate inside _ (stops_closing rest),
        scan_of_mark closing_kind]
      simp [Function.comp_def]

end Token

end MiddleEnd
