import Std.Data.String.ToInt
import Mathlib.Data.List.Basic
import MiddleEnd.Proofs.Number.Positional
import MiddleEnd.Tree.Literal

/-!
# The texts of literals

A text tells what kind of literal it stands for: a string starts with a quote, a
floating-point number has a point in it, an integer is made of digits and a
sign, and the rest are words.  Strings are read back from their text by
`Literal.readQuoted`, whatever follows the closing quote, so that no string is
written as the beginning of another.

Two literals of which not both are floating-point numbers therefore have the
same text only if they are the same.
-/

namespace MiddleEnd

/-! ## The characters of numbers -/

/-- A character that numbers and words are written with. -/
def isPlain (character : Char) : Bool :=
  character.isAlphanum || character = '-' || character = '.'

theorem isPlain_of_isDigit
    {character : Char}
    (digit : character.isDigit = true) :
    isPlain character = true := by
  simp [isPlain, Char.isAlphanum, digit]

/-- A character that integers are written with. -/
def isNumeral (character : Char) : Bool :=
  character.isDigit || character = '-'

namespace Number

theorem isPlain_of_mem_positional
    {decimals count : Nat}
    {character : Char}
    (member : character ∈ (positional decimals count).toList) :
    isPlain character = true := by
  rcases mem_positional member with digit | rfl
  · exact isPlain_of_isDigit digit
  · rfl

theorem isPlain_of_mem_signText
    {negative : Bool}
    {character : Char}
    (member : character ∈ (signText negative).toList) :
    isPlain character = true := by
  cases negative with
  | false => cases member
  | true =>
      rw [List.mem_singleton.1 member]
      rfl

theorem isPlain_of_mem_render
    {format : DecimalFormat}
    {value : Exact}
    {character : Char}
    (member : character ∈ (value.render format).toList) :
    isPlain character = true := by
  cases value with
  | nan negative =>
      rw [Exact.render, String.toList_append, List.mem_append] at member
      rcases member with sign | name
      · exact isPlain_of_mem_signText sign
      · exact List.all_eq_true.1 (by decide) character name
  | infinite negative =>
      rw [Exact.render, String.toList_append, List.mem_append] at member
      rcases member with sign | name
      · exact isPlain_of_mem_signText sign
      · exact List.all_eq_true.1 (by decide) character name
  | finite negative numerator denominator =>
      rw [Exact.render, String.toList_append, List.mem_append] at member
      rcases member with sign | digits
      · exact isPlain_of_mem_signText sign
      · exact isPlain_of_mem_positional digits

theorem point_mem_render (format : DecimalFormat) (value : Exact) :
    '.' ∈ (value.render format).toList := by
  cases value with
  | nan negative =>
      rw [Exact.render, String.toList_append, List.mem_append]
      exact Or.inr (by decide)
  | infinite negative =>
      rw [Exact.render, String.toList_append, List.mem_append]
      exact Or.inr (by decide)
  | finite negative numerator denominator =>
      rw [Exact.render, String.toList_append, toList_positional]
      simp

end Number

namespace Literal

theorem isNumeral_of_mem_render
    {value : Int64}
    {character : Char}
    (member : character ∈ (render (.int value)).toList) :
    isNumeral character = true := by
  rw [render, Int.toString_eq_repr, Int.repr_eq_if] at member
  split at member
  · rw [isNumeral, Number.isDigit_of_mem_repr member, Bool.true_or]
  · rw [String.toList_append, List.mem_append] at member
    rcases member with sign | digit
    · rw [List.mem_singleton.1 sign]
      rfl
    · rw [isNumeral, Number.isDigit_of_mem_repr digit, Bool.true_or]

/-! ## Reading a quoted string -/

/-- The character that is written as a backslash with the given one. -/
def unescape : Char → Char
  | 'n' => '\n'
  | 't' => '\t'
  | 'r' => '\r'
  | other => other

/-- The string up to its closing quote, with what stands behind the quote. -/
def readQuoted : List Char → Option (List Char × List Char)
  | [] => none
  | '"' :: rest => some ([], rest)
  | '\\' :: escaped :: rest =>
      (readQuoted rest).map fun read => (unescape escaped :: read.1, read.2)
  | character :: rest =>
      (readQuoted rest).map fun read => (character :: read.1, read.2)

theorem readQuoted_escape (character : Char) (rest : List Char) :
    readQuoted (escape character ++ rest) =
      (readQuoted rest).map fun read => (character :: read.1, read.2) := by
  unfold escape
  split
  · rfl
  · rfl
  · rfl
  · rfl
  · rfl
  · rename_i backslash quoted _ _ _
    rw [List.singleton_append, readQuoted]
    · exact quoted
    · intro escaped others same
      exact absurd same backslash

theorem newline_not_mem_escape (character : Char) :
    '\n' ∉ escape character := by
  unfold escape
  split
  · decide
  · decide
  · decide
  · decide
  · decide
  · rename_i _ _ newline _ _
    intro member
    exact newline (List.mem_singleton.1 member).symm

/-- A string is read back from its text, whatever follows. -/
theorem readQuoted_escaped (text rest : List Char) :
    readQuoted (text.flatMap escape ++ '"' :: rest) = some (text, rest) := by
  induction text with
  | nil => rfl
  | cons character others hypothesis =>
      rw [List.flatMap_cons, List.append_assoc, readQuoted_escape, hypothesis]
      rfl

theorem toList_quote (text : String) :
    (quote text).toList = '"' :: (text.toList.flatMap escape ++ ['"']) := by
  simp [quote]

/-- No text of a string is the beginning of the text of another. -/
theorem eq_of_prefix_quote
    {text other : String}
    (start : (quote text).toList <+: (quote other).toList) :
    text = other := by
  rcases start with ⟨rest, continued⟩
  rw [toList_quote, toList_quote, List.cons_append, List.append_assoc,
    List.cons.injEq] at continued
  have read := congrArg readQuoted continued.2
  rw [List.singleton_append, readQuoted_escaped, readQuoted_escaped] at read
  exact String.toList_inj.1 (congrArg Prod.fst (Option.some.inj read))

/-! ## The kind of a text -/

/-- What a literal is, as far as its text shows it at a glance. -/
inductive Kind where
  | word
  | integer
  | fractional
  | quoted
deriving DecidableEq

def kind : Literal → Kind
  | .null | .bool _ => .word
  | .int _ => .integer
  | .float _ => .fractional
  | .string _ => .quoted

/-- The kind of literals that a text can stand for. -/
def kindOfText (text : List Char) : Kind :=
  if text.head? = some '"' then .quoted
  else if '.' ∈ text then .fractional
  else if text.all isNumeral then .integer
  else .word

theorem head?_ne_quote_of_isPlain
    {text : List Char}
    (plain : ∀ character ∈ text, isPlain character = true) :
    text.head? ≠ some '"' := by
  intro quote
  exact absurd (plain '"' (List.mem_of_head? quote)) (by decide)

theorem isPlain_of_isNumeral
    {character : Char}
    (numeral : isNumeral character = true) :
    isPlain character = true := by
  rw [isNumeral, Bool.or_eq_true, decide_eq_true_iff] at numeral
  rcases numeral with digit | rfl
  · exact isPlain_of_isDigit digit
  · rfl

theorem kindOfText_render (literal : Literal) :
    kindOfText literal.render.toList = literal.kind := by
  cases literal with
  | null => decide
  | bool value => cases value <;> decide
  | int value =>
      have noQuote : (render (.int value)).toList.head? ≠ some '"' :=
        head?_ne_quote_of_isPlain fun _ member =>
          isPlain_of_isNumeral (isNumeral_of_mem_render member)
      have noPoint : '.' ∉ (render (.int value)).toList := fun point =>
        absurd (isNumeral_of_mem_render point) (by decide)
      rw [kindOfText, if_neg noQuote, if_neg noPoint,
        if_pos (List.all_eq_true.2 fun _ => isNumeral_of_mem_render)]
      rfl
  | float value =>
      have noQuote : (render (.float value)).toList.head? ≠ some '"' :=
        head?_ne_quote_of_isPlain fun _ => Number.isPlain_of_mem_render
      have point : '.' ∈ (render (.float value)).toList :=
        Number.point_mem_render _ _
      rw [kindOfText, if_neg noQuote, if_pos point]
      rfl
  | string value =>
      rw [kindOfText, render, toList_quote, List.head?_cons, if_pos rfl]
      rfl

/-- A literal is written on one line, whatever a string holds. -/
theorem newline_not_mem_render (literal : Literal) :
    '\n' ∉ literal.render.toList := by
  have notPlain : isPlain '\n' = false := by decide
  intro newline
  cases literal with
  | null => exact absurd newline (by decide)
  | bool value => cases value <;> exact absurd newline (by decide)
  | int value =>
      have plain := isPlain_of_isNumeral (isNumeral_of_mem_render newline)
      cases notPlain.symm.trans plain
  | float value =>
      have plain : isPlain '\n' = true := Number.isPlain_of_mem_render newline
      cases notPlain.symm.trans plain
  | string value =>
      rw [render, toList_quote] at newline
      have escaped : '\n' ∈ value.toList.flatMap escape := by
        simpa using newline
      rcases List.mem_flatMap.1 escaped with ⟨character, _, written⟩
      exact newline_not_mem_escape character written

/--
The text of a literal determines it unless it is a floating-point number, and a
string is told from what follows it.
-/
theorem render_determines_literal :
    (∀ literal other : Literal,
      literal.bothFloat other = false →
        literal.render = other.render → literal = other) ∧
      ∀ text other : String,
        (render (.string text)).toList <+: (render (.string other)).toList →
          text = other := by
  refine ⟨?_, fun _ _ => eq_of_prefix_quote⟩
  intro literal other notBothFloat same
  have kinds : literal.kind = other.kind := by
    rw [← kindOfText_render, ← kindOfText_render, same]
  -- Literals of one kind are left; words are compared one by one.
  cases literal with
  | null =>
      cases other with
      | null => rfl
      | bool value => cases value <;> exact absurd same (by decide)
      | _ => cases kinds
  | bool value =>
      cases other with
      | null => cases value <;> exact absurd same (by decide)
      | bool other =>
          cases value <;> cases other
          · rfl
          · exact absurd same (by decide)
          · exact absurd same (by decide)
          · rfl
      | _ => cases kinds
  | int value =>
      cases other with
      | int other =>
          have numbers := Int.repr_injective same
          rw [Int64.toInt_inj.1 numbers]
      | _ => cases kinds
  | float value =>
      cases other with
      | float other => cases notBothFloat
      | _ => cases kinds
  | string text =>
      cases other with
      | string other =>
          have quoted : quote text = quote other := same
          have start : (quote text).toList <+: (quote other).toList := by
            refine ⟨[], ?_⟩
            rw [List.append_nil, quoted]
          rw [eq_of_prefix_quote start]
      | _ => cases kinds

/--
The least integer in two ways, what is no number but has a sign, and a quote
inside a string.
-/
theorem render_determines_literal_least :
    let least := Literal.int Int64.minValue
    let other := Literal.int (Int64.ofInt (-9223372036854775808))
    let undefined := Literal.float ⟨0xFFF8000000000000⟩
    least.bothFloat other = false ∧
      least.render = other.render ∧
      least = other ∧
      undefined.bothFloat .null = false ∧
      undefined.render = "-nan.0" ∧
      undefined.render ≠ Literal.null.render ∧
      ¬ (render (.string "a")).toList <+: (render (.string "a\"")).toList := by
  intro least other undefined
  have notBothFloat : least.bothFloat other = false := rfl
  have same : least.render = other.render := by decide
  refine ⟨notBothFloat, same,
    render_determines_literal.1 least other notBothFloat same, rfl,
    by decide +kernel, ?_, ?_⟩
  · intro same
    have equal : undefined = .null :=
      render_determines_literal.1 undefined .null rfl same
    exact absurd equal (by decide)
  · intro start
    exact absurd (render_determines_literal.2 "a" "a\"" start) (by decide)

end Literal

end MiddleEnd
