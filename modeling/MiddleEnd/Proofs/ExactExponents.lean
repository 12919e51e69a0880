import MiddleEnd.Proofs.CallWalks
import MiddleEnd.Proofs.SimultaneousReduction

/-!
# Exponents are exact

The test for powers of two takes one from a word.  It looks at the sign first,
so it never comes to the one word that has no predecessor: even if an overflow
had no value, the test would have one, and the same as it has.

A word that passes is halved until one is left, and the number of halvings is
its exponent.  Strength reduction writes this number down.  Positions are not
moved by it, so wherever a product with a power of two stands in a tree, the
product with the exponent stands there afterwards.
-/

namespace MiddleEnd

/-! ## No overflow -/

/-- The difference of two words, unless it is beyond all words. -/
def difference? (left right : Int64) : Option Int64 :=
  if (left - right).toInt = left.toInt - right.toInt then
    some (left - right)
  else
    none

/-- The test for powers of two where an overflow has no value. -/
def isPowerOfTwo? (word : Int64) : Option Bool :=
  testPowerOfTwo difference? word

/-- Every word but the least has its predecessor among the words. -/
theorem toInt_sub_one_eq_iff (word : Int64) :
    (word - 1).toInt = word.toInt - 1 ↔ word ≠ Int64.minValue := by
  constructor
  · rintro predecessor rfl
    revert predecessor
    decide
  · intro other
    have low := word.le_toInt
    have high := word.toInt_lt
    rw [ne_eq, ← Int64.toInt_inj, Int64.toInt_minValue] at other
    rw [Int64.toInt_sub, Int64.toInt_one]
    exact Int.bmod_eq_of_le (by omega) (by omega)

theorem isPowerOfTwo?_eq_some (word : Int64) :
    isPowerOfTwo? word = some (isPowerOfTwo word) := by
  by_cases positive : 0 < word
  · have other : word ≠ Int64.minValue := by
      rintro rfl
      revert positive
      decide
    have predecessor : difference? word 1 = some (word - 1) :=
      if_pos ((toInt_sub_one_eq_iff word).2 other)
    simp [isPowerOfTwo?, isPowerOfTwo, testPowerOfTwo, positive, predecessor]
  · simp [isPowerOfTwo?, isPowerOfTwo, testPowerOfTwo, positive]

/-! ## Positions stay -/

namespace Expr

theorem children_eq_nil_of_at?_literal
    {value : Literal}
    {position : List Nat}
    {node : Expr}
    (found : (Expr.literal value).at? position = some node) :
    node.children = [] := by
  cases position with
  | nil =>
      cases found
      rfl
  | cons index rest => cases found

/-- What has children is found in its place, with its own sites rewritten. -/
theorem at?_reduced
    {expression node : Expr}
    {position : List Nat}
    (found : expression.at? position = some node)
    (inner : node.children ≠ []) :
    expression.reduced.at? position = some node.reduced := by
  induction position generalizing expression with
  | nil =>
      cases found
      rfl
  | cons index rest hypothesis =>
      rw [at?, Option.bind_eq_some_iff] at found
      rcases found with ⟨child, here, below⟩
      rcases expression.reduced_cases with
        ⟨left, word, rfl, _, product⟩ | ⟨_, kept⟩
      · rw [product, at?]
        -- On the right there is the literal, and nothing with children in it.
        rcases index with _ | _ | _
        · cases here
          exact hypothesis below
        · cases here
          exact absurd (children_eq_nil_of_at?_literal below) inner
        · cases here
      · rw [kept, at?, children_withChildren (List.length_map _),
          List.getElem?_map, here]
        exact hypothesis below

end Expr

/--
The test for powers of two never overflows, and the words that pass it are the
powers from the zeroth to the sixty-second.  Such a word is halved as often as
its exponent says, until one is left, and the number that was counted is the
exponent.  It is what strength reduction leaves in place of the word, wherever
in an expression the word is multiplied with.
-/
theorem StrengthReduction.records_exact_exponents (word : Int64) :
    isPowerOfTwo? word = some (isPowerOfTwo word) ∧
    (isPowerOfTwo word = true ↔ ∃ exponent ≤ 62, word.toInt = 2 ^ exponent) ∧
    ∀ exponent : Nat, word.toInt = 2 ^ exponent →
      Halving.Ends exponent ⟨word, 0⟩ ⟨1, exponentOf word⟩ ∧
      (exponentOf word).toInt = exponent ∧
      ∀ (expression : Expr) (position : List Nat) (left : Expr),
        expression.at? position =
            some (.binary .multiply left (.literal (.int word))) →
          expression.reduceStrength.result.at? position =
            some (.binary .multiply left.reduceStrength.result
              (.literal (.int (exponentOf word)))) := by
  refine ⟨isPowerOfTwo?_eq_some word, isPowerOfTwo_iff word, ?_⟩
  intro exponent power
  have small := le_of_toInt_eq_two_pow power
  refine ⟨Halving.ends_of_eq_two_pow power, ?_, ?_⟩
  · rw [exponentOf_eq power]
    exact Int64.toInt_ofNat_of_lt (by omega)
  · intro expression position left found
    have moved := Expr.at?_reduced found (List.cons_ne_nil _ _)
    rw [Expr.reduced_site small power, ← exponentOf_eq power] at moved
    exact moved

/-- The greatest power of two, below a negation. -/
theorem StrengthReduction.records_exact_exponents_greatest :
    let word : Int64 := 4611686018427387904
    let product (right : Int64) :=
      Expr.binary .multiply (.ident "x") (.literal (.int right))
    word.toInt = 2 ^ 62 ∧
    (Expr.unary .negate (product word)).at? [0] = some (product word) ∧
    isPowerOfTwo word = true ∧
    Halving.Ends 62 ⟨word, 0⟩ ⟨1, exponentOf word⟩ ∧
    (exponentOf word).toInt = 62 ∧
    (Expr.unary .negate (product word)).reduceStrength.result.at? [0] =
      some (product (exponentOf word)) := by
  intro word product
  have power : word.toInt = 2 ^ 62 := by decide
  have found :
      (Expr.unary .negate (product word)).at? [0] = some (product word) := rfl
  rcases StrengthReduction.records_exact_exponents word with
    ⟨_, passes, recorded⟩
  rcases recorded 62 power with ⟨ends, exponent, reduces⟩
  have reduced := reduces _ _ _ found
  rw [show (Expr.ident "x").reduceStrength.result = .ident "x" from
    Expr.reduced_ident "x"] at reduced
  exact ⟨power, found, passes.2 ⟨62, by decide, power⟩, ends, exponent, reduced⟩

end MiddleEnd
