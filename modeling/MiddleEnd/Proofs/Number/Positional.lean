import Std.Data.String.ToNat
import Mathlib.Algebra.Order.Ring.Nat
import Mathlib.Data.List.Basic
import Mathlib.Data.List.TakeWhile
import MiddleEnd.Number.Decimal

/-!
# Positional text

The text of a count of decimal units shows its value and nothing else: zeros at
the end are dropped, so that counts of different decimal places have the same
text exactly if they stand for the same number.
-/

namespace MiddleEnd.Number

/-! ## Characters -/

theorem isDigit_of_mem_repr
    {number : Nat}
    {character : Char}
    (member : character ∈ number.repr.toList) :
    character.isDigit = true := by
  rw [Nat.toList_repr] at member
  exact Nat.isDigit_of_mem_toDigits (by decide) (by decide) member

theorem isDigit_of_mem_lastDigits
    {width count : Nat}
    {character : Char}
    (member : character ∈ lastDigits width count) :
    character.isDigit = true := by
  induction width generalizing count with
  | zero => cases member
  | succ width hypothesis =>
      rcases List.mem_append.1 member with earlier | last
      · exact hypothesis earlier
      · rw [List.mem_singleton.1 last, Nat.isDigit_digitChar]
        exact decide_eq_true (Nat.mod_lt _ (by decide))

/-- Decimals are some of the digits, or the one zero that is always left. -/
theorem isDigit_of_mem_decimalPart
    {digits : List Char}
    (each : ∀ digit ∈ digits, digit.isDigit = true)
    {character : Char}
    (member : character ∈ decimalPart digits) :
    character.isDigit = true := by
  unfold decimalPart at member
  split at member
  · rw [List.mem_singleton.1 member]
    rfl
  · apply each
    rw [dropFinalZeros, List.mem_reverse] at member
    exact List.mem_reverse.1 (List.dropWhile_subset _ member)

theorem toList_positional (decimals count : Nat) :
    (positional decimals count).toList =
      (count / Nat.pow 10 decimals).repr.toList ++
        '.' :: decimalPart (lastDigits decimals count) := by
  simp [positional]

theorem mem_positional
    {decimals count : Nat}
    {character : Char}
    (member : character ∈ (positional decimals count).toList) :
    character.isDigit = true ∨ character = '.' := by
  rw [toList_positional, List.mem_append, List.mem_cons] at member
  rcases member with whole | point | decimal
  · exact Or.inl (isDigit_of_mem_repr whole)
  · exact Or.inr point
  · exact Or.inl
      (isDigit_of_mem_decimalPart (fun _ => isDigit_of_mem_lastDigits) decimal)

/-! ## Zeros at the end -/

theorem lastDigits_mul_ten (width count : Nat) :
    lastDigits (width + 1) (count * 10) = lastDigits width count ++ ['0'] := by
  rw [lastDigits, Nat.mul_div_cancel _ (by decide), Nat.mul_mod_left]
  rfl

theorem decimalPart_concat_zero (digits : List Char) :
    decimalPart (digits ++ ['0']) = decimalPart digits := by
  have dropped : dropFinalZeros (digits ++ ['0']) = dropFinalZeros digits := by
    simp [dropFinalZeros]
  rw [decimalPart, decimalPart, dropped]

theorem positional_mul_ten (decimals count : Nat) :
    positional (decimals + 1) (count * 10) = positional decimals count := by
  have whole :
      count * 10 / Nat.pow 10 (decimals + 1) = count / Nat.pow 10 decimals :=
    Nat.mul_div_mul_right _ _ (by decide)
  rw [positional, positional, whole, lastDigits_mul_ten, decimalPart_concat_zero]

/-- A count of smaller units that stands for the same number has the same text. -/
theorem positional_mul_pow (decimals count more : Nat) :
    positional (decimals + more) (count * 10 ^ more) = positional decimals count := by
  induction more with
  | zero => rw [Nat.add_zero, Nat.pow_zero, Nat.mul_one]
  | succ more hypothesis =>
      rw [Nat.pow_succ, ← Nat.mul_assoc, ← Nat.add_assoc, positional_mul_ten,
        hypothesis]

/-! ## Reading the digits back -/

theorem length_lastDigits (width count : Nat) :
    (lastDigits width count).length = width := by
  induction width generalizing count with
  | zero => rfl
  | succ width hypothesis =>
      rw [lastDigits, List.length_append, hypothesis, List.length_singleton]

theorem mod_eq_of_digitChar_eq
    {count other : Nat}
    (same : Nat.digitChar (count % 10) = Nat.digitChar (other % 10)) :
    count % 10 = other % 10 := by
  have left := Nat.toNat_digitChar_of_lt_ten (Nat.mod_lt count (by decide : 0 < 10))
  have right := Nat.toNat_digitChar_of_lt_ten (Nat.mod_lt other (by decide : 0 < 10))
  rw [same] at left
  omega

theorem mod_eq_of_lastDigits_eq
    {width count other : Nat}
    (same : lastDigits width count = lastDigits width other) :
    count % 10 ^ width = other % 10 ^ width := by
  induction width generalizing count other with
  | zero => rw [Nat.pow_zero, Nat.mod_one, Nat.mod_one]
  | succ width hypothesis =>
      rcases List.append_inj' same rfl with ⟨earlier, last⟩
      have rest := hypothesis earlier
      have digit := mod_eq_of_digitChar_eq (List.singleton_inj.1 last)
      rw [Nat.pow_succ', Nat.mod_mul, Nat.mod_mul, rest, digit]

/-- The digits are those that are kept, with zeros behind them. -/
theorem exists_eq_dropFinalZeros_append (digits : List Char) :
    ∃ zeros, digits = dropFinalZeros digits ++ List.replicate zeros '0' := by
  let zeros := digits.reverse.takeWhile (· = '0')
  have allZero : zeros = List.replicate zeros.length '0' := by
    apply List.eq_replicate_of_mem
    intro digit member
    have zero := List.mem_takeWhile_imp member
    exact of_decide_eq_true zero
  refine ⟨zeros.length, ?_⟩
  calc
    digits = (zeros ++ digits.reverse.dropWhile (· = '0')).reverse := by
      rw [List.takeWhile_append_dropWhile, List.reverse_reverse]
    _ = dropFinalZeros digits ++ List.replicate zeros.length '0' := by
      rw [List.reverse_append, allZero, List.reverse_replicate,
        List.length_replicate, dropFinalZeros]

theorem dropFinalZeros_ne_zero (digits : List Char) :
    dropFinalZeros digits ≠ ['0'] := by
  intro single
  have first := List.head?_dropWhile_not (· = '0') digits.reverse
  have kept : digits.reverse.dropWhile (· = '0') = ['0'] := by
    rw [← List.reverse_inj, ← dropFinalZeros, single]
    rfl
  rw [kept] at first
  cases first

theorem dropFinalZeros_eq_of_decimalPart_eq
    {digits others : List Char}
    (same : decimalPart digits = decimalPart others) :
    dropFinalZeros digits = dropFinalZeros others := by
  unfold decimalPart at same
  split at same
  · rename_i noDigits
    split at same
    · rename_i noOthers
      rw [noDigits, noOthers]
    · exact absurd same.symm (dropFinalZeros_ne_zero others)
  · split at same
    · exact absurd same (dropFinalZeros_ne_zero digits)
    · exact same

/-- As many digits as there were are read back from the decimals. -/
theorem eq_of_decimalPart_eq
    {digits others : List Char}
    (sameLength : digits.length = others.length)
    (same : decimalPart digits = decimalPart others) :
    digits = others := by
  have kept := dropFinalZeros_eq_of_decimalPart_eq same
  rcases exists_eq_dropFinalZeros_append digits with ⟨zeros, split⟩
  rcases exists_eq_dropFinalZeros_append others with ⟨otherZeros, otherSplit⟩
  have lengths := sameLength
  rw [split, otherSplit, List.length_append, List.length_append,
    List.length_replicate, List.length_replicate, kept] at lengths
  rw [split, otherSplit, kept, Nat.add_left_cancel lengths]

theorem eq_of_positional_eq
    {decimals count other : Nat}
    (same : positional decimals count = positional decimals other) :
    count = other := by
  have noPoint : ∀ number : Nat, '.' ∉ number.repr.toList := fun number member =>
    absurd (isDigit_of_mem_repr member) (by decide)
  have noDecimalPoint :
      ∀ number, '.' ∉ decimalPart (lastDigits decimals number) :=
    fun number member =>
      absurd
        (isDigit_of_mem_decimalPart (fun _ => isDigit_of_mem_lastDigits) member)
        (by decide)
  have texts := congrArg String.toList same
  rw [toList_positional, toList_positional,
    List.append_cons_inj_of_notMem (noPoint _) (noDecimalPoint _)] at texts
  rcases texts with ⟨wholes, _, parts⟩
  have whole := Nat.repr_inj.1 (String.toList_inj.1 wholes)
  have digits := eq_of_decimalPart_eq
    (by rw [length_lastDigits, length_lastDigits]) parts
  have rest := mod_eq_of_lastDigits_eq digits
  calc
    count = 10 ^ decimals * (count / 10 ^ decimals) + count % 10 ^ decimals :=
      (Nat.div_add_mod _ _).symm
    _ = 10 ^ decimals * (other / 10 ^ decimals) + other % 10 ^ decimals := by
      rw [rest]
      exact congrArg (10 ^ decimals * · + other % 10 ^ decimals) whole
    _ = other := Nat.div_add_mod _ _

/-- Texts are the same exactly if they stand for the same number. -/
theorem positional_eq_iff (decimals count otherDecimals other : Nat) :
    positional decimals count = positional otherDecimals other ↔
      count * 10 ^ otherDecimals = other * 10 ^ decimals := by
  rw [← positional_mul_pow decimals count otherDecimals,
    ← positional_mul_pow otherDecimals other decimals,
    Nat.add_comm otherDecimals decimals]
  exact ⟨eq_of_positional_eq, congrArg _⟩

end MiddleEnd.Number
