import MiddleEnd.Proofs.Number.Binary

/-!
# What the text of a floating-point literal tells

Seventeen significant digits are enough to tell two finite numbers apart, but a
text has them only if they take no more than twenty decimals.  A faint number
may need more, and is written with sixteen decimals instead.

The main result gives all pairs of finite numbers that share a text: a number
and itself, and faint numbers of one sign that are the same to sixteen decimals.
-/

namespace MiddleEnd.Number

open DecimalFormat (literal)

/-! ## The fraction does not matter -/

section

variable
    {numerator denominator other otherDenominator : Nat}
    (positive : 0 < denominator)
    (otherPositive : 0 < otherDenominator)
    (same : numerator * otherDenominator = other * denominator)

include positive otherPositive same

theorem scaled_congr (decimals : Nat) :
    literal.scaled numerator denominator decimals =
      literal.scaled other otherDenominator decimals := by
  apply roundDiv_congr _ positive otherPositive
  rw [Nat.mul_right_comm, same, Nat.mul_right_comm]

theorem isFaint_congr :
    IsFaint numerator denominator ↔ IsFaint other otherDenominator := by
  rw [IsFaint, IsFaint, scaled_congr positive otherPositive same]

theorem decimals_congr :
    literal.decimals numerator denominator =
      literal.decimals other otherDenominator := by
  have zero : numerator = 0 ↔ other = 0 := by
    constructor
    · rintro rfl
      rw [Nat.zero_mul] at same
      exact (Nat.mul_eq_zero.1 same.symm).resolve_right positive.ne'
    · rintro rfl
      rw [Nat.zero_mul] at same
      exact (Nat.mul_eq_zero.1 same).resolve_right otherPositive.ne'
  unfold DecimalFormat.decimals
  simp only [scaled_congr positive otherPositive same, zero]

theorem render_congr (negative : Bool) :
    Exact.render literal (.finite negative numerator denominator) =
      signText negative ++
        positional (literal.decimals other otherDenominator)
          (printed other otherDenominator) := by
  rw [Exact.render, decimals_congr positive otherPositive same,
    scaled_congr positive otherPositive same, printed]

end

/-! ## Signs -/

theorem minus_not_mem_positional (decimals count : Nat) :
    '-' ∉ (positional decimals count).toList := by
  intro member
  rcases mem_positional member with digit | point
  · cases digit
  · cases point

theorem minus_append_positional_ne {decimals count otherDecimals other : Nat} :
    signText true ++ positional decimals count ≠
      signText false ++ positional otherDecimals other := by
  intro same
  have written : "-" ++ positional decimals count = positional otherDecimals other := by
    rwa [signText, signText, if_pos rfl, if_neg Bool.false_ne_true,
      String.empty_append] at same
  apply minus_not_mem_positional otherDecimals other
  rw [← written, String.toList_append]
  exact List.mem_cons_self

theorem signText_append_eq_iff
    {negative otherNegative : Bool}
    {decimals count otherDecimals other : Nat} :
    signText negative ++ positional decimals count =
        signText otherNegative ++ positional otherDecimals other ↔
      negative = otherNegative ∧
        positional decimals count = positional otherDecimals other := by
  constructor
  · intro same
    have sign : negative = otherNegative := by
      cases negative with
      | false =>
          cases otherNegative with
          | false => rfl
          | true => exact absurd same.symm minus_append_positional_ne
      | true =>
          cases otherNegative with
          | false => exact absurd same minus_append_positional_ne
          | true => rfl
    rw [sign, String.append_right_inj] at same
    exact ⟨sign, same⟩
  · rintro ⟨rfl, same⟩
    rw [same]

/-! ## Texts of finite numbers -/

/-- Both values are faint, of one sign, and the same to sixteen decimals. -/
def Exact.FaintlyEqual : Exact → Exact → Prop
  | .finite negative numerator denominator,
    .finite otherNegative other otherDenominator =>
      negative = otherNegative ∧
        IsFaint numerator denominator ∧
        IsFaint other otherDenominator ∧
        literal.scaled numerator denominator 16 =
          literal.scaled other otherDenominator 16
  | _, _ => False

instance : (value other : Exact) → Decidable (value.FaintlyEqual other)
  | .nan _, _ => isFalse id
  | .infinite _, _ => isFalse id
  | .finite .., .nan _ => isFalse id
  | .finite .., .infinite _ => isFalse id
  | .finite .., .finite .. => inferInstanceAs (Decidable (_ ∧ _ ∧ _ ∧ _))

theorem renderFloat_of_isFinite
    {number : Binary64}
    (finite : number.isFinite = true) :
    renderFloat number =
      signText number.isNegative ++
        positional
          (literal.decimals (units (magnitude number)) unitsOfOne)
          (printed (units (magnitude number)) unitsOfOne) := by
  rcases ofBinary64_eq_finite finite with
    ⟨numerator, denominator, value, positive, same⟩
  rw [renderFloat, value]
  exact render_congr positive unitsOfOne_pos same _

theorem faintlyEqual_ofBinary64_iff
    {number other : Binary64}
    (finite : number.isFinite = true)
    (otherFinite : other.isFinite = true) :
    (Exact.ofBinary64 number).FaintlyEqual (Exact.ofBinary64 other) ↔
      number.isNegative = other.isNegative ∧
        IsFaint (units (magnitude number)) unitsOfOne ∧
        IsFaint (units (magnitude other)) unitsOfOne ∧
        literal.scaled (units (magnitude number)) unitsOfOne 16 =
          literal.scaled (units (magnitude other)) unitsOfOne 16 := by
  rcases ofBinary64_eq_finite finite with
    ⟨numerator, denominator, value, positive, same⟩
  rcases ofBinary64_eq_finite otherFinite with
    ⟨otherNumerator, otherDenominator, otherValue, otherPositive, otherSame⟩
  rw [value, otherValue, Exact.FaintlyEqual,
    isFaint_congr positive unitsOfOne_pos same,
    isFaint_congr otherPositive unitsOfOne_pos otherSame,
    scaled_congr positive unitsOfOne_pos same,
    scaled_congr otherPositive unitsOfOne_pos otherSame]

/--
Two finite numbers have the same text exactly if they are the same number, or if
both are faint and the same to sixteen decimals.
-/
theorem renderFloat_eq_iff
    {number other : Binary64}
    (finite : number.isFinite = true)
    (otherFinite : other.isFinite = true) :
    renderFloat number = renderFloat other ↔
      number.bits = other.bits ∨
        (Exact.ofBinary64 number).FaintlyEqual (Exact.ofBinary64 other) := by
  rw [renderFloat_of_isFinite finite, renderFloat_of_isFinite otherFinite,
    signText_append_eq_iff,
    positional_decimals_eq_iff unitsOfOne_pos (units_spaced _ _)
      (units_spaced _ _),
    faintlyEqual_ofBinary64_iff finite otherFinite, bits_eq_iff, and_or_left]

/-- The number `0.0001` shares its text with the number before it, and not with the next. -/
theorem renderFloat_eq_iff_boundary :
    (Binary64.mk 0x3F1A36E2EB1C432C).isFinite = true ∧
      (Binary64.mk 0x3F1A36E2EB1C432D).isFinite = true ∧
      (Binary64.mk 0x3F1A36E2EB1C432E).isFinite = true ∧
      renderFloat (Binary64.mk 0x3F1A36E2EB1C432C) =
        renderFloat (Binary64.mk 0x3F1A36E2EB1C432D) ∧
      renderFloat (Binary64.mk 0x3F1A36E2EB1C432D) ≠
        renderFloat (Binary64.mk 0x3F1A36E2EB1C432E) := by
  have before : (Binary64.mk 0x3F1A36E2EB1C432C).isFinite = true := by decide +kernel
  have here : (Binary64.mk 0x3F1A36E2EB1C432D).isFinite = true := by decide +kernel
  have after : (Binary64.mk 0x3F1A36E2EB1C432E).isFinite = true := by decide +kernel
  refine ⟨before, here, after, ?_, ?_⟩
  · rw [renderFloat_eq_iff before here]
    decide +kernel
  · rw [Ne, renderFloat_eq_iff here after]
    decide +kernel

/-- A number and zero share a text. -/
theorem renderFloat_shared_with_zero :
    (Binary64.mk 0x3C670EF54646D497).isFinite = true ∧
      (Binary64.mk 0).isFinite = true ∧
      (Binary64.mk 0x3C670EF54646D497).bits ≠ (Binary64.mk 0).bits ∧
      renderFloat (Binary64.mk 0x3C670EF54646D497) =
        renderFloat (Binary64.mk 0) := by
  decide +kernel

end MiddleEnd.Number
