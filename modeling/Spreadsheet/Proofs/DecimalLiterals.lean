import Mathlib
import Spreadsheet.Proofs.NumeralGrammar
import Spreadsheet.Proofs.RoundedQuotients

/-
  The exact numbers that decimal literals denote. A literal
  stands for the double that its number is rounded to. That
  also holds of literals that are settled by the place of
  their leading digit: they lie below half of the least
  positive double, or beyond all of them.

  Main declarations:
    * `DecimalLiteral.toRat`
    * `DecimalLiteral.exists_roundsTo_value`
-/

namespace Spreadsheet

/- A power of ten or two as a quotient of whole powers. -/
theorem zpow_eq_div
    {a : ℚ}
    (ha : a ≠ 0)
    (i : Int) : a ^ i = a ^ i.toNat / a ^ (-i).toNat := by
  rw [← zpow_natCast, ← zpow_natCast, ← zpow_sub₀ ha,
    Int.toNat_sub_toNat_neg]

------------------------------------------------------------
-- Numbers Of Digits
------------------------------------------------------------

namespace Digit

variable {n : Nat}
variable {cs : List Char}

theorem decimal_append
    (cs ds : List Char) :
    decimal (cs ++ ds) =
      decimal cs * 10 ^ ds.length + decimal ds := by
  simp only [decimal_eq_ofDigitChars,
    Nat.ofDigitChars_append]
  rw [Nat.ofDigitChars_eq_ofDigitChars_zero, Nat.mul_comm]

/- Zeros count nothing. -/
theorem decimal_replicate_zero
    (n : Nat) : decimal (List.replicate n '0') = 0 := by
  rw [decimal_eq_ofDigitChars, Nat.ofDigitChars_replicate_zero,
    Nat.mul_zero]

theorem decimal_lt
    (hDigits : AreDigits cs) :
    decimal cs < 10 ^ cs.length := by
  induction cs using List.reverseRecOn with
  | nil => exact Nat.one_pos
  | append_singleton cs c ih =>
      have hc := (isDigit_iff c).mp (hDigits c (by simp))
      have hInit :=
        ih fun d hd => hDigits d (by simp [hd])
      rw [decimal_append_singleton, List.length_append,
        List.length_singleton, Nat.pow_succ]
      omega

theorem ten_pow_le_decimal
    {c : Char}
    (hDigits : AreDigits (c :: cs))
    (hNe : c ≠ '0') :
    10 ^ cs.length ≤ decimal (c :: cs) := by
  have hc := (isDigit_iff c).mp (hDigits c List.mem_cons_self)
  have hFirst : 1 ≤ decimal [c] := by
    rw [← List.nil_append [c], decimal_append_singleton]
    by_contra hZero
    apply hNe
    apply Char.toNat_inj.mp
    change c.toNat = 48
    omega
  have hAll := decimal_append [c] cs
  have hScale :=
    Nat.mul_le_mul_right (10 ^ cs.length) hFirst
  rw [List.singleton_append] at hAll
  omega

/- A number has a digit for each power of ten up to it. -/
theorem lt_ten_pow_length
    (n : Nat) : n < 10 ^ (Nat.toDigits 10 n).length :=
  (Nat.length_toDigits_le_iff (by decide)
    Nat.length_toDigits_pos).mp le_rfl

theorem ten_pow_length_le
    (hn : 0 < n) :
    10 ^ ((Nat.toDigits 10 n).length - 1) ≤ n := by
  by_contra hLess
  rw [Nat.not_le] at hLess
  have hPos := Nat.length_toDigits_pos (b := 10) (n := n)
  rcases Nat.eq_zero_or_pos
      ((Nat.toDigits 10 n).length - 1) with hOne | hMore
  · rw [hOne, Nat.pow_zero] at hLess
    omega
  · have hShort :=
      (Nat.length_toDigits_le_iff (by decide) hMore).mpr hLess
    omega

end Digit

namespace DecimalLiteral

open Binary64

------------------------------------------------------------
-- Exact Numbers
------------------------------------------------------------

/-
  The number that a literal denotes: its digits before and
  after the point, times ten to the power of its exponent.
-/
def toRat
    (d : DecimalLiteral) : ℚ :=
  (Digit.decimal d.whole
      + Digit.decimal d.fraction / 10 ^ d.fraction.length)
    * 10 ^ d.exponent

theorem toRat_eq
    (d : DecimalLiteral) :
    d.toRat = d.significand * 10 ^ d.scale := by
  have hTen : (10 : ℚ) ≠ 0 := by norm_num
  have hPower : (10 : ℚ) ^ d.fraction.length ≠ 0 :=
    pow_ne_zero _ hTen
  rw [toRat, significand, scale, Digit.decimal_append,
    zpow_sub₀ hTen, zpow_natCast]
  push_cast
  field_simp

/- A literal as a quotient of natural numbers. -/
theorem toRat_eq_div
    (d : DecimalLiteral) :
    d.toRat =
      ((d.significand * Nat.pow 10 d.scale.toNat : Nat) : ℚ)
        / (Nat.pow 10 (-d.scale).toNat : Nat) := by
  rw [toRat_eq, zpow_eq_div (by norm_num), Nat.pow_eq,
    Nat.pow_eq]
  push_cast
  rw [mul_div_assoc]

------------------------------------------------------------
-- Numbers Out Of Range
------------------------------------------------------------

/- The place of the leading digit bounds the number. -/
theorem toRat_bounds
    {d : DecimalLiteral}
    (hNe : d.significand ≠ 0) :
    (10 : ℚ)
          ^ (d.scale
            + (Nat.toDigits 10 d.significand).length - 1)
        ≤ d.toRat
      ∧ d.toRat
        < 10 ^ (d.scale
          + (Nat.toDigits 10 d.significand).length) := by
  have hTen : (10 : ℚ) ≠ 0 := by norm_num
  have hScale : (0 : ℚ) < 10 ^ d.scale := by positivity
  have hPos :=
    Nat.length_toDigits_pos (b := 10) (n := d.significand)
  have hLow := Digit.ten_pow_length_le (Nat.pos_of_ne_zero hNe)
  have hHigh := Digit.lt_ten_pow_length d.significand
  generalize (Nat.toDigits 10 d.significand).length = k at *
  have hPred : ((k - 1 : Nat) : Int) = k - 1 := by omega
  rw [toRat_eq, add_sub_assoc, ← hPred, zpow_add₀ hTen,
    zpow_add₀ hTen, zpow_natCast, zpow_natCast, mul_comm]
  constructor
  · exact mul_le_mul_of_nonneg_right (by exact_mod_cast hLow)
      hScale.le
  · rw [mul_comm]
    exact mul_lt_mul_of_pos_left (by exact_mod_cast hHigh)
      hScale

/- Less than half of the least positive double. -/
theorem two_mul_units_lt_one
    {q : ℚ}
    (h : q < 10 ^ (-324 : Int)) : 2 * units q < 1 := by
  have hOne : (0 : ℚ) < unitsOfOne :=
    Nat.cast_pos.mpr unitsOfOne_pos
  have hPower : 2 * unitsOfOne ≤ 10 ^ 324 := by
    decide +kernel
  have hCast : (2 * unitsOfOne : ℚ) ≤ 10 ^ (324 : Int) := by
    exact_mod_cast (Nat.cast_le (α := ℚ)).mpr hPower
  have hTen : (0 : ℚ) < 10 ^ (324 : Int) := by positivity
  rw [zpow_neg, ← one_div, lt_div_iff₀ hTen] at h
  unfold units
  rcases le_or_gt q 0 with hq | hq
  · have hNone := mul_nonpos_of_nonpos_of_nonneg hq hOne.le
    linarith
  · calc
      2 * (q * unitsOfOne) = q * (2 * unitsOfOne) := by ring
      _ ≤ q * 10 ^ (324 : Int) :=
        mul_le_mul_of_nonneg_left hCast hq.le
      _ < 1 := h

/- More than all doubles. -/
theorem unitsAt_infinityBits_le
    {q : ℚ}
    (h : 10 ^ (309 : Int) ≤ q) :
    (unitsAt infinityBits : ℚ) ≤ units q := by
  have hPower : infinityValue ≤ 10 ^ 309 := by
    decide +kernel
  have hCast : (infinityValue : ℚ) ≤ 10 ^ (309 : Int) := by
    exact_mod_cast (Nat.cast_le (α := ℚ)).mpr hPower
  rw [unitsAt_infinityBits, units, Nat.cast_mul]
  exact mul_le_mul_of_nonneg_right (hCast.trans h)
    (Nat.cast_nonneg _)

/-
  So a literal stands for the double that its number is
  rounded to.
-/
theorem exists_roundsTo_value
    (d : DecimalLiteral) :
    ∃ bits, RoundsTo d.toRat bits
      ∧ d.value = Float.ofBits bits.toUInt64 := by
  have hZero :
      (0 : Float) = Float.ofBits (0 : Nat).toUInt64 := by
    decide
  unfold value
  dsimp only
  split
  · next hSmall =>
      refine ⟨0, roundsTo_zero ?_, hZero⟩
      by_cases hNe : d.significand = 0
      · rw [toRat_eq, hNe, Nat.cast_zero, zero_mul, units,
          zero_mul, mul_zero]
        exact one_pos
      · apply two_mul_units_lt_one
        refine (toRat_bounds hNe).2.trans_le ?_
        exact zpow_le_zpow_right₀ (by norm_num)
          (by have := hSmall.resolve_left hNe; omega)
  · next hLeast =>
      rw [not_or, not_lt] at hLeast
      split
      · next hLarge =>
          refine ⟨infinityBits, roundsTo_infinityBits ?_, rfl⟩
          apply unitsAt_infinityBits_le
          refine le_trans ?_ (toRat_bounds hLeast.1).1
          exact zpow_le_zpow_right₀ (by norm_num) (by omega)
      · rw [toRat_eq_div]
        exact exists_roundsTo_ofRatio
          (Nat.mul_ne_zero hLeast.1 (by simp))
          (by simp)

end DecimalLiteral

end Spreadsheet
