import Mathlib
import Spreadsheet.Proofs.DecimalLiterals
import Spreadsheet.Proofs.DoubleSigns
import Spreadsheet.Proofs.ScientificDigits

/-
  The numbers that scientific forms denote. The digits that
  are chosen for a double denote a number that is rounded to
  it: a number on a grid is only chosen between the middles
  to the neighbours of the double, and the exact value, which
  is taken if there is none, lies between them as well.

  Main declarations:
    * `Scientific.toRat`
    * `Scientific.toRat_bounds`
    * `Scientific.roundsTo_ofExact`
-/

namespace Spreadsheet

open Binary64

namespace Scientific

variable {n : Nat}
variable {s : Scientific}
variable {x : Float}

------------------------------------------------------------
-- Denoted Numbers
------------------------------------------------------------

/- A scientific form as a literal with an exponent. -/
def literal
    (s : Scientific) : DecimalLiteral :=
  ⟨s.digits.take 1, s.digits.drop 1, s.exponent⟩

/- The number that a scientific form denotes. -/
def toRat
    (s : Scientific) : ℚ :=
  s.literal.toRat

theorem toRat_eq
    (s : Scientific) :
    s.toRat =
      Digit.decimal s.digits
        * 10 ^ (s.exponent - (s.digits.length - 1 : Nat)) := by
  rw [toRat, DecimalLiteral.toRat_eq,
    DecimalLiteral.significand, DecimalLiteral.scale, literal,
    List.take_append_drop, List.length_drop]

/- Dropping zeros at the end keeps the number. -/
theorem toRat_ofGrid
    (hn : 0 < n)
    (grid : Int) :
    (ofGrid n grid).toRat = n * 10 ^ grid := by
  have hTen : (10 : ℚ) ≠ 0 := by norm_num
  rcases exists_zeros n grid with ⟨zeros, hDigits⟩
  rcases (wellFormed_ofGrid hn grid).exists_first with
    ⟨c, rest, hFirst, -⟩
  have hExponent :
      (ofGrid n grid).exponent =
        grid + ((Nat.toDigits 10 n).length - 1 : Nat) :=
    rfl
  have hNumber := Digit.decimal_toDigits n
  rw [toRat_eq, hExponent]
  generalize (ofGrid n grid).digits = digits at *
  rw [hDigits, Digit.decimal_append,
    Digit.decimal_replicate_zero, List.length_replicate,
    Nat.add_zero] at hNumber
  rw [hDigits, hFirst, List.length_append,
    List.length_replicate, List.length_cons, ← hFirst,
    ← hNumber, Nat.cast_mul, Nat.cast_pow, mul_assoc,
    ← zpow_natCast, Nat.cast_ofNat, ← zpow_add₀ hTen]
  congr 2
  omega

/- The first digit is between one and nine. -/
theorem toRat_bounds
    (h : s.WellFormed) :
    (10 : ℚ) ^ s.exponent ≤ s.toRat
      ∧ s.toRat < 10 ^ (s.exponent + 1) := by
  rcases h.exists_first with ⟨c, rest, hDigits, hNe⟩
  have hTen : (10 : ℚ) ≠ 0 := by norm_num
  have hScale : (0 : ℚ) < 10 ^ (s.exponent - rest.length) := by
    positivity
  have hAll : Digit.AreDigits (c :: rest) :=
    hDigits ▸ h.areDigits
  have hMost := Digit.decimal_lt hAll
  have hLeast := Digit.ten_pow_le_decimal hAll hNe
  have hLow :
      (10 : ℚ) ^ s.exponent =
        10 ^ rest.length * 10 ^ (s.exponent - rest.length) := by
    rw [← zpow_natCast, ← zpow_add₀ hTen]
    congr 1
    omega
  have hHigh :
      (10 : ℚ) ^ (s.exponent + 1) =
        10 ^ (c :: rest).length
          * 10 ^ (s.exponent - rest.length) := by
    rw [← zpow_natCast, ← zpow_add₀ hTen, List.length_cons]
    congr 1
    omega
  rw [toRat_eq, hDigits, List.length_cons, Nat.add_sub_cancel,
    hLow, hHigh]
  constructor
  · exact mul_le_mul_of_nonneg_right (by exact_mod_cast hLeast)
      hScale.le
  · exact mul_lt_mul_of_pos_right (by exact_mod_cast hMost)
      hScale

------------------------------------------------------------
-- Comparisons
------------------------------------------------------------

/- Scaled numbers are compared exactly. -/
theorem compareScaled_eq
    (a : Nat)
    (i : Int)
    (b : Nat)
    (j : Int) :
    compareScaled a i b j =
      compare ((a : ℚ) * 10 ^ i) ((b : ℚ) * 2 ^ j) := by
  have hTen : (0 : ℚ) < 10 ^ (-i).toNat := by positivity
  have hTwo : (0 : ℚ) < 2 ^ (-j).toNat := by positivity
  have hLeft :
      ((a * Nat.pow 10 i.toNat * Nat.pow 2 (-j).toNat : Nat)
        : ℚ) =
        a * 10 ^ i * (10 ^ (-i).toNat * 2 ^ (-j).toNat) := by
    rw [zpow_eq_div (by norm_num) i, Nat.pow_eq, Nat.pow_eq]
    push_cast
    field_simp
  have hRight :
      ((b * Nat.pow 2 j.toNat * Nat.pow 10 (-i).toNat : Nat)
        : ℚ) =
        b * 2 ^ j * (10 ^ (-i).toNat * 2 ^ (-j).toNat) := by
    rw [zpow_eq_div (by norm_num) j, Nat.pow_eq, Nat.pow_eq]
    push_cast
    field_simp
  rw [compareScaled, ← cmp_eq_compare, ← cmp_eq_compare,
    ← Nat.strictMono_cast (α := ℚ) |>.cmp_map_eq, hLeft,
    hRight, cmp_mul_pos_right (mul_pos hTen hTwo)]

/-
  Digits read back if they lie in the interval of a double,
  whose ends are given in quarters of its unit.
-/
theorem readsBack_iff
    (x : Binary64.Exact)
    (n : Nat)
    (grid : Int) :
    readsBack x n grid = true ↔
      Reaches (x.mantissa % 2 = 0)
          (((if x.closeBelow then 4 * x.mantissa - 1
              else 4 * x.mantissa - 2 : Nat) : ℚ)
            * 2 ^ (x.exponent - 2))
          (n * 10 ^ grid)
        ∧ Reaches (x.mantissa % 2 = 0) (n * 10 ^ grid)
          ((4 * x.mantissa + 2 : Nat)
            * 2 ^ (x.exponent - 2)) := by
  unfold readsBack Reaches
  simp only [compareScaled_eq, Bool.and_eq_true,
    Bool.or_eq_true, beq_iff_eq, compare_gt_iff_gt,
    compare_lt_iff_lt, compare_eq_iff_eq]
  exact and_congr
    (or_congr Iff.rfl (and_congr Iff.rfl eq_comm)) Iff.rfl

end Scientific

------------------------------------------------------------
-- Exact Values
------------------------------------------------------------

namespace Binary64

variable {x : Float}

/- The place of the unit of a double among all units. -/
def placeOf
    (x : Float) : Nat :=
  withoutSign x / 2 ^ 52 - 1

theorem exponent_exact
    (x : Float) :
    (exact x).exponent = leastExponent + placeOf x := by
  unfold exact placeOf withoutSign
  simp only [Nat.pow_eq]
  split
  · next hZero =>
      dsimp only
      omega
  · next hField =>
      dsimp only
      omega

theorem closeBelow_exact
    (x : Float) :
    (exact x).closeBelow = true ↔
      withoutSign x % 2 ^ 52 = 0
        ∧ 2 ≤ withoutSign x / 2 ^ 52 := by
  unfold exact withoutSign
  simp only [Nat.pow_eq]
  split
  · next hZero =>
      exact iff_of_false Bool.false_ne_true (by omega)
  · next hField =>
      simp only [Bool.and_eq_true, beq_iff_eq,
        decide_eq_true_eq]
      omega

theorem unitsAt_withoutSign
    (x : Float) :
    unitsAt (withoutSign x) =
      (exact x).mantissa * 2 ^ placeOf x := by
  rw [withoutSign, ← magnitude_eq, magnitude, exponent_exact,
    add_sub_cancel_left, Int.toNat_natCast]

theorem mantissa_pos
    (hBits : 0 < withoutSign x) : 0 < (exact x).mantissa := by
  have hUnits := unitsAt_withoutSign x
  have hPos := strictMono_unitsAt hBits
  by_contra hZero
  rw [Nat.eq_zero_of_not_pos hZero, Nat.zero_mul] at hUnits
  omega

/- Quarters of the unit of a double. -/
theorem units_quarters
    (x : Float)
    (a : ℚ) :
    units (a * 2 ^ ((exact x).exponent - 2)) =
      a * 2 ^ placeOf x / 4 := by
  have hTwo : (2 : ℚ) ≠ 0 := by norm_num
  have hOne : leastExponent = -((-leastExponent).toNat : Int) :=
    rfl
  rw [units, unitsOfOne, exponent_exact, zpow_sub₀ hTwo,
    zpow_add₀ hTwo, zpow_natCast]
  nth_rewrite 1 [hOne]
  generalize (-leastExponent).toNat = one
  rw [zpow_neg, zpow_natCast]
  push_cast
  field_simp

/-
  The distance to the double before. It is half a unit at a
  power of two that is not among the least ones.
-/
theorem unitsAt_before
    {before : Nat}
    (h : withoutSign x = before + 1) :
    (unitsAt before + unitsAt (withoutSign x) : ℚ) =
      2 * units
        (((if (exact x).closeBelow then 4 * (exact x).mantissa - 1
            else 4 * (exact x).mantissa - 2 : Nat) : ℚ)
          * 2 ^ ((exact x).exponent - 2)) := by
  have hUnits := unitsAt_succ before
  have hPos := mantissa_pos (x := x) (by omega)
  rw [← h, unitsAt_withoutSign] at hUnits
  have hCast := congrArg (Nat.cast (R := ℚ)) hUnits
  rw [units_quarters, unitsAt_withoutSign]
  push_cast at hCast ⊢
  by_cases hClose : (exact x).closeBelow = true
  · have hPower := (closeBelow_exact x).mp hClose
    have hPlace : placeOf x = before / 2 ^ 52 - 1 + 1 := by
      unfold placeOf
      omega
    rw [if_pos hClose, Nat.cast_sub (by omega)]
    rw [hPlace, pow_succ] at hCast ⊢
    push_cast
    linarith
  · have hPower := mt (closeBelow_exact x).mpr hClose
    have hPlace : placeOf x = before / 2 ^ 52 - 1 := by
      unfold placeOf
      omega
    rw [if_neg hClose, Nat.cast_sub (by omega)]
    rw [hPlace] at hCast ⊢
    push_cast
    linarith

theorem unitsAt_after
    (x : Float) :
    (unitsAt (withoutSign x) + unitsAt (withoutSign x + 1) : ℚ) =
      2 * units
        ((4 * (exact x).mantissa + 2 : Nat)
          * 2 ^ ((exact x).exponent - 2)) := by
  rw [units_quarters, unitsAt_succ, ← placeOf,
    unitsAt_withoutSign]
  push_cast
  ring

/- So what reads back is rounded to the double. -/
theorem roundsTo_of_readsBack
    {n : Nat}
    {grid : Int}
    (hFinite : x.isFinite = true)
    (h : Scientific.readsBack (exact x) n grid = true) :
    RoundsTo (n * 10 ^ grid) (withoutSign x) := by
  have hEven :
      (exact x).mantissa % 2 = 0 ↔ withoutSign x % 2 = 0 := by
    have hBits := even_mantissa x
    unfold withoutSign
    omega
  rw [Scientific.readsBack_iff, hEven] at h
  refine ⟨(withoutSign_lt_infinityBits hFinite).le,
    fun before hBefore => ?_, fun _ => ?_⟩
  · rw [unitsAt_before hBefore]
    exact h.1.two_mul_units
  · rw [unitsAt_after]
    exact h.2.two_mul_units

end Binary64

namespace Scientific

/- The exact value of a double is rounded to it. -/
theorem exactOn_eq
    (x : Binary64.Exact) :
    ((exactOn x).1 * 10 ^ (exactOn x).2 : ℚ) =
      x.mantissa * 2 ^ x.exponent := by
  have hFactors : (10 : ℚ) = 2 * 5 := by norm_num
  unfold exactOn
  dsimp only
  rw [zpow_eq_div (by norm_num) x.exponent, Nat.pow_eq,
    Nat.pow_eq]
  push_cast
  rcases le_total x.exponent 0 with hNegative | hPositive
  · have hGrid :
        min x.exponent 0 = -((-x.exponent).toNat : Int) := by
      omega
    rw [hGrid, zpow_neg, zpow_natCast, hFactors, mul_pow]
    field_simp
  · have hGrid : min x.exponent 0 = 0 := by omega
    have hNone : (-x.exponent).toNat = 0 := by omega
    rw [hGrid, hNone]
    norm_num

theorem roundsTo_exactOn
    (hFinite : x.isFinite = true) :
    RoundsTo
      ((exactOn (exact x)).1 * 10 ^ (exactOn (exact x)).2)
      (withoutSign x) := by
  apply roundsTo_of_units_eq
    (withoutSign_lt_infinityBits hFinite).le
  have hQuarters :=
    units_quarters x (4 * (exact x).mantissa)
  have hTwo : (2 : ℚ) ≠ 0 := by norm_num
  rw [zpow_sub₀ hTwo] at hQuarters
  rw [exactOn_eq, unitsAt_withoutSign]
  push_cast
  unfold units at *
  linarith

/-
  The digits chosen for a finite double other than zero
  denote a number that is rounded to it.
-/
theorem roundsTo_ofExact
    (tie : Tie)
    (hFinite : x.isFinite = true)
    (hNonzero : (x == 0) = false) :
    (ofExact tie (exact x)).WellFormed
      ∧ RoundsTo (ofExact tie (exact x)).toRat
        (withoutSign x) := by
  rcases exists_ofGrid tie (exact x) with
    ⟨n, grid, hForm, hChosen⟩
  have hRounds : RoundsTo (n * 10 ^ grid) (withoutSign x) := by
    rcases hChosen with hReads | hExact
    · exact roundsTo_of_readsBack hFinite hReads
    · have hExactRounds := roundsTo_exactOn hFinite
      rw [← hExact] at hExactRounds
      exact hExactRounds
  have hn : 0 < n := by
    have hPos := hRounds.pos (withoutSign_pos hNonzero)
    by_contra hZero
    rw [Nat.eq_zero_of_not_pos hZero, Nat.cast_zero,
      zero_mul] at hPos
    exact lt_irrefl _ hPos
  rw [hForm, toRat_ofGrid hn]
  exact ⟨wellFormed_ofGrid hn grid, hRounds⟩

end Scientific

end Spreadsheet
