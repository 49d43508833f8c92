import Mathlib
import Spreadsheet.Proofs.ScientificForms

/-
  The text of a number. The digits that are chosen for a
  finite double are laid out without a change of value: the
  text is a decimal literal that denotes the number of the
  digits, in full from a millionth up to `10 ^ 21` and with
  an exponent otherwise. So reading the text gives back the
  double.

  Key definitions include:
    * `NumberStyle.layout?`
    * `IsPlain`
    * `IsExponential`

  The main result is `formatNumber_exact`.
-/

namespace Spreadsheet

variable {s : Scientific}
variable {x : Float}
variable {cs body : List Char}

------------------------------------------------------------
-- Two Notations
------------------------------------------------------------

/- Digits on both sides of the point, if there is one. -/
def PlainNumeral.PointInside
    (n : PlainNumeral) : Prop :=
  n.whole ≠ [] ∧ n.fraction? ≠ some []

/- Digits in full, with or without a point among them. -/
def IsPlain
    (cs : List Char) : Prop :=
  ∃ n : PlainNumeral, n.PointInside ∧ cs = n.chars

/-
  One leading digit, a point and the other digits if there
  are more, and an exponent with its sign.
-/
def IsExponential
    (cs : List Char) : Prop :=
  ∃ (n : PlainNumeral) (sign : Char) (digits : List Char),
    n.PointInside ∧ n.whole.length = 1
      ∧ (sign = '-' ∨ sign = '+')
      ∧ digits ≠ [] ∧ Digit.AreDigits digits
      ∧ cs = n.chars ++ 'e' :: sign :: digits

/- No text is in both notations. -/
theorem IsPlain.not_isExponential
    (h : IsPlain cs) : ¬ IsExponential cs := by
  rintro ⟨m, sign, digits, -, -, -, -, -, rfl⟩
  rcases h with ⟨n, -, hChars⟩
  have hMark : 'e' ∈ n.chars := by
    rw [← hChars]
    simp
  exact absurd (n.mem_chars hMark) (by decide)

namespace NumberStyle

------------------------------------------------------------
-- Layout With Checks
------------------------------------------------------------

/- Cut digits at a place; there must be as many of them. -/
def split?
    (digits : List Char)
    (place : Int) : Option (List Char × List Char) :=
  if 0 ≤ place ∧ place ≤ digits.length then
    some (digits.take place.toNat, digits.drop place.toNat)
  else none

/- So many zeros; there is no negative number of them. -/
def zeros?
    (count : Int) : Option (List Char) :=
  if 0 ≤ count then some (zeros count.toNat) else none

/-
  The layout of numbers in cells by the place of the point:
  after the digits, among them, in front of them, or so far
  from them that an exponent is written. There is no text if
  digits are cut where there are none, or if a negative
  number of zeros is asked for.
-/
def layout?
    (s : Scientific) : Option (List Char) :=
  let count : Int := s.digits.length
  let point := s.exponent + 1
  if count ≤ point ∧ point ≤ 21 then
    (zeros? (point - count)).map fun fill => s.digits ++ fill
  else if 0 < point ∧ point ≤ 21 then
    (split? s.digits point).map fun parts =>
      parts.1 ++ '.' :: parts.2
  else if -6 < point ∧ point ≤ 0 then
    (zeros? (-point)).map fun fill =>
      '0' :: '.' :: fill ++ s.digits
  else
    (split? s.digits 1).map fun parts =>
      parts.1 ++ afterPoint parts.2
        ++ 'e' :: (if s.exponent < 0 then '-' else '+')
        :: Nat.toDigits 10 s.exponent.natAbs

/- The exponents of numbers that are written in full. -/
theorem isPlain_cellNumberStyle
    (e : Int) :
    cellNumberStyle.isPlain e = true ↔ -6 ≤ e ∧ e ≤ 20 := by
  change (decide (-6 ≤ e) && decide (e ≤ 20)) = true ↔ _
  rw [Bool.and_eq_true, decide_eq_true_eq, decide_eq_true_eq]

/- All cuts and numbers of zeros are in range. -/
theorem layout?_eq
    (h : s.WellFormed) :
    layout? s = some (cellNumberStyle.layout s) := by
  have hCount := List.length_pos_iff.mpr h.digits_ne_nil
  have hPlain :
      cellNumberStyle.isPlain s.exponent = true ↔
        -6 < s.exponent + 1 ∧ s.exponent + 1 ≤ 21 := by
    rw [isPlain_cellNumberStyle]
    omega
  have hPointZero : cellNumberStyle.pointZero = false := rfl
  unfold layout? layout plain
  simp only [hPlain, hPointZero]
  generalize hPoint : s.exponent + 1 = point
  split
  · next hAfter =>
      rw [if_pos (by omega), if_neg (by omega),
        if_pos (by omega), zeros?, if_pos (by omega)]
      have hFill :
          (point - (s.digits.length : Int)).toNat =
            point.toNat - s.digits.length := by
        omega
      simp [hFill]
  · next hNotAfter =>
      split
      · next hAmong =>
          rw [if_pos (by omega), if_neg (by omega),
            if_neg (by omega), split?, if_pos (by omega)]
          rfl
      · next hNotAmong =>
          split
          · next hBefore =>
              rw [if_pos (by omega), if_pos (by omega), zeros?,
                if_pos (by omega)]
              rfl
          · next hFar =>
              have hNotPlain :
                  ¬ (-6 < point ∧ point ≤ 21) := by
                omega
              have hFirst :
                  (0 : Int) ≤ 1
                    ∧ (1 : Int) ≤ s.digits.length := by
                omega
              rw [if_neg hNotPlain, split?, if_pos hFirst]
              rfl

end NumberStyle

------------------------------------------------------------
-- Exact Layout
------------------------------------------------------------

/- Powers of ten are compared with the leading digit. -/
theorem Scientific.ten_zpow_le_toRat_iff
    (h : s.WellFormed)
    (i : Int) :
    (10 : ℚ) ^ i ≤ s.toRat ↔ i ≤ s.exponent := by
  have hBounds := toRat_bounds h
  constructor
  · intro hLe
    by_contra hLess
    have hPower : (10 : ℚ) ^ (s.exponent + 1) ≤ 10 ^ i :=
      zpow_le_zpow_right₀ (by norm_num) (by omega)
    linarith
  · intro hLe
    exact (zpow_le_zpow_right₀ (by norm_num) hLe).trans
      hBounds.1

/- Zeros after digits move the point and nothing else. -/
theorem toRat_eq_of_scale
    {d : DecimalLiteral}
    (h : s.WellFormed)
    (zeros : Nat)
    (hDigits :
      d.significand = Digit.decimal s.digits * 10 ^ zeros)
    (hScale :
      d.scale + zeros = s.exponent + 1 - s.digits.length) :
    d.toRat = s.toRat := by
  have hCount := List.length_pos_iff.mpr h.digits_ne_nil
  rw [DecimalLiteral.toRat_eq, s.toRat_eq, hDigits,
    Nat.cast_mul, Nat.cast_pow, mul_assoc, ← zpow_natCast,
    Nat.cast_ofNat, ← zpow_add₀ (by norm_num)]
  congr 2
  omega

theorem areDigits_zeros
    (n : Nat) : Digit.AreDigits (NumberStyle.zeros n) := by
  intro c hc
  rw [List.eq_of_mem_replicate hc]
  rfl

/- Digits without a point, at least one of them. -/
def PlainNumeral.ofWhole
    (whole : List Char)
    (hDigits : Digit.AreDigits whole)
    (hNe : whole ≠ []) : PlainNumeral where
  whole := whole
  fraction? := none
  whole_digits := hDigits
  fraction_digits _ hSome :=
    absurd hSome.symm (Option.some_ne_none _)
  point_in_front hNil := absurd hNil hNe

/- Digits with a point after at least one of them. -/
def PlainNumeral.ofParts
    (whole fraction : List Char)
    (hWhole : Digit.AreDigits whole)
    (hFraction : Digit.AreDigits fraction)
    (hNe : whole ≠ []) : PlainNumeral where
  whole := whole
  fraction? := some fraction
  whole_digits := hWhole
  fraction_digits _ hSome := Option.some.inj hSome ▸ hFraction
  point_in_front hNil := absurd hNil hNe

/- The point in front of the digits, after a zero. -/
theorem exists_plain_before
    (h : s.WellFormed)
    (hPoint : s.exponent + 1 ≤ 0) :
    ∃ n : PlainNumeral, n.PointInside
      ∧ '0' :: '.'
          :: NumberStyle.zeros (-(s.exponent + 1)).toNat
          ++ s.digits = n.chars
      ∧ n.literal.toRat = s.toRat := by
  let fraction :=
    NumberStyle.zeros (-(s.exponent + 1)).toNat ++ s.digits
  have hFraction : Digit.AreDigits fraction :=
    fun c hc => (List.mem_append.mp hc).elim
      (areDigits_zeros _ c) (h.areDigits c)
  have hMore : fraction ≠ [] :=
    List.append_ne_nil_of_right_ne_nil _ h.digits_ne_nil
  refine ⟨.ofParts ['0'] fraction (areDigits_zeros 1)
    hFraction (List.cons_ne_nil _ _),
    ⟨List.cons_ne_nil _ _, (Option.some_injective _).ne hMore⟩,
    rfl, toRat_eq_of_scale h 0 ?_ ?_⟩
  · change Digit.decimal (['0'] ++ (_ ++ s.digits)) = _
    have hZero : Digit.decimal ['0'] = 0 := rfl
    rw [Digit.decimal_append, Digit.decimal_append, hZero,
      NumberStyle.zeros, Digit.decimal_replicate_zero]
    omega
  · change 0 - ((_ ++ s.digits).length : Int) + _ = _
    rw [List.length_append, NumberStyle.zeros,
      List.length_replicate]
    omega

/- No point, and zeros up to where it would be. -/
theorem exists_plain_after
    (h : s.WellFormed)
    (hPoint : s.digits.length ≤ (s.exponent + 1).toNat) :
    ∃ n : PlainNumeral, n.PointInside
      ∧ s.digits
          ++ NumberStyle.zeros
            ((s.exponent + 1).toNat - s.digits.length) =
        n.chars
      ∧ n.literal.toRat = s.toRat := by
  have hCount := List.length_pos_iff.mpr h.digits_ne_nil
  let count := (s.exponent + 1).toNat - s.digits.length
  let whole := s.digits ++ NumberStyle.zeros count
  have hWhole : Digit.AreDigits whole :=
    fun c hc => (List.mem_append.mp hc).elim
      (h.areDigits c) (areDigits_zeros _ c)
  have hSome : whole ≠ [] :=
    List.append_ne_nil_of_left_ne_nil h.digits_ne_nil _
  refine ⟨.ofWhole whole hWhole hSome,
    ⟨hSome, (Option.some_ne_none _).symm⟩, rfl,
    toRat_eq_of_scale h count ?_ ?_⟩
  · change Digit.decimal
      ((s.digits ++ NumberStyle.zeros count) ++ []) = _
    rw [List.append_nil, Digit.decimal_append,
      NumberStyle.zeros, Digit.decimal_replicate_zero,
      List.length_replicate, Nat.add_zero]
  · change 0 - ((0 : Nat) : Int) + (count : Int) = _
    omega

/- The point among the digits. -/
theorem exists_plain_among
    (h : s.WellFormed)
    (hFirst : 0 < s.exponent + 1)
    (hPoint : (s.exponent + 1).toNat < s.digits.length) :
    ∃ n : PlainNumeral, n.PointInside
      ∧ s.digits.take (s.exponent + 1).toNat
          ++ '.' :: s.digits.drop (s.exponent + 1).toNat =
        n.chars
      ∧ n.literal.toRat = s.toRat := by
  let whole := s.digits.take (s.exponent + 1).toNat
  let fraction := s.digits.drop (s.exponent + 1).toNat
  have hWhole : Digit.AreDigits whole :=
    fun c hc => h.areDigits c (List.mem_of_mem_take hc)
  have hFraction : Digit.AreDigits fraction :=
    fun c hc => h.areDigits c (List.mem_of_mem_drop hc)
  have hSome : whole ≠ [] := by
    rw [ne_eq, List.take_eq_nil_iff]
    rintro (hZero | hNil)
    · omega
    · exact h.digits_ne_nil hNil
  have hMore : fraction ≠ [] := by
    rw [ne_eq, List.drop_eq_nil_iff]
    omega
  refine ⟨.ofParts whole fraction hWhole hFraction hSome,
    ⟨hSome, (Option.some_injective _).ne hMore⟩, rfl,
    toRat_eq_of_scale h 0 ?_ ?_⟩
  · change Digit.decimal (whole ++ fraction) = _
    rw [List.take_append_drop, Nat.pow_zero, Nat.mul_one]
  · change 0 - (fraction.length : Int) + _ = _
    rw [List.length_drop]
    omega

/- Digits in full denote the number of the digits. -/
theorem exists_plain
    (h : s.WellFormed) :
    ∃ n : PlainNumeral, n.PointInside
      ∧ NumberStyle.plain false s.digits (s.exponent + 1) =
        n.chars
      ∧ n.literal.toRat = s.toRat := by
  unfold NumberStyle.plain
  split
  · next hBefore => exact exists_plain_before h hBefore
  · next hNotBefore =>
      split
      · next hAfter =>
          rw [if_neg Bool.false_ne_true, List.append_nil]
          exact exists_plain_after h hAfter
      · next hAmong =>
          exact exists_plain_among h (by omega) (by omega)

/- An exponent with its sign is read as it is. -/
theorem exponentPart_signed
    (e : Int) :
    ExponentPart
      ('e' :: (if e < 0 then '-' else '+')
        :: Nat.toDigits 10 e.natAbs) e := by
  have hDigits := Digit.areDigits_toDigits e.natAbs
  rcases lt_or_ge e 0 with hNegative | hNot
  · have hPart :=
      ExponentPart.present (.inl rfl) .minus
        Nat.toDigits_ne_nil hDigits
    have hValue : -(e.natAbs : Int) = e := by omega
    rw [Digit.decimal_toDigits, if_pos rfl, hValue] at hPart
    rw [if_pos hNegative]
    exact hPart
  · have hPart :=
      ExponentPart.present (.inl rfl) .plus
        Nat.toDigits_ne_nil hDigits
    have hValue : (e.natAbs : Int) = e := by omega
    rw [Digit.decimal_toDigits, if_neg Bool.false_ne_true,
      hValue] at hPart
    rw [if_neg hNot.not_gt]
    exact hPart

/-
  One digit with the others after a point denotes the number
  of the digits if the exponent follows.
-/
theorem exists_exponential
    (h : s.WellFormed) :
    ∃ n : PlainNumeral, n.PointInside ∧ n.whole.length = 1
      ∧ NumberStyle.exponential s.digits s.exponent =
        n.chars ++ 'e'
          :: (if s.exponent < 0 then '-' else '+')
          :: Nat.toDigits 10 s.exponent.natAbs
      ∧ ⟨n.literal.whole, n.literal.fraction, s.exponent⟩ =
        s.literal := by
  rcases h.exists_first with ⟨first, rest, hFirst, -⟩
  have hDigits := h.areDigits
  rw [NumberStyle.exponential, Scientific.literal]
  rw [hFirst] at hDigits ⊢
  have hWhole : Digit.AreDigits [first] :=
    fun c hc => hDigits c (List.mem_cons.mpr
      (Or.inl (List.mem_singleton.mp hc)))
  have hNe : [first] ≠ [] := List.cons_ne_nil _ _
  cases rest with
  | nil =>
      exact ⟨.ofWhole [first] hWhole hNe,
        ⟨hNe, (Option.some_ne_none _).symm⟩, rfl, rfl, rfl⟩
  | cons second more =>
      have hRest : Digit.AreDigits (second :: more) :=
        fun c hc => hDigits c (List.mem_cons_of_mem _ hc)
      have hMore : some (second :: more) ≠ some [] :=
        (Option.some_injective _).ne (List.cons_ne_nil _ _)
      exact ⟨.ofParts [first] (second :: more) hWhole hRest
        hNe, ⟨hNe, hMore⟩, rfl, rfl, rfl⟩

/-
  The layout of digits is a decimal literal that denotes the
  number of the digits, in full from a millionth up to
  `10 ^ 21`.
-/
theorem layout_exact
    (h : s.WellFormed) :
    ∃ (n : PlainNumeral) (tail : List Char) (e : Int),
      cellNumberStyle.layout s = n.chars ++ tail
        ∧ ExponentPart tail e
        ∧ DecimalLiteral.toRat
            ⟨n.literal.whole, n.literal.fraction, e⟩ = s.toRat
        ∧ (IsPlain (n.chars ++ tail) ↔
          10 ^ (-6 : Int) ≤ s.toRat ∧ s.toRat < 10 ^ 21)
        ∧ (IsExponential (n.chars ++ tail) ↔
          ¬ (10 ^ (-6 : Int) ≤ s.toRat
            ∧ s.toRat < 10 ^ 21)) := by
  have hRange :
      cellNumberStyle.isPlain s.exponent = true ↔
        (10 : ℚ) ^ (-6 : Int) ≤ s.toRat
          ∧ s.toRat < 10 ^ 21 := by
    have hMost : s.toRat < 10 ^ 21 ↔ s.exponent < 21 := by
      have hPower : (10 : ℚ) ^ 21 = 10 ^ (21 : Int) := rfl
      rw [hPower, ← not_le, Scientific.ten_zpow_le_toRat_iff h,
        not_le]
    rw [Scientific.ten_zpow_le_toRat_iff h, hMost,
      NumberStyle.isPlain_cellNumberStyle]
    omega
  rw [NumberStyle.layout, ← hRange]
  split
  · next hPlain =>
      rcases exists_plain h with
        ⟨n, hInside, hChars, hNumber⟩
      have hIsPlain : IsPlain (n.chars ++ []) :=
        ⟨n, hInside, List.append_nil _⟩
      refine ⟨n, [], 0, ?_, .absent, hNumber,
        iff_of_true hIsPlain hPlain,
        iff_of_false hIsPlain.not_isExponential ?_⟩
      · rw [List.append_nil]
        exact hChars
      · exact not_not_intro hPlain
  · next hNotPlain =>
      rcases exists_exponential h with
        ⟨n, hInside, hOne, hChars, hLiteral⟩
      have hIsExponential :
          IsExponential
            (n.chars ++ 'e'
              :: (if s.exponent < 0 then '-' else '+')
              :: Nat.toDigits 10 s.exponent.natAbs) :=
        ⟨n, _, _, hInside, hOne, ite_eq_or_eq _ _ _,
          Nat.toDigits_ne_nil, Digit.areDigits_toDigits _,
          rfl⟩
      refine ⟨n, _, s.exponent, hChars, exponentPart_signed _,
        ?_, iff_of_false (fun hPlain =>
          hPlain.not_isExponential hIsExponential) hNotPlain,
        iff_of_true hIsExponential hNotPlain⟩
      rw [hLiteral, Scientific.toRat]

------------------------------------------------------------
-- The Text Of A Double
------------------------------------------------------------

/- The digits that are chosen for a double in a cell. -/
def cellForm
    (x : Float) : Scientific :=
  Scientific.ofExact cellNumberStyle.tie (Binary64.exact x)

/- A number with a minus sign or without. -/
def signedRat
    (negative : Bool)
    (q : ℚ) : ℚ :=
  if negative then -q else q

/- The number that the digits denote with their sign. -/
def cellRat
    (x : Float) : ℚ :=
  signedRat (decide (x < 0)) (cellForm x).toRat

theorem cellForm_rounds
    (hFinite : x.isFinite = true)
    (hNonzero : (x == 0) = false) :
    (cellForm x).WellFormed
      ∧ Binary64.RoundsTo (cellForm x).toRat
        (Binary64.withoutSign x) :=
  Scientific.roundsTo_ofExact _ hFinite hNonzero

theorem abs_cellRat
    (h : (cellForm x).WellFormed) :
    |cellRat x| = (cellForm x).toRat := by
  have hPower : (0 : ℚ) < 10 ^ (cellForm x).exponent := by
    positivity
  have hPositive : 0 < (cellForm x).toRat :=
    hPower.trans_le (Scientific.toRat_bounds h).1
  rw [cellRat, signedRat]
  split
  · rw [abs_neg, abs_of_pos hPositive]
  · exact abs_of_pos hPositive

/- The exponents of doubles have at most three digits. -/
theorem cellForm_exponent_bounds
    (hFinite : x.isFinite = true)
    (hNonzero : (x == 0) = false) :
    -324 ≤ (cellForm x).exponent
      ∧ (cellForm x).exponent ≤ 308 := by
  rcases cellForm_rounds hFinite hNonzero with
    ⟨hWellFormed, hRounds⟩
  have hBounds := Scientific.toRat_bounds hWellFormed
  have hPositive := Binary64.withoutSign_pos hNonzero
  have hLess := Binary64.withoutSign_lt_infinityBits hFinite
  constructor
  · by_contra hSmall
    have hPower :
        (10 : ℚ) ^ ((cellForm x).exponent + 1) ≤
          10 ^ (-324 : Int) :=
      zpow_le_zpow_right₀ (by norm_num) (by omega)
    have hZero :=
      Binary64.roundsTo_zero
        (DecimalLiteral.two_mul_units_lt_one
          (hBounds.2.trans_le hPower))
    exact hPositive.ne (hZero.unique hRounds)
  · by_contra hLarge
    have hPower :
        (10 : ℚ) ^ (309 : Int) ≤
          10 ^ (cellForm x).exponent :=
      zpow_le_zpow_right₀ (by norm_num) (by omega)
    have hInfinity :=
      Binary64.roundsTo_infinityBits
        (DecimalLiteral.unitsAt_infinityBits_le
          (hPower.trans hBounds.1))
    exact hLess.ne (hRounds.unique hInfinity)

theorem signed_sign
    (x : Float) :
    Signed (NumberStyle.sign x) (decide (x < 0)) := by
  rw [NumberStyle.sign]
  by_cases hNegative : x < 0
  · rw [if_pos hNegative, decide_eq_true hNegative]
    exact .minus
  · rw [if_neg hNegative, decide_eq_false hNegative]
    exact .unsigned

theorem formatNumber_of_isFinite
    (hFinite : x.isFinite = true)
    (hNonzero : (x == 0) = false) :
    formatNumber x =
      String.ofList
        (NumberStyle.sign x
          ++ cellNumberStyle.layout (cellForm x)) := by
  rcases Binary64.isFinite_iff.mp hFinite with
    ⟨hNumber, hNotInf⟩
  rw [formatNumber, hNumber, hNotInf, hNonzero,
    if_neg Bool.false_ne_true, if_neg Bool.false_ne_true,
    if_neg Bool.false_ne_true]
  rfl

/- A literal with the digits of a double is read as it. -/
theorem value_eq_of_toRat
    {d : DecimalLiteral}
    (hFinite : x.isFinite = true)
    (hNonzero : (x == 0) = false)
    (hNumber : d.toRat = (cellForm x).toRat) :
    (Numeral.decimal (decide (x < 0)) d).value = x := by
  have hNumeric := Binary64.isNaN_of_isFinite hFinite
  rcases d.exists_roundsTo_value with ⟨bits, hBits, hValue⟩
  rw [hNumber] at hBits
  have hSame : bits = Binary64.withoutSign x :=
    hBits.unique (cellForm_rounds hFinite hNonzero).2
  rw [Numeral.value, hValue, hSame,
    decide_eq_decide.mpr
      (Binary64.lt_zero_iff hNumeric hNonzero)]
  exact Binary64.signed_withoutSign hNumeric

/-
  A finite double other than zero is written as a decimal
  literal with a minus sign if it is negative, and no cut of
  the digits and no number of zeros is out of range. The
  literal denotes the number of the chosen digits exactly. It
  is written in full from a millionth up to `10 ^ 21`, and
  with one digit in front and a signed exponent otherwise. So
  reading the text gives the double that the digits are
  rounded to, which is the one that they were chosen for.
-/
theorem formatNumber_exact
    (hFinite : x.isFinite = true)
    (hNonzero : (x == 0) = false) :
    ∃ (body : List Char) (negative : Bool)
      (d : DecimalLiteral),
      (cellForm x).WellFormed
      ∧ -324 ≤ (cellForm x).exponent
      ∧ (cellForm x).exponent ≤ 308
      ∧ NumberStyle.layout? (cellForm x) = some body
      ∧ formatNumber x =
        String.ofList (NumberStyle.sign x ++ body)
      ∧ Numeral.Written (.decimal negative d)
        (NumberStyle.sign x ++ body)
      ∧ signedRat negative d.toRat = cellRat x
      ∧ (IsPlain body ↔
        10 ^ (-6 : Int) ≤ |cellRat x| ∧ |cellRat x| < 10 ^ 21)
      ∧ (IsExponential body ↔
        ¬ (10 ^ (-6 : Int) ≤ |cellRat x|
          ∧ |cellRat x| < 10 ^ 21))
      ∧ parseNumber (formatNumber x) = some x := by
  have hWellFormed := (cellForm_rounds hFinite hNonzero).1
  have hExponent := cellForm_exponent_bounds hFinite hNonzero
  have hText := formatNumber_of_isFinite hFinite hNonzero
  rcases layout_exact hWellFormed with
    ⟨n, tail, e, hBody, hTail, hNumber, hPlain, hExponential⟩
  have hWritten :=
    Numeral.Written.decimal (signed_sign x) n hTail
  rw [hBody] at hText
  rw [abs_cellRat hWellFormed]
  refine ⟨n.chars ++ tail, decide (x < 0),
    ⟨n.literal.whole, n.literal.fraction, e⟩, hWellFormed,
    hExponent.1, hExponent.2, ?_, hText, hWritten, ?_, hPlain,
    hExponential, ?_⟩
  · rw [NumberStyle.layout?_eq hWellFormed, hBody]
  · rw [hNumber, cellRat]
  · rw [hText, parseNumber_of_written hWritten,
      value_eq_of_toRat hFinite hNonzero hNumber]

/- A double below a millionth, with its sign. -/
theorem formatNumber_exact_belowMillionth :
    let x := Float.ofBits 0xbe8421f5f40d8376
    x.isFinite = true ∧ (x == 0) = false
      ∧ formatNumber x = "-1.5e-7"
      ∧ parseNumber "-1.5e-7" = some x := by
  intro x
  have hFinite : x.isFinite = true := by decide
  have hNonzero : (x == 0) = false := by decide
  have hText : formatNumber x = "-1.5e-7" := by
    decide +kernel
  rcases formatNumber_exact hFinite hNonzero with
    ⟨-, -, -, -, -, -, -, -, -, -, -, -, hReads⟩
  exact ⟨hFinite, hNonzero, hText, hText ▸ hReads⟩

end Spreadsheet
