import Mathlib
import Spreadsheet.Json.Numeral
import Spreadsheet.Proofs.NearestDoubles

/-
  Doubles that are finite. A double is finite unless it has
  the largest exponent field, and rounding raises an
  exponent by at most one beyond what the exact result
  needs. So products of finite doubles are finite or
  infinite, quotients by doubles from two on are finite, and
  with them every number that JSON reads.

  Main declarations:
    * `Binary64.isFinite_mul`
    * `Binary64.isFinite_div`
    * `Binary64.isFinite_ofNat`
    * `Json.Numeral.value_cases`
-/

namespace Spreadsheet

open Float.Model Float.Model.UnpackedFloat

namespace Binary64

------------------------------------------------------------
-- Packing
------------------------------------------------------------

theorem isFinite_eq
    (x : Float) : x.isFinite = (parts x).isFinite :=
  rfl

/- A double without the largest exponent field is finite. -/
theorem isFinite_unpack
    {b : BitVec Format.binary64.numBits}
    (hExponent :
      unpackExponent b
        ≠ -1#11) :
    (UnpackedFloat.unpack Format.binary64 b).isFinite
      = true := by
  simp only [UnpackedFloat.unpack, if_neg hExponent]
  split
  · split <;> rfl
  · rfl

theorem isFinite_pack_zero
    (s : Sign) :
    (UnpackedFloat.unpack Format.binary64
      (UnpackedFloat.pack Format.binary64
        (.zero s))).isFinite = true := by
  cases s <;> decide

/- A number is packed as finite if its exponent fits. -/
theorem isFinite_pack
    {s : Sign}
    {m : Nat}
    {e : Int}
    {hm : 0 < m}
    (he : e ≤ 971) :
    (UnpackedFloat.unpack Format.binary64
      (UnpackedFloat.pack Format.binary64
        (.finite s m e hm))).isFinite = true := by
  have hBias : Format.binary64.exponentBias = 1023 := rfl
  apply isFinite_unpack
  simp only [UnpackedFloat.pack, hBias]
  rw [if_neg (by omega)]
  split
  · rw [unpackExponent_packComponents]
    intro hOnes
    have hNat := congrArg BitVec.toNat hOnes
    have hMost :
        (-1#11).toNat = 2047 :=
      rfl
    rw [hMost, BitVec.toNat_ofNat] at hNat
    omega
  · rw [unpackExponent_packComponents]
    decide

/- What is not NaN is packed as finite or as infinite. -/
theorem isFinite_or_isInf_pack
    {f : UnpackedFloat}
    (hf : f ≠ .notANumber) :
    (UnpackedFloat.unpack Format.binary64
        (UnpackedFloat.pack Format.binary64 f)).isFinite
      = true
    ∨ (UnpackedFloat.unpack Format.binary64
        (UnpackedFloat.pack Format.binary64 f)).isInf
      = true := by
  cases f with
  | notANumber => exact absurd rfl hf
  | infinity s => cases s <;> exact .inr (by decide)
  | zero s => exact .inl (isFinite_pack_zero s)
  | finite s m e hm =>
      by_cases he : e ≤ 971
      · exact .inl (isFinite_pack he)
      · have hBias : Format.binary64.exponentBias = 1023 := rfl
        right
        simp only [UnpackedFloat.pack, hBias]
        rw [if_pos (by omega)]
        cases s <;> decide

/- The parts of a finite double are bounded. -/
theorem le_of_unpack
    {b : BitVec Format.binary64.numBits}
    {s : Sign}
    {m : Nat}
    {e : Int}
    {hm : 0 < m}
    (h :
      UnpackedFloat.unpack Format.binary64 b
        = .finite s m e hm) :
    e ≤ 971 ∧ m < 2 ^ 53 := by
  have hBias : Format.binary64.exponentBias = 1023 := rfl
  simp only [UnpackedFloat.unpack, hBias] at h
  generalize hField :
    (unpackExponent b :
      BitVec Format.binary64.exponentBits) = field at h
  have hFieldLt : field.toNat < 2 ^ 11 := field.isLt
  split at h
  · split at h <;> simp at h
  · next hOnes =>
      have hMost : field.toNat ≠ 2047 := fun hNat =>
        hOnes (BitVec.eq_of_toNat_eq hNat)
      split at h
      · next hZero =>
          have hLeast : field.toNat = 0 :=
            congrArg BitVec.toNat hZero
          split at h
          · simp at h
          · simp only [UnpackedFloat.finite.injEq] at h
            rcases h with ⟨-, rfl, rfl⟩
            refine ⟨by omega, ?_⟩
            exact (BitVec.isLt _).trans (by decide)
      · simp only [UnpackedFloat.finite.injEq] at h
        rcases h with ⟨-, rfl, rfl⟩
        exact ⟨by omega, BitVec.isLt _⟩

------------------------------------------------------------
-- Rounding
------------------------------------------------------------

theorem mantissa_shiftRight
    (em : ExtendedMantissa)
    (n : Nat) :
    (em >>> n).mantissa = em.mantissa / 2 ^ n := by
  induction n with
  | zero => simp [HShiftRight.hShiftRight, Nat.repeat]
  | succ n ih =>
      have hStep :
          (em >>> (n + 1)).mantissa
            = (em >>> n).mantissa / 2 :=
        rfl
      rw [hStep, ih, Nat.div_div_eq_div_mul, Nat.pow_succ]

theorem roundedMantissa_le
    (em : ExtendedMantissa) :
    em.roundedMantissa ≤ em.mantissa + 1 := by
  rcases em with ⟨m, round, sticky⟩
  cases round <;> cases sticky <;>
    simp only [ExtendedMantissa.roundedMantissa,
      ExtendedMantissa.accuracy,
      Accuracy.roundToNearestEven] <;>
    omega

/- The exponent that a mantissa is shifted to. -/
def roundedExponent
    (m : Nat)
    (e : Int) : Int :=
  max e (max (totalExponent m e - 53) (-1074))

theorem exponent_shiftToTargetExponent
    (m : Nat)
    (e : Int)
    (accuracy : Accuracy) :
    (shiftToTargetExponent
        Format.binary64 m e accuracy).2
      = roundedExponent m e := by
  have hTarget :
      Format.binary64.targetExponent (totalExponent m e)
        = max (totalExponent m e - 53) (-1074) :=
    rfl
  simp only [shiftToTargetExponent, shiftToExponent, hTarget,
    roundedExponent]
  omega

/- A shifted mantissa has at most fifty-three bits. -/
theorem mantissa_shiftToTargetExponent
    (m : Nat)
    (e : Int)
    (accuracy : Accuracy) :
    (shiftToTargetExponent
        Format.binary64 m e accuracy).1.mantissa
      < 2 ^ 53 := by
  have hTarget :
      Format.binary64.targetExponent (totalExponent m e)
        = max (m.log2 + 1 + e - 53) (-1074) :=
    rfl
  have hMantissa :
      (ExtendedMantissa.ofMantissaAndAccuracy
        m accuracy).mantissa = m := by
    rcases accuracy with - | order
    · rfl
    · cases order <;> rfl
  simp only [shiftToTargetExponent, shiftToExponent, hTarget,
    mantissa_shiftRight, hMantissa]
  generalize hn :
    (max ((m.log2 : Int) + 1 + e - 53) (-1074) - e).toNat = n
  have hLog : m.log2 + 1 ≤ 53 + n := by omega
  rw [Nat.div_lt_iff_lt_mul (by positivity), ← Nat.pow_add]
  exact Nat.lt_log2_self.trans_le
    (Nat.pow_le_pow_right (by decide) hLog)

/- Rounding raises that exponent by at most one. -/
theorem exponent_roundWithAccuracy
    (s : Sign)
    (m : Nat)
    (e : Int)
    (accuracy : Accuracy) :
    roundWithAccuracy Format.binary64 s m e accuracy
        = .zero s
      ∨ ∃ (m' : Nat) (e' : Int) (hm' : 0 < m'),
        roundWithAccuracy Format.binary64 s m e accuracy
          = .finite s m' e' hm'
        ∧ e' ≤ roundedExponent m e + 1 := by
  have hFirst := exponent_shiftToTargetExponent m e accuracy
  have hBits := mantissa_shiftToTargetExponent m e accuracy
  simp only [roundWithAccuracy]
  generalize shiftToTargetExponent Format.binary64 m e accuracy
    = first at *
  have hRounded := roundedMantissa_le first.1
  have hSecond :=
    exponent_shiftToTargetExponent
      first.1.roundedMantissa first.2 .exact
  have hLog : first.1.roundedMantissa.log2 ≤ 53 := by
    rw [← Nat.lt_add_one_iff]
    rcases Nat.eq_zero_or_pos first.1.roundedMantissa
      with hZero | hPos
    · rw [hZero]
      decide
    · rw [Nat.log2_lt hPos.ne']
      omega
  generalize shiftToTargetExponent Format.binary64
    first.1.roundedMantissa first.2 .exact = second at *
  split
  · exact .inl rfl
  · next hNe =>
      have hLeast : (-1074 : Int) ≤ first.2 := by
        rw [hFirst]
        unfold roundedExponent
        omega
      refine .inr ⟨second.1.mantissa, second.2,
        Nat.pos_of_ne_zero hNe, rfl, ?_⟩
      rw [hSecond, ← hFirst]
      unfold roundedExponent totalExponent
      omega

/- A rounded number whose exponent is small is finite. -/
theorem isFinite_pack_roundWithAccuracy
    (s : Sign)
    (m : Nat)
    (e : Int)
    (accuracy : Accuracy)
    (he : roundedExponent m e ≤ 970) :
    (UnpackedFloat.unpack Format.binary64
      (UnpackedFloat.pack Format.binary64
        (roundWithAccuracy
          Format.binary64 s m e accuracy))).isFinite
      = true := by
  rcases exponent_roundWithAccuracy s m e accuracy with
    hZero | ⟨m', e', hm', hFinite, he'⟩
  · rw [hZero]
    exact isFinite_pack_zero s
  · rw [hFinite]
    exact isFinite_pack (by omega)

theorem roundWithAccuracy_ne_notANumber
    (s : Sign)
    (m : Nat)
    (e : Int)
    (accuracy : Accuracy) :
    roundWithAccuracy Format.binary64 s m e accuracy
      ≠ .notANumber := by
  rcases exponent_roundWithAccuracy s m e accuracy with
    hZero | ⟨m', e', hm', hFinite, -⟩
  · rw [hZero]
    simp
  · rw [hFinite]
    simp

------------------------------------------------------------
-- Arithmetic
------------------------------------------------------------

/- A product of finite doubles is finite or infinite. -/
theorem isFinite_mul
    {x y : Float}
    (hx : x.isFinite = true)
    (hy : y.isFinite = true)
    (hInf : ¬ (x * y).isInf = true) :
    (x * y).isFinite = true := by
  have hProduct :
      UnpackedFloat.mul Format.binary64 (parts x) (parts y)
        ≠ .notANumber := by
    rw [isFinite_eq] at hx hy
    generalize parts x = f at *
    generalize parts y = g at *
    cases f <;> cases g <;>
      first
      | exact Bool.noConfusion hx
      | exact Bool.noConfusion hy
      | exact roundWithAccuracy_ne_notANumber _ _ _ _
      | simp [UnpackedFloat.mul]
  exact (isFinite_or_isInf_pack hProduct).resolve_right hInf

theorem isFinite_neg
    {x : Float}
    (hx : x.isFinite = true) : (-x).isFinite = true := by
  have hParts := @le_of_unpack x.toModel.toBits.toBitVec
  change (UnpackedFloat.unpack Format.binary64
    (UnpackedFloat.pack Format.binary64
      (parts x).neg)).isFinite = true
  rw [isFinite_eq] at hx
  change ∀ {s m e hm}, parts x = _ → _ at hParts
  generalize parts x = f at *
  cases f with
  | notANumber => exact Bool.noConfusion hx
  | infinity s => exact Bool.noConfusion hx
  | zero s => exact isFinite_pack_zero (-s)
  | finite s m e hm => exact isFinite_pack (hParts rfl).1

/-
  Whether a double is finite, not negative zero and has a
  magnitude of at least two.
-/
def isLarge
    (x : Float) : Bool :=
  match parts x with
  | .finite _ m e _ => 2 ≤ totalExponent m e
  | _ => false

/- A shift adds no more bits than it says. -/
theorem log2_shiftLeft_le
    (m n : Nat) : (m <<< n).log2 ≤ m.log2 + n := by
  rcases Nat.eq_zero_or_pos (m <<< n) with hZero | hPos
  · rw [hZero]
    exact Nat.zero_le _
  · rw [← Nat.lt_add_one_iff, Nat.log2_lt hPos.ne',
      Nat.shiftLeft_eq, Nat.add_right_comm, Nat.pow_add]
    exact Nat.mul_lt_mul_of_pos_right Nat.lt_log2_self
      (Nat.two_pow_pos n)

/- A quotient has no more bits than are left of it. -/
theorem log2_div_add_log2_le
    {a b : Nat}
    (hb : 0 < b)
    (hQuotient : a / b ≠ 0) :
    (a / b).log2 + b.log2 ≤ a.log2 := by
  have ha : a ≠ 0 := by
    rintro rfl
    simp at hQuotient
  rw [Nat.le_log2 ha, Nat.pow_add]
  calc
    2 ^ (a / b).log2 * 2 ^ b.log2
      ≤ a / b * b :=
        Nat.mul_le_mul (Nat.log2_self_le hQuotient)
          (Nat.log2_self_le hb.ne')
    _ ≤ a := Nat.div_mul_le_self a b

/- The exponent of a quotient by a number from two on. -/
theorem roundedExponent_divCore
    {m₁ m₂ : Nat}
    {e₁ e₂ : Int}
    (hm₂ : 0 < m₂)
    (hLog₁ : m₁.log2 ≤ 52)
    (he₁ : e₁ ≤ 971)
    (hLarge : 2 ≤ totalExponent m₂ e₂) :
    roundedExponent
        (divCore Format.binary64 m₁ e₁ m₂ e₂).1
        (divCore Format.binary64 m₁ e₁ m₂ e₂).2.1
      ≤ 970 := by
  have hTarget :
      Format.binary64.targetExponent
          (totalExponent m₁ e₁ - totalExponent m₂ e₂)
        = max (totalExponent m₁ e₁ - totalExponent m₂ e₂ - 53)
          (-1074) :=
    rfl
  simp only [divCore, hTarget, roundedExponent]
  unfold totalExponent at *
  generalize hq :
    min (e₁ - e₂)
      (max ((m₁.log2 : Int) + 1 + e₁ - (m₂.log2 + 1 + e₂) - 53)
        (-1074)) = q
  generalize hn : (e₁ - e₂ - q).toNat = n
  have hShift := log2_shiftLeft_le m₁ n
  rcases Nat.eq_zero_or_pos ((m₁ <<< n) / m₂) with
    hZero | hPos
  · rw [hZero]
    have hLog : Nat.log2 0 = 0 := rfl
    omega
  · have hLog := log2_div_add_log2_le hm₂ hPos.ne'
    omega

/- Dividing by a double from two on never overflows. -/
theorem isFinite_div
    {x y : Float}
    (hx : x.isFinite = true)
    (hy : isLarge y = true) : (x / y).isFinite = true := by
  have hParts := @le_of_unpack x.toModel.toBits.toBitVec
  change (UnpackedFloat.unpack Format.binary64
    (UnpackedFloat.pack Format.binary64
      (UnpackedFloat.div Format.binary64
        (parts x) (parts y)))).isFinite = true
  rw [isFinite_eq] at hx
  change ∀ {s m e hm}, parts x = _ → _ at hParts
  unfold isLarge at hy
  generalize parts x = f at *
  generalize parts y = g at *
  cases g with
  | notANumber => exact Bool.noConfusion hy
  | infinity s => exact Bool.noConfusion hy
  | zero s => exact Bool.noConfusion hy
  | finite s₂ m₂ e₂ hm₂ =>
      cases f with
      | notANumber => exact Bool.noConfusion hx
      | infinity s => exact Bool.noConfusion hx
      | zero s₁ => exact isFinite_pack_zero (s₁ / s₂)
      | finite s₁ m₁ e₁ hm₁ =>
          rcases hParts rfl with ⟨he₁, hLt₁⟩
          have hLog₁ : m₁.log2 < 53 :=
            (Nat.log2_lt hm₁.ne').mpr hLt₁
          apply isFinite_pack_roundWithAccuracy
          exact roundedExponent_divCore hm₂ (by omega) he₁
            (of_decide_eq_true hy)

theorem isFinite_of_isLarge
    {x : Float}
    (hx : isLarge x = true) : x.isFinite = true := by
  rw [isFinite_eq]
  unfold isLarge at hx
  generalize parts x = f at *
  cases f with
  | notANumber => exact Bool.noConfusion hx
  | infinity s => exact Bool.noConfusion hx
  | zero s => exact Bool.noConfusion hx
  | finite s m e hm => rfl

------------------------------------------------------------
-- Natural Numbers
------------------------------------------------------------

/- The bits before those of infinity are a finite double. -/
theorem isFinite_ofBits
    {n : Nat}
    (hn : n < infinityBits) :
    (Float.ofBits n.toUInt64).isFinite = true := by
  have hInfinity : infinityBits = 2047 * 2 ^ 52 := rfl
  have hBits := toNat_toBits_ofBits hn.le
  generalize Float.ofBits n.toUInt64 = x at *
  rw [isFinite_eq]
  apply isFinite_unpack
  apply ne_of_apply_ne BitVec.toNat
  rw [toNat_unpackExponent]
  change x.toBits.toNat / 2 ^ 52 % 2 ^ 11 ≠ 2047
  omega

/- Natural numbers of 64 bits are finite doubles. -/
theorem isFinite_ofNat
    {n : Nat}
    (hn : n < UInt64.size) : (ofNat n).isFinite = true := by
  rcases Nat.eq_zero_or_pos n with rfl | hPos
  · decide
  · have hInfinity : infinityBits = 2047 * 2 ^ 52 := rfl
    have hLog : n.log2 < 64 := (Nat.log2_lt hPos.ne').mpr hn
    have hMost := (significandOf_bounds hPos.ne').2
    rw [ofNat_eq hPos.ne']
    exact isFinite_ofBits (by omega)

/- Powers of ten up to the largest are finite doubles. -/
theorem isLarge_powerOfTen
    {n : Nat}
    (hPos : 0 < n)
    (hn : n ≤ Json.Numeral.largestPower) :
    isLarge (Json.Numeral.powerOfTen n) = true := by
  have hAll :
      ∀ i : Fin 308,
        isLarge (Json.Numeral.powerOfTen (i.val + 1))
          = true := by
    decide +kernel
  have hIndex : n - 1 < 308 := by
    unfold Json.Numeral.largestPower at hn
    omega
  have hSucc : n - 1 + 1 = n := by omega
  rw [← hSucc]
  exact hAll ⟨n - 1, hIndex⟩

end Binary64

------------------------------------------------------------
-- Numbers In JSON
------------------------------------------------------------

namespace Json

namespace Numeral

open Binary64

/- Appending digits keeps a significand below the bound. -/
theorem appendDigits_lt
    {n : Nat}
    (hn : n < bound)
    (cs : List Char) : (appendDigits n cs).1 < bound := by
  induction cs generalizing n with
  | nil => exact hn
  | cons c cs ih =>
      simp only [appendDigits]
      split
      · next hNext => exact ih hNext
      · exact hn

theorem significand_lt
    (d : Numeral) : d.significand.1 < bound :=
  appendDigits_lt (appendDigits_lt (by decide) d.whole)
    d.fraction

theorem isFinite_divide
    {x : Float}
    {n : Nat}
    (hx : x.isFinite = true)
    (hn : 0 < n) : (divide x n).isFinite = true := by
  fun_induction divide x n with
  | case1 x n hMost =>
      exact isFinite_div hx (isLarge_powerOfTen hn hMost)
  | case2 x n hMore hZero => exact hx
  | case3 x n hMore hNonzero ih =>
      refine ih (isFinite_div hx ?_) (by omega)
      exact isLarge_powerOfTen (by decide) (Nat.le_refl _)

/- Scaling a finite double gives one, if anything. -/
theorem isFinite_of_scale?
    {x y : Float}
    {exponent : Int}
    (hx : x.isFinite = true)
    (h : scale? x exponent = some y) : y.isFinite = true := by
  unfold scale? at h
  split at h
  · rw [← Option.some.inj h]
    exact isFinite_divide hx (by omega)
  · split at h
    · have hPower :
          (powerOfTen exponent.toNat).isFinite = true := by
        rcases Nat.eq_zero_or_pos exponent.toNat with
          hZero | hPos
        · rw [hZero]
          decide
        · exact isFinite_of_isLarge
            (isLarge_powerOfTen hPos (by omega))
      extract_lets product at h
      split at h
      · simp at h
      · next hInf =>
          rw [← Option.some.inj h]
          exact isFinite_mul hx hPower hInf
    · split at h
      · rw [← Option.some.inj h]
        exact hx
      · simp at h

/-
  A number that a numeral stands for: a natural number below
  the bound, or a finite double.
-/
theorem value_cases
    (d : Numeral) :
    (∃ n : Nat, n < bound ∧ d.value = natural n)
    ∨ (∃ x : Float, x.isFinite = true ∧ d.value = number x)
    ∨ d.value = unreadable := by
  have hLt := significand_lt d
  unfold value
  split
  next n exponent hSignificand =>
    rw [hSignificand] at hLt
    extract_lets isWhole
    split
    · exact .inl ⟨n, hLt, rfl⟩
    · split
      · next x hScale =>
          have hx := isFinite_of_scale? (isFinite_ofNat hLt) hScale
          refine .inr (.inl ⟨_, ?_, rfl⟩)
          cases d.negative with
          | false => exact hx
          | true => exact isFinite_neg hx
      · exact .inr (.inr rfl)

end Numeral

end Json

end Spreadsheet
