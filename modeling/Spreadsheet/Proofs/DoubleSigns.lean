import Mathlib
import Spreadsheet.Proofs.DoubleMagnitudes

/-
  Signs and comparisons of doubles. A double that is not NaN
  is the one with the same bits but for the sign, turned if
  the sign bit is set, and unless it is zero this bit says
  whether it is negative. Doubles are equal to themselves
  unless they are NaN, and both zeros are equal.

  Main declarations:
    * `Binary64.signed_withoutSign`
    * `Binary64.lt_zero_iff`
    * `Binary64.beq_self`
-/

namespace Spreadsheet

open Float.Model Float.Model.UnpackedFloat

namespace Binary64

variable {x y : Float}

------------------------------------------------------------
-- Signs
------------------------------------------------------------

/- Turning the sign of the parts turns the sign bit. -/
theorem neg_unpack
    (b : BitVec Format.binary64.numBits) :
    (UnpackedFloat.unpack Format.binary64 b).neg =
      UnpackedFloat.unpack Format.binary64
        (packComponents Format.binary64
          (-Sign.ofBitVec (unpackSign b)) (unpackExponent b)
          (unpackMantissa b)) := by
  simp only [UnpackedFloat.unpack, unpackSign_packComponents,
    unpackExponent_packComponents,
    unpackMantissa_packComponents]
  split_ifs <;> simp [UnpackedFloat.neg]

/- The bits of a double, with their width. -/
def word
    (x : Float) : BitVec Format.binary64.numBits :=
  x.toBits.toBitVec

theorem toNat_word
    (x : Float) : (word x).toNat = x.toBits.toNat :=
  rfl

/- The sign bit is the first one. -/
theorem sign_eq_negative_iff
    (b : BitVec Format.binary64.numBits) :
    Sign.ofBitVec (unpackSign b) = .negative ↔
      2 ^ 63 ≤ b.toNat := by
  have hLess : b.toNat < 2 ^ 64 := b.isLt
  have hBit := toNat_unpackSign b
  unfold Sign.ofBitVec
  split
  · next hZero =>
      rw [hZero] at hBit
      change 0 = _ at hBit
      exact iff_of_false nofun (by omega)
  · next hOne =>
      refine iff_of_true rfl ?_
      by_contra hSmall
      apply hOne
      apply BitVec.eq_of_toNat_eq
      rw [hBit]
      change _ = 0
      omega

theorem toNat_toBits_neg
    (hNumber : x.isNaN = false)
    (hSign : x.toBits.toNat < 2 ^ 63) :
    (-x).toBits.toNat = 2 ^ 63 + x.toBits.toNat := by
  have hPositive :
      Sign.ofBitVec (unpackSign (word x)) = .positive := by
    cases hs : Sign.ofBitVec (unpackSign (word x)) with
    | positive => rfl
    | negative =>
        rw [sign_eq_negative_iff, toNat_word] at hs
        omega
  have hWord :
      word (-x) =
        packComponents Format.binary64 (-.positive)
          (unpackExponent (word x))
          (unpackMantissa (word x)) := by
    change UnpackedFloat.pack Format.binary64
      (UnpackedFloat.unpack Format.binary64 (word x)).neg = _
    rw [neg_unpack, hPositive]
    apply pack_unpack
    rw [unpackExponent_packComponents,
      unpackMantissa_packComponents]
    exact (isNaN_unpack _).mp hNumber
  rw [← toNat_word, hWord, toNat_packComponents,
    toNat_unpackExponent, toNat_unpackMantissa, toNat_word]
  change 1 * 2 ^ 63 + _ + _ = _
  omega

/- The bits of a double without its sign. -/
def withoutSign
    (x : Float) : Nat :=
  x.toBits.toNat % 2 ^ 63

/- A double with its sign. -/
theorem signed_withoutSign
    (hNumber : x.isNaN = false) :
    signed (decide (2 ^ 63 ≤ x.toBits.toNat))
        (Float.ofBits (withoutSign x).toUInt64) = x := by
  have hLess : x.toBits.toNat < 2 ^ 64 :=
    x.toBits.toBitVec.isLt
  have hMost := (isNaN_eq_false_iff x).mp hNumber
  have hBits := toNat_toBits_ofBits hMost
  change (Float.ofBits (withoutSign x).toUInt64).toBits.toNat
    = withoutSign x at hBits
  have hSmall : withoutSign x < 2 ^ 63 :=
    Nat.mod_lt _ (by decide)
  have hSplit : withoutSign x = x.toBits.toNat % 2 ^ 63 := rfl
  apply eq_of_toBits_eq
  apply UInt64.toNat_inj.mp
  rcases Nat.lt_or_ge x.toBits.toNat (2 ^ 63) with
    hPlus | hMinus
  · rw [signed, decide_eq_false hPlus.not_ge,
      if_neg Bool.false_ne_true, hBits, hSplit,
      Nat.mod_eq_of_lt hPlus]
  · have hMagnitude :
        (Float.ofBits (withoutSign x).toUInt64).isNaN =
          false := by
      rw [isNaN_eq_false_iff, hBits, hSplit,
        Nat.mod_mod]
      exact hMost
    rw [signed, decide_eq_true hMinus, if_pos rfl,
      toNat_toBits_neg hMagnitude (by rw [hBits]; exact hSmall),
      hBits]
    omega

/- A sign does not make a number of NaN, or NaN of one. -/
theorem isNaN_signed
    (negative : Bool)
    (hNumber : x.isNaN = false)
    (hSign : x.toBits.toNat < 2 ^ 63) :
    (signed negative x).isNaN = false := by
  rw [signed]
  split
  · have hInfinity : infinityBits = 2047 * 2 ^ 52 := rfl
    rw [isNaN_eq_false_iff] at hNumber
    rw [isNaN_eq_false_iff, toNat_toBits_neg]
    · omega
    · rw [isNaN_eq_false_iff]
      exact hNumber
    · exact hSign
  · exact hNumber

------------------------------------------------------------
-- Comparisons
------------------------------------------------------------

theorem beq_eq
    (x y : Float) :
    (x == y) = ((parts x).compare (parts y) == some .eq) :=
  rfl

theorem lt_iff
    (x y : Float) :
    x < y ↔ (parts x).compare (parts y) = some .lt := by
  change decide (x.toModel < y.toModel) = true ↔ _
  rw [decide_eq_true_eq]
  exact beq_iff_eq

theorem parts_zero : parts 0 = .zero .positive :=
  rfl

/- Nothing but NaN differs from itself. -/
theorem beq_self
    (hNumber : x.isNaN = false) : (x == x) = true := by
  change (parts x).isNaN = false at hNumber
  rw [beq_eq]
  cases hx : parts x with
  | notANumber =>
      rw [hx] at hNumber
      cases hNumber
  | infinity s => cases s <;> rfl
  | zero s => rfl
  | finite s m e hm =>
      cases s <;> simp [UnpackedFloat.compare]

/- Both zeros are equal, whichever comes first. -/
theorem beq_zero_iff :
    (x == 0) = true ↔ ∃ s, parts x = .zero s := by
  rw [beq_eq, parts_zero]
  constructor
  · intro h
    cases hx : parts x with
    | notANumber =>
        rw [hx] at h
        cases h
    | infinity s =>
        rw [hx] at h
        cases s <;> cases h
    | zero s => exact ⟨s, rfl⟩
    | finite s m e hm =>
        rw [hx] at h
        cases s <;> cases h
  · rintro ⟨s, hs⟩
    rw [hs]
    rfl

theorem zero_beq
    (h : (x == 0) = true) : (0 == x) = true := by
  rcases beq_zero_iff.mp h with ⟨s, hs⟩
  rw [beq_eq, parts_zero, hs]
  rfl

/- Each infinity is equal to the one of its sign. -/
theorem signed_infinity_beq
    (h : x.isInf = true) :
    (signed (!decide (0 < x)) infinity == x) = true := by
  change (parts x).isInf = true at h
  cases hx : parts x with
  | infinity s =>
      cases s with
      | positive =>
          have hPositive : 0 < x := by
            rw [lt_iff, parts_zero, hx]
            rfl
          rw [decide_eq_true hPositive, beq_eq, hx]
          rfl
      | negative =>
          have hNegative : ¬ 0 < x := by
            rw [lt_iff, parts_zero, hx]
            nofun
          rw [decide_eq_false hNegative, beq_eq, hx]
          rfl
  | notANumber =>
      rw [hx] at h
      cases h
  | zero s =>
      rw [hx] at h
      cases h
  | finite s m e hm =>
      rw [hx] at h
      cases h

/- The sign among the parts of a double. -/
def signOf? : UnpackedFloat → Option Sign
  | .notANumber => none
  | .infinity s => some s
  | .zero s => some s
  | .finite s _ _ _ => some s

theorem signOf?_parts
    (hNumber : x.isNaN = false) :
    signOf? (parts x) =
      some (Sign.ofBitVec (unpackSign (word x))) := by
  change (UnpackedFloat.unpack Format.binary64
    (word x)).isNaN = false at hNumber
  change signOf? (UnpackedFloat.unpack Format.binary64
    (word x)) = _
  simp only [UnpackedFloat.unpack] at hNumber ⊢
  split_ifs at hNumber ⊢
  · rfl
  · cases hNumber
  · rfl
  · rfl
  · rfl

/- A double that is not zero has the sign of its bits. -/
theorem lt_zero_iff
    (hNumber : x.isNaN = false)
    (hNonzero : (x == 0) = false) :
    x < 0 ↔ 2 ^ 63 ≤ x.toBits.toNat := by
  have hSign := signOf?_parts hNumber
  have hNegative :
      2 ^ 63 ≤ x.toBits.toNat ↔
        signOf? (parts x) = some .negative := by
    rw [hSign, Option.some_inj, sign_eq_negative_iff,
      toNat_word]
  rw [Bool.eq_false_iff, ne_eq, beq_zero_iff] at hNonzero
  rw [lt_iff, parts_zero, hNegative]
  cases hx : parts x with
  | notANumber =>
      rw [hx] at hSign
      cases hSign
  | infinity s =>
      cases s <;> simp [signOf?, UnpackedFloat.compare]
  | zero s => exact absurd ⟨s, hx⟩ hNonzero
  | finite s m e hm =>
      cases s <;> simp [signOf?, UnpackedFloat.compare]

------------------------------------------------------------
-- Finite Doubles
------------------------------------------------------------

theorem isFinite_iff :
    x.isFinite = true ↔ x.isNaN = false ∧ x.isInf = false := by
  change (parts x).isFinite = true ↔
    (parts x).isNaN = false ∧ (parts x).isInf = false
  cases parts x with
  | notANumber => exact iff_of_false nofun nofun
  | infinity s => exact iff_of_false nofun nofun
  | zero s => exact iff_of_true rfl ⟨rfl, rfl⟩
  | finite s m e hm => exact iff_of_true rfl ⟨rfl, rfl⟩

theorem isNaN_of_isFinite
    (hFinite : x.isFinite = true) : x.isNaN = false :=
  (isFinite_iff.mp hFinite).1

/- The bits of finite doubles are those before infinity. -/
theorem withoutSign_lt_infinityBits
    (hFinite : x.isFinite = true) :
    withoutSign x < infinityBits := by
  have hInfinity : infinityBits = 2047 * 2 ^ 52 := rfl
  have hMost :=
    (isNaN_eq_false_iff x).mp (isNaN_of_isFinite hFinite)
  have hSplit : withoutSign x = x.toBits.toNat % 2 ^ 63 := rfl
  have hOnes : unpackExponent (word x) ≠ -1#11 := by
    intro hOnes
    change (UnpackedFloat.unpack Format.binary64
      (word x)).isFinite = true at hFinite
    simp only [UnpackedFloat.unpack] at hFinite
    rw [if_pos hOnes] at hFinite
    split at hFinite <;> cases hFinite
  have hField : x.toBits.toNat / 2 ^ 52 % 2 ^ 11 ≠ 2047 := by
    rw [← toNat_word, ← toNat_unpackExponent]
    exact fun hNat => hOnes (BitVec.eq_of_toNat_eq hNat)
  omega

/- Only the zeros have no bits but the sign. -/
theorem withoutSign_pos
    (hNonzero : (x == 0) = false) : 0 < withoutSign x := by
  have hSplit : withoutSign x = x.toBits.toNat % 2 ^ 63 := rfl
  by_contra hNone
  rw [Bool.eq_false_iff, ne_eq, beq_zero_iff] at hNonzero
  apply hNonzero
  have hExponent : unpackExponent (word x) = 0#11 := by
    apply BitVec.eq_of_toNat_eq
    rw [toNat_unpackExponent, toNat_word]
    change _ = 0
    omega
  have hMantissa : unpackMantissa (word x) = 0#52 := by
    apply BitVec.eq_of_toNat_eq
    rw [toNat_unpackMantissa, toNat_word]
    change _ = 0
    omega
  refine ⟨Sign.ofBitVec (unpackSign (word x)), ?_⟩
  change UnpackedFloat.unpack Format.binary64 (word x) = _
  simp only [UnpackedFloat.unpack]
  rw [if_neg (by rw [hExponent]; decide), if_pos hExponent,
    dif_pos hMantissa]

end Binary64

end Spreadsheet
