import Mathlib
import Spreadsheet.Number.Binary64

/-
  The bits of a double and its magnitude. The bits are those
  that the double was made from, unless they are NaN, and
  the doubles that are not NaN are in the order of their
  bits without the sign.

  Main declarations:
    * `Binary64.toBits_ofBits`
    * `Binary64.magnitude`
    * `Binary64.strictMono_unitsAt`
-/

namespace Spreadsheet

open Float.Model Float.Model.UnpackedFloat

namespace Binary64

/- The parts of a double. -/
def parts
    (x : Float) : UnpackedFloat :=
  x.toModel.unpack

------------------------------------------------------------
-- Bits
------------------------------------------------------------

theorem toNat_unpackExponent
    (b : BitVec Format.binary64.numBits) :
    (unpackExponent b).toNat = b.toNat / 2 ^ 52 % 2 ^ 11 := by
  simp [unpackExponent, Nat.shiftRight_eq_div_pow]

theorem toNat_unpackMantissa
    (b : BitVec Format.binary64.numBits) :
    (unpackMantissa b).toNat = b.toNat % 2 ^ 52 := by
  simp [unpackMantissa]

theorem toNat_unpackSign
    (b : BitVec Format.binary64.numBits) :
    (unpackSign b).toNat = b.toNat / 2 ^ 63 := by
  have hb : b.toNat < 2 ^ 64 := b.isLt
  simp only [unpackSign, BitVec.toNat_cast,
    BitVec.extractLsb_toNat, Nat.shiftRight_eq_div_pow]
  change b.toNat / 2 ^ 63 % 2 = _
  omega

theorem toBitVec_ofBitVec
    (s : BitVec 1) : (Sign.ofBitVec s).toBitVec = s := by
  revert s
  decide

/- The three fields are next to each other. -/
theorem toNat_packComponents
    (s : Sign)
    (field : BitVec 11)
    (fraction : BitVec 52) :
    (packComponents Format.binary64 s field fraction).toNat =
      s.toBitVec.toNat * 2 ^ 63 + field.toNat * 2 ^ 52
        + fraction.toNat := by
  change (s.toBitVec ++ field ++ fraction).toNat = _
  rw [BitVec.toNat_append, BitVec.toNat_append,
    ← Nat.shiftLeft_add_eq_or_of_lt fraction.isLt,
    ← Nat.shiftLeft_add_eq_or_of_lt field.isLt,
    Nat.shiftLeft_eq, Nat.shiftLeft_eq]
  omega

theorem packComponents_unpack
    (b : BitVec Format.binary64.numBits) :
    packComponents Format.binary64
        (Sign.ofBitVec (unpackSign b)) (unpackExponent b)
        (unpackMantissa b) = b := by
  have hb : b.toNat < 2 ^ 64 := b.isLt
  apply BitVec.eq_of_toNat_eq
  rw [toNat_packComponents, toBitVec_ofBitVec,
    toNat_unpackSign, toNat_unpackExponent,
    toNat_unpackMantissa]
  omega

/- A significand with its leading bit. -/
theorem toNat_leadingBit
    (fraction : BitVec 52) :
    (1#1 ++ fraction).toNat = 2 ^ 52 + fraction.toNat := by
  rw [BitVec.toNat_append,
    ← Nat.shiftLeft_add_eq_or_of_lt fraction.isLt]
  rfl

theorem pack_subnormal
    {s : Sign}
    {fraction : BitVec 52}
    {e : Int}
    (hm : 0 < fraction.toNat)
    (he : e = -1074) :
    UnpackedFloat.pack Format.binary64
        (.finite s fraction.toNat e hm) =
      packComponents Format.binary64 s 0#11 fraction := by
  have hBias : Format.binary64.exponentBias = 1023 := rfl
  have hWidth : Format.binary64.mantissaBits = 53 := rfl
  have hLog :=
    (Nat.log2_lt hm.ne').mpr fraction.isLt
  simp only [UnpackedFloat.pack, hBias, hWidth, he]
  rw [if_neg (by decide), if_neg (by omega),
    BitVec.ofNat_toNat, BitVec.setWidth_eq]

theorem pack_normal
    {s : Sign}
    {field : BitVec 11}
    {fraction : BitVec 52}
    {e : Int}
    (hm : 0 < (1#1 ++ fraction).toNat)
    (he : e = field.toNat - 1075)
    (hOnes : field.toNat ≠ 2047) :
    UnpackedFloat.pack Format.binary64
        (.finite s (1#1 ++ fraction).toNat e hm) =
      packComponents Format.binary64 s field fraction := by
  have hBias : Format.binary64.exponentBias = 1023 := rfl
  have hWidth : Format.binary64.mantissaBits = 53 := rfl
  have hField : field.toNat < 2 ^ 11 := field.isLt
  have hFractionLt : fraction.toNat < 2 ^ 52 := fraction.isLt
  have hLog : (2 ^ 52 + fraction.toNat).log2 = 52 := by
    rw [Nat.log2_eq_iff (by omega)]
    omega
  have hFraction :
      BitVec.ofNat 52 (2 ^ 52 + fraction.toNat) =
        fraction := by
    apply BitVec.eq_of_toNat_eq
    rw [BitVec.toNat_ofNat]
    omega
  have hBiased :
      (e + (1023 : Nat) + (52 : Nat)).toNat =
        field.toNat := by
    omega
  simp only [UnpackedFloat.pack, hBias, hWidth,
    toNat_leadingBit, hLog, hBiased]
  rw [if_neg (by omega), if_pos trivial, hFraction,
    BitVec.ofNat_toNat, BitVec.setWidth_eq]

/- Bits are kept, unless they are those of a NaN. -/
theorem pack_unpack
    {b : BitVec Format.binary64.numBits}
    (hNumber :
      unpackExponent b = -1#11 →
        unpackMantissa b = 0#52) :
    UnpackedFloat.pack Format.binary64
        (UnpackedFloat.unpack Format.binary64 b) = b := by
  have hParts := packComponents_unpack b
  simp only [UnpackedFloat.unpack]
  split
  · next hOnes =>
      rw [if_pos (hNumber hOnes)]
      rw [hNumber hOnes, hOnes] at hParts
      exact hParts
  · next hOnes =>
      split
      · next hZero =>
          rw [hZero] at hParts ⊢
          split
          · next hNone =>
              rw [hNone] at hParts
              exact hParts
          · exact (pack_subnormal _ rfl).trans hParts
      · have hMost : (unpackExponent b).toNat ≠ 2047 :=
          fun hNat => hOnes (BitVec.eq_of_toNat_eq hNat)
        refine (pack_normal _ ?_ hMost).trans hParts
        rfl

/-
  Only NaN has both the largest exponent field and a
  fraction.
-/
theorem fraction_of_ones_iff
    (b : BitVec Format.binary64.numBits) :
    (unpackExponent b = -1#11 → unpackMantissa b = 0#52) ↔
      b.toNat % 2 ^ 63 ≤ infinityBits := by
  have hInfinity : infinityBits = 2047 * 2 ^ 52 := rfl
  have hOnes :
      unpackExponent b = -1#11 ↔
        b.toNat / 2 ^ 52 % 2 ^ 11 = 2047 := by
    rw [← toNat_unpackExponent]
    exact ⟨fun h => h ▸ rfl, fun h => BitVec.eq_of_toNat_eq h⟩
  have hZero :
      unpackMantissa b = 0#52 ↔ b.toNat % 2 ^ 52 = 0 := by
    rw [← toNat_unpackMantissa]
    exact ⟨fun h => h ▸ rfl, fun h => BitVec.eq_of_toNat_eq h⟩
  rw [hOnes, hZero]
  omega

theorem isNaN_unpack
    (b : BitVec Format.binary64.numBits) :
    (UnpackedFloat.unpack Format.binary64 b).isNaN = false ↔
      (unpackExponent b = -1#11 →
        unpackMantissa b = 0#52) := by
  simp only [UnpackedFloat.unpack]
  split
  · next hOnes =>
      split
      · next hNone => exact iff_of_true rfl fun _ => hNone
      · next hSome =>
          exact iff_of_false nofun fun h => hSome (h hOnes)
  · next hOnes =>
      refine iff_of_true ?_ fun h => absurd h hOnes
      split
      · split <;> rfl
      · rfl

/- What is not NaN has bits up to those of infinity. -/
theorem isNaN_eq_false_iff
    (x : Float) :
    x.isNaN = false ↔
      x.toBits.toNat % 2 ^ 63 ≤ infinityBits :=
  (isNaN_unpack x.toBits.toBitVec).trans
    (fraction_of_ones_iff x.toBits.toBitVec)

/- So a double is told from its bits. -/
theorem toBits_ofBits
    {bits : UInt64}
    (hNumber : bits.toNat % 2 ^ 63 ≤ infinityBits) :
    (Float.ofBits bits).toBits = bits := by
  apply UInt64.toBitVec_inj.mp
  exact pack_unpack ((fraction_of_ones_iff _).mpr hNumber)

theorem eq_of_toBits_eq
    {x y : Float}
    (h : x.toBits = y.toBits) : x = y := by
  rcases x with ⟨⟨bits, hValid⟩⟩
  rcases y with ⟨⟨bits', hValid'⟩⟩
  cases (h : bits = bits')
  rfl

/- The bits of doubles that are made from natural numbers. -/
theorem toNat_toBits_ofBits
    {n : Nat}
    (hn : n ≤ infinityBits) :
    (Float.ofBits n.toUInt64).toBits.toNat = n := by
  have hInfinity : infinityBits = 2047 * 2 ^ 52 := rfl
  have hSame : n.toUInt64.toNat = n := by
    rw [Nat.toUInt64, UInt64.toNat_ofNat']
    exact Nat.mod_eq_of_lt (by omega)
  rw [toBits_ofBits (by omega), hSame]

------------------------------------------------------------
-- Magnitudes
------------------------------------------------------------

/- How many of the least positive doubles make one. -/
def unitsOfOne : Nat :=
  2 ^ (-leastExponent).toNat

/-
  The magnitude of a double that is not NaN, in units of the
  least positive double. Infinity counts as the power of two
  that is next to the largest double.
-/
def magnitude
    (x : Float) : Nat :=
  (exact x).mantissa
    * 2 ^ ((exact x).exponent - leastExponent).toNat

/- The magnitude that bits without a sign stand for. -/
def unitsAt
    (bits : Nat) : Nat :=
  if bits < 2 ^ 52 then bits
  else (2 ^ 52 + bits % 2 ^ 52) * 2 ^ (bits / 2 ^ 52 - 1)

theorem unitsAt_of_lt
    {bits : Nat}
    (h : bits < 2 ^ 52) : unitsAt bits = bits :=
  if_pos h

theorem magnitude_eq
    (x : Float) :
    magnitude x = unitsAt (x.toBits.toNat % 2 ^ 63) := by
  have hField :
      x.toBits.toNat / 2 ^ 52 % 2 ^ 11 =
        x.toBits.toNat % 2 ^ 63 / 2 ^ 52 := by
    omega
  have hFraction :
      x.toBits.toNat % 2 ^ 52 =
        x.toBits.toNat % 2 ^ 63 % 2 ^ 52 := by
    omega
  simp only [magnitude, exact, Nat.pow_eq, hField, hFraction]
  generalize x.toBits.toNat % 2 ^ 63 = bits
  unfold unitsAt
  split
  · next hZero =>
      rw [if_pos (by omega), Int.sub_self]
      simp only [Int.toNat_zero, Nat.pow_zero, Nat.mul_one]
      omega
  · next hZero =>
      rw [if_neg (by omega), Int.add_comm,
        Int.add_sub_cancel, Int.toNat_natCast]

/- A significand is even if the bits are. -/
theorem even_mantissa
    (x : Float) :
    (exact x).mantissa % 2 = x.toBits.toNat % 2 := by
  simp only [exact, Nat.pow_eq]
  split <;> dsimp only <;> omega

/-
  A significand may be counted in its unit before it is
  carried into the exponent.
-/
theorem unitsAt_significand
    {m : Nat}
    (k : Nat)
    (hLeast : 2 ^ 52 ≤ m)
    (hMost : m ≤ 2 ^ 53) :
    unitsAt (k * 2 ^ 52 + m) = m * 2 ^ k := by
  unfold unitsAt
  rw [if_neg (by omega)]
  rcases Nat.lt_or_eq_of_le hMost with hLt | rfl
  · have hFraction :
        (k * 2 ^ 52 + m) % 2 ^ 52 = m - 2 ^ 52 := by
      omega
    have hField : (k * 2 ^ 52 + m) / 2 ^ 52 = k + 1 := by
      omega
    rw [hFraction, hField, Nat.add_sub_cancel,
      Nat.add_sub_of_le hLeast]
  · have hFraction : (k * 2 ^ 52 + 2 ^ 53) % 2 ^ 52 = 0 := by
      omega
    have hField : (k * 2 ^ 52 + 2 ^ 53) / 2 ^ 52 = k + 2 := by
      omega
    have hUnit : 52 + (k + 2 - 1) = 53 + k := by omega
    rw [hFraction, hField, Nat.add_zero, ← Nat.pow_add,
      ← Nat.pow_add, hUnit]

/- One bit more is one unit more. -/
theorem unitsAt_succ
    (bits : Nat) :
    unitsAt (bits + 1) =
      unitsAt bits + 2 ^ (bits / 2 ^ 52 - 1) := by
  rcases Nat.lt_or_ge bits (2 ^ 52) with hLt | hGe
  · have hUnit : bits / 2 ^ 52 - 1 = 0 := by omega
    have hLeast : unitsAt (2 ^ 52) = 2 ^ 52 * 2 ^ 0 := by
      rw [← unitsAt_significand 0 le_rfl (by decide),
        Nat.zero_mul, Nat.zero_add]
    rw [hUnit, unitsAt_of_lt hLt]
    rcases Nat.lt_or_eq_of_le (Nat.succ_le_of_lt hLt) with
      hNext | hLast
    · exact unitsAt_of_lt hNext
    · rw [Nat.succ_eq_add_one] at hLast
      rw [hLast, hLeast]
      omega
  · generalize hk : bits / 2 ^ 52 - 1 = k
    have hBits :
        bits = k * 2 ^ 52 + (2 ^ 52 + bits % 2 ^ 52) := by
      omega
    generalize 2 ^ 52 + bits % 2 ^ 52 = m at *
    have hm : 2 ^ 52 ≤ m ∧ m + 1 ≤ 2 ^ 53 := by omega
    rw [hBits, Nat.add_assoc,
      unitsAt_significand k (by omega) hm.2,
      unitsAt_significand k hm.1 (by omega), Nat.succ_mul]

/- So the order of magnitudes is the order of bits. -/
theorem strictMono_unitsAt : StrictMono unitsAt :=
  strictMono_nat_of_lt_succ fun bits => by
    rw [unitsAt_succ]
    exact Nat.lt_add_of_pos_right (Nat.two_pow_pos _)

/- From a unit on magnitudes are multiples of the unit. -/
theorem two_pow_dvd_unitsAt
    {k bits : Nat}
    (h : k * 2 ^ 52 + 2 ^ 52 ≤ bits) :
    2 ^ k ∣ unitsAt bits := by
  unfold unitsAt
  rw [if_neg (by omega)]
  exact Dvd.dvd.mul_left (Nat.pow_dvd_pow 2 (by omega)) _

end Binary64

end Spreadsheet
