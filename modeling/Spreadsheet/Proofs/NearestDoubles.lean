import Mathlib.Data.Nat.Dist
import Spreadsheet.Proofs.DoubleMagnitudes

/-
  The double nearest to a natural number. A natural number
  has just one nearest double, if ties go to the even
  significand and infinity counts as the power of two after
  the largest double, and it is the one that the number is
  converted to.

  Main declarations:
    * `Binary64.nearestQuotient_closest`
    * `Binary64.IsNearest`
    * `Binary64.isNearest_iff`
    * `Binary64.isNearest_ofNat_iff`
-/

namespace Spreadsheet

namespace Binary64

------------------------------------------------------------
-- Nearest Multiples
------------------------------------------------------------

section

variable {u : Nat}

/- How a quotient with a remainder is rounded. -/
theorem nearestQuotient_add
    {f : Nat}
    (m : Nat)
    (hf : f < u) :
    nearestQuotient (m * u + f) u =
      if 2 * f < u then m
      else if u < 2 * f then m + 1
      else m + m % 2 := by
  have hu : 0 < u := Nat.zero_lt_of_lt hf
  have hDiv : (m * u + f) / u = m := by
    rw [Nat.add_comm, Nat.add_mul_div_right _ _ hu,
      Nat.div_eq_of_lt hf, Nat.zero_add]
  have hMod : (m * u + f) % u = f := by
    rw [Nat.mul_add_mod_self_right, Nat.mod_eq_of_lt hf]
  simp only [nearestQuotient, hDiv, hMod]

/- So there are three ways to round. -/
theorem nearestQuotient_cases
    (n : Nat)
    (hu : 0 < u) :
    ∃ m f, n = m * u + f ∧ f < u
      ∧ (nearestQuotient n u = m ∧ 2 * f < u
        ∨ nearestQuotient n u = m + 1 ∧ u < 2 * f
        ∨ nearestQuotient n u = m + m % 2 ∧ 2 * f = u) := by
  have hf := Nat.mod_lt n hu
  have hRounded := nearestQuotient_add (n / u) hf
  rw [Nat.div_add_mod'] at hRounded
  refine ⟨n / u, n % u, (Nat.div_add_mod' n u).symm, hf, ?_⟩
  rw [hRounded]
  split
  · next hBelow => exact Or.inl ⟨rfl, hBelow⟩
  · split
    · next hAbove => exact Or.inr (Or.inl ⟨rfl, hAbove⟩)
    · exact Or.inr (Or.inr ⟨rfl, by omega⟩)

/-
  Another multiple is farther away, or it is as far and the
  rounded quotient is even.
-/
theorem nearestQuotient_closest
    {k : Nat}
    (n : Nat)
    (hu : 0 < u)
    (hk : k ≠ nearestQuotient n u) :
    Nat.dist (nearestQuotient n u * u) n < Nat.dist (k * u) n
    ∨ Nat.dist (nearestQuotient n u * u) n
          = Nat.dist (k * u) n
        ∧ nearestQuotient n u % 2 = 0 := by
  rcases nearestQuotient_cases n hu with
    ⟨m, f, rfl, hf, hCases⟩
  have hNext : (m + 1) * u = m * u + u := Nat.succ_mul m u
  have hk' :
      (k + 1) * u ≤ m * u ∨ k = m ∨ k = m + 1
        ∨ (m + 2) * u ≤ k * u := by
    rcases Nat.lt_trichotomy k m with hLess | hSame | hMore
    · exact Or.inl (Nat.mul_le_mul_right u hLess)
    · exact Or.inr (Or.inl hSame)
    · rcases Nat.lt_or_eq_of_le hMore with hMore | hSame
      · have hFar := Nat.mul_le_mul_right u hMore
        exact Or.inr (Or.inr (Or.inr hFar))
      · exact Or.inr (Or.inr (Or.inl hSame.symm))
  rw [Nat.succ_mul, Nat.add_mul] at hk'
  unfold Nat.dist
  rcases hCases with
    ⟨hFloor, hHalf⟩ | ⟨hCeil, hHalf⟩ | ⟨hTie, hHalf⟩
  · rw [hFloor] at hk ⊢
    rcases hk' with h | rfl | rfl | h <;> omega
  · rw [hCeil] at hk ⊢
    rcases hk' with h | rfl | rfl | h <;> omega
  · rcases Nat.mod_two_eq_zero_or_one m with hEven | hOdd
    · rw [hTie, hEven, Nat.add_zero] at hk ⊢
      rcases hk' with h | rfl | rfl | h <;> omega
    · rw [hTie, hOdd] at hk ⊢
      rcases hk' with h | rfl | rfl | h <;> omega

/- A quotient does not depend on the unit. -/
theorem nearestQuotient_mul_right
    {c : Nat}
    (num den : Nat)
    (hc : 0 < c) :
    nearestQuotient (num * c) (den * c) =
      nearestQuotient num den := by
  have hTwice :
      2 * (num % den * c) = 2 * (num % den) * c :=
    (Nat.mul_assoc _ _ _).symm
  simp only [nearestQuotient,
    Nat.mul_div_mul_right num den hc, Nat.mul_mod_mul_right,
    hTwice, Nat.mul_lt_mul_right hc]

/- A multiple is not changed. -/
theorem nearestQuotient_mul
    (m : Nat)
    (hu : 0 < u) : nearestQuotient (m * u) u = m := by
  have hRounded := nearestQuotient_add m hu
  rwa [Nat.add_zero, if_pos hu] at hRounded

end

------------------------------------------------------------
-- Nearest Doubles
------------------------------------------------------------

variable {n bits : Nat}
variable {x y : Float}

/- How far a double is from a natural number, in units. -/
def distance
    (x : Float)
    (n : Nat) : Nat :=
  Nat.dist (magnitude x) (n * unitsOfOne)

/-
  The double nearest to a natural number. No other double is
  closer, and if one is as close then the significand is
  even. Infinity counts as `2 ^ 1024`, so that what is at
  least halfway from the largest double to there overflows.
  Doubles are compared by magnitude, since a negative one is
  no closer than the positive one of its magnitude.
-/
structure IsNearest
    (x : Float)
    (n : Nat) : Prop where
  isNaN_eq_false : x.isNaN = false
  nonnegative : x.toBits.toNat < 2 ^ 63
  closest :
    ∀ y : Float, y.isNaN = false →
      distance x n ≤ distance y n
  even_of_tie :
    ∀ y : Float, y.isNaN = false →
      magnitude y ≠ magnitude x →
      distance y n = distance x n →
      (exact x).mantissa % 2 = 0

theorem magnitude_ofBits
    (h : bits ≤ infinityBits) :
    magnitude (Float.ofBits bits.toUInt64) =
      unitsAt bits := by
  have hInfinity : infinityBits = 2047 * 2 ^ 52 := rfl
  rw [magnitude_eq, toNat_toBits_ofBits h,
    Nat.mod_eq_of_lt (by omega)]

theorem isNaN_ofBits
    (h : bits ≤ infinityBits) :
    (Float.ofBits bits.toUInt64).isNaN = false := by
  have hInfinity : infinityBits = 2047 * 2 ^ 52 := rfl
  rw [isNaN_eq_false_iff, toNat_toBits_ofBits h,
    Nat.mod_eq_of_lt (by omega)]
  exact h

/- Bits of a nearest double are compared with all others. -/
theorem isNearest_ofBits
    (hBits : bits ≤ infinityBits)
    (h :
      ∀ c ≤ infinityBits, c ≠ bits →
        Nat.dist (unitsAt bits) (n * unitsOfOne)
            < Nat.dist (unitsAt c) (n * unitsOfOne)
        ∨ Nat.dist (unitsAt bits) (n * unitsOfOne)
              = Nat.dist (unitsAt c) (n * unitsOfOne)
            ∧ bits % 2 = 0) :
    IsNearest (Float.ofBits bits.toUInt64) n := by
  have hInfinity : infinityBits = 2047 * 2 ^ 52 := rfl
  constructor
  · exact isNaN_ofBits hBits
  · rw [toNat_toBits_ofBits hBits]
    omega
  · intro y hy
    rw [isNaN_eq_false_iff] at hy
    rw [distance, distance, magnitude_ofBits hBits,
      magnitude_eq]
    by_cases hSame : y.toBits.toNat % 2 ^ 63 = bits
    · rw [hSame]
    · rcases h _ hy hSame with hCloser | ⟨hTie, -⟩
      · exact hCloser.le
      · exact hTie.le
  · intro y hy hNe hTie
    rw [isNaN_eq_false_iff] at hy
    rw [distance, distance, magnitude_ofBits hBits,
      magnitude_eq] at hTie
    rw [magnitude_ofBits hBits, magnitude_eq] at hNe
    rw [even_mantissa, toNat_toBits_ofBits hBits]
    rcases h _ hy (fun hSame => hNe (congrArg unitsAt hSame))
      with hCloser | ⟨-, hEven⟩
    · exact absurd hTie hCloser.ne'
    · exact hEven

/-
  Of two nearest doubles none is less than the other. If one
  were then both would be even, and a double between them
  would be closer.
-/
theorem IsNearest.not_lt
    (hx : IsNearest x n)
    (hy : IsNearest y n) :
    ¬ x.toBits.toNat < y.toBits.toNat := by
  intro hLess
  have hInfinity : infinityBits = 2047 * 2 ^ 52 := rfl
  have hyMost := (isNaN_eq_false_iff y).mp hy.isNaN_eq_false
  have hxSame := Nat.mod_eq_of_lt hx.nonnegative
  have hySame := Nat.mod_eq_of_lt hy.nonnegative
  have hTie :=
    Nat.le_antisymm (hx.closest y hy.isNaN_eq_false)
      (hy.closest x hx.isNaN_eq_false)
  have hOrder : magnitude x < magnitude y := by
    rw [magnitude_eq, magnitude_eq, hxSame, hySame]
    exact strictMono_unitsAt hLess
  have hxEven :=
    hx.even_of_tie y hy.isNaN_eq_false hOrder.ne' hTie.symm
  have hyEven :=
    hy.even_of_tie x hx.isNaN_eq_false hOrder.ne hTie
  rw [even_mantissa] at hxEven hyEven
  have hBetween : x.toBits.toNat + 1 ≤ infinityBits := by
    omega
  have hAbove :
      magnitude x < unitsAt (x.toBits.toNat + 1) := by
    rw [magnitude_eq, hxSame]
    exact strictMono_unitsAt (Nat.lt_succ_self _)
  have hBelow :
      unitsAt (x.toBits.toNat + 1) < magnitude y := by
    rw [magnitude_eq, hySame]
    exact strictMono_unitsAt (by omega)
  have hCloser := hx.closest _ (isNaN_ofBits hBetween)
  rw [distance, distance, magnitude_ofBits hBetween]
    at hCloser
  rw [distance, distance] at hTie
  unfold Nat.dist at hTie hCloser
  omega

theorem IsNearest.unique
    (hx : IsNearest x n)
    (hy : IsNearest y n) : x = y := by
  apply eq_of_toBits_eq
  apply UInt64.toNat_inj.mp
  have hNotLess := hx.not_lt hy
  have hNotMore := hy.not_lt hx
  omega

------------------------------------------------------------
-- Converting Natural Numbers
------------------------------------------------------------

theorem two_pow_mul_two_pow
    {a b c d : Nat}
    (h : a + b = c + d) : 2 ^ a * 2 ^ b = 2 ^ c * 2 ^ d := by
  rw [← Nat.pow_add, ← Nat.pow_add, h]

/- A positive number has a leading bit in its unit. -/
theorem unitExponent_one
    (hn : n ≠ 0) :
    unitExponent n 1 = (n.log2 : Int) - 52 := by
  have hOne : Nat.log2 1 = 0 := rfl
  have hFirst :
      max ((n.log2 : Int) - (0 : Nat) - (53 : Nat)) (-1074) =
        (n.log2 : Int) - 53 := by
    omega
  have hLeast := Nat.log2_self_le hn
  generalize hq : (n.log2 : Int) - 53 = q at hFirst
  have hSplit : 53 + q.toNat = n.log2 + (-q).toNat := by
    omega
  have hMany :
      2 ^ 53 ≤ n * 2 ^ (-q).toNat / 2 ^ q.toNat := by
    rw [Nat.le_div_iff_mul_le (Nat.two_pow_pos _),
      two_pow_mul_two_pow hSplit]
    exact Nat.mul_le_mul_right _ hLeast
  simp only [unitExponent, precision, leastExponent, hOne,
    hFirst, scaled, Nat.pow_eq, Nat.one_mul]
  rw [if_pos hMany]
  omega

/- The unit of the double nearest to a positive number. -/
def unitOf
    (n : Nat) : Nat :=
  2 ^ (n.log2 + 1022)

/- Its significand, before it is carried over. -/
def significandOf
    (n : Nat) : Nat :=
  nearestQuotient (n * unitsOfOne) (unitOf n)

theorem unitOf_pos
    (n : Nat) : 0 < unitOf n :=
  Nat.two_pow_pos _

theorem unitsOfOne_pos : 0 < unitsOfOne :=
  Nat.two_pow_pos _

theorem unitOf_bounds
    (hn : n ≠ 0) :
    2 ^ 52 * unitOf n ≤ n * unitsOfOne
      ∧ n * unitsOfOne < 2 ^ 53 * unitOf n := by
  have hOne : (-leastExponent).toNat = 1074 := rfl
  unfold unitOf unitsOfOne
  generalize (-leastExponent).toNat = one at hOne
  constructor
  · have hLow : 52 + (n.log2 + 1022) = n.log2 + one := by
      omega
    rw [two_pow_mul_two_pow hLow]
    exact Nat.mul_le_mul_right _ (Nat.log2_self_le hn)
  · have hHigh :
        53 + (n.log2 + 1022) = n.log2 + 1 + one := by
      omega
    rw [two_pow_mul_two_pow hHigh]
    exact Nat.mul_lt_mul_of_pos_right Nat.lt_log2_self
      (Nat.two_pow_pos _)

theorem significandOf_bounds
    (hn : n ≠ 0) :
    2 ^ 52 ≤ significandOf n ∧ significandOf n ≤ 2 ^ 53 := by
  rcases unitOf_bounds hn with ⟨hLeast, hMost⟩
  unfold significandOf
  rcases nearestQuotient_cases
      (n * unitsOfOne) (unitOf_pos n) with
    ⟨m, f, hSplit, hf, hCases⟩
  rw [hSplit] at hLeast hMost
  have hLow : 2 ^ 52 < m + 1 := by
    apply Nat.lt_of_mul_lt_mul_right (a := unitOf n)
    rw [Nat.succ_mul]
    omega
  have hHigh : m < 2 ^ 53 := by
    apply Nat.lt_of_mul_lt_mul_right (a := unitOf n)
    omega
  omega

/- They are the ones that the conversion finds. -/
theorem nearestQuotient_scaled
    (hn : n ≠ 0) :
    nearestQuotient
        (scaled n 1 (unitExponent n 1)).1
        (scaled n 1 (unitExponent n 1)).2 =
      significandOf n := by
  have hOne : (-leastExponent).toNat = 1074 := rfl
  unfold significandOf unitOf unitsOfOne
  rw [unitExponent_one hn]
  generalize (-leastExponent).toNat = one at hOne
  simp only [scaled, Nat.pow_eq, Nat.one_mul]
  generalize hq : (n.log2 : Int) - 52 = q
  obtain ⟨c, hc⟩ : ∃ c, (-q).toNat + c = one :=
    ⟨1074 - (-q).toNat, by omega⟩
  have hUnit : n.log2 + 1022 = q.toNat + c := by omega
  rw [← hc, hUnit, Nat.pow_add, Nat.pow_add, ← Nat.mul_assoc,
    nearestQuotient_mul_right _ _ (Nat.two_pow_pos c)]

theorem ofNat_zero :
    ofNat 0 = Float.ofBits (0 : Nat).toUInt64 := by
  decide

theorem ofNat_eq
    (hn : n ≠ 0) :
    ofNat n =
      Float.ofBits
        (min ((n.log2 + 1022) * 2 ^ 52 + significandOf n)
          infinityBits).toUInt64 := by
  have hField :
      (unitExponent n 1 - leastExponent).toNat =
        n.log2 + 1022 := by
    rw [unitExponent_one hn, leastExponent]
    omega
  rw [ofNat, ofRatio, if_neg hn]
  dsimp only
  rw [nearestQuotient_scaled hn, bitsOf, hField]
  rfl

/- The exponent of the power of two after all doubles. -/
def infinityExponent : Nat := 1024

/- The number that infinity counts as. -/
def infinityValue : Nat :=
  2 ^ infinityExponent

theorem infinityValue_le_iff
    (hn : n ≠ 0) :
    infinityValue ≤ n ↔ infinityExponent ≤ n.log2 :=
  (Nat.le_log2 hn).symm

theorem unitsAt_infinityBits :
    unitsAt infinityBits = infinityValue * unitsOfOne := by
  have hInfinity : infinityBits = 2046 * 2 ^ 52 + 2 ^ 52 :=
    rfl
  rw [hInfinity,
    unitsAt_significand 2046 le_rfl (by decide),
    infinityValue, unitsOfOne]
  exact two_pow_mul_two_pow rfl

/- A number from there on is nearest to infinity. -/
theorem closest_infinity
    {c : Nat}
    (hn : infinityValue ≤ n)
    (hc : c ≤ infinityBits)
    (hNe : c ≠ infinityBits) :
    Nat.dist (unitsAt infinityBits) (n * unitsOfOne)
      < Nat.dist (unitsAt c) (n * unitsOfOne) := by
  have hLess : unitsAt c < unitsAt infinityBits :=
    strictMono_unitsAt (Nat.lt_of_le_of_ne hc hNe)
  have hLeast : unitsAt infinityBits ≤ n * unitsOfOne := by
    rw [unitsAt_infinityBits]
    exact Nat.mul_le_mul_right _ hn
  unfold Nat.dist
  omega

/-
  Other numbers are nearest to the rounded significand. The
  doubles from its least value on are multiples of its unit,
  and those before that value are farther away than it.
-/
theorem closest_significand
    {c : Nat}
    (hn : n ≠ 0)
    (hBits :
      bits = (n.log2 + 1022) * 2 ^ 52 + significandOf n)
    (hNe : c ≠ bits) :
    Nat.dist (unitsAt bits) (n * unitsOfOne)
        < Nat.dist (unitsAt c) (n * unitsOfOne)
    ∨ Nat.dist (unitsAt bits) (n * unitsOfOne)
          = Nat.dist (unitsAt c) (n * unitsOfOne)
        ∧ bits % 2 = 0 := by
  rcases significandOf_bounds hn with ⟨hLeast, hMost⟩
  have hUnits : unitsAt bits = significandOf n * unitOf n := by
    rw [hBits]
    exact unitsAt_significand _ hLeast hMost
  have hClosest {k : Nat} (hk : k ≠ significandOf n) :
      Nat.dist (significandOf n * unitOf n) (n * unitsOfOne)
          < Nat.dist (k * unitOf n) (n * unitsOfOne)
      ∨ Nat.dist (significandOf n * unitOf n) (n * unitsOfOne)
            = Nat.dist (k * unitOf n) (n * unitsOfOne)
          ∧ significandOf n % 2 = 0 :=
    nearestQuotient_closest _ (unitOf_pos n) hk
  rw [hUnits]
  rcases Nat.lt_or_ge c ((n.log2 + 1022) * 2 ^ 52 + 2 ^ 52)
    with hBelow | hAbove
  · have hLow := (unitOf_bounds hn).1
    have hLess : unitsAt c < 2 ^ 52 * unitOf n := by
      rw [unitOf, ← unitsAt_significand _ le_rfl (by decide)]
      exact strictMono_unitsAt hBelow
    left
    by_cases hSame : 2 ^ 52 = significandOf n
    · rw [← hSame]
      unfold Nat.dist
      omega
    · have hCloser := hClosest hSame
      unfold Nat.dist at hCloser ⊢
      omega
  · rcases two_pow_dvd_unitsAt hAbove with ⟨k, hk⟩
    have hMultiple : unitsAt c = k * unitOf n :=
      hk.trans (Nat.mul_comm _ _)
    have hOther : k ≠ significandOf n := by
      intro hSame
      rw [hSame, ← hUnits] at hMultiple
      exact hNe (strictMono_unitsAt.injective hMultiple)
    rw [hMultiple]
    refine (hClosest hOther).imp_right fun hTie =>
      ⟨hTie.1, ?_⟩
    omega

/- So a number is converted to the double nearest to it. -/
theorem isNearest_ofNat
    (n : Nat) : IsNearest (ofNat n) n := by
  rcases Nat.eq_zero_or_pos n with rfl | hPos
  · rw [ofNat_zero]
    apply isNearest_ofBits (Nat.zero_le _)
    intro c _ hNe
    have hZero : unitsAt 0 = 0 := unitsAt_of_lt (by decide)
    have hLess : unitsAt 0 < unitsAt c :=
      strictMono_unitsAt (Nat.pos_of_ne_zero hNe)
    left
    unfold Nat.dist
    omega
  · have hInfinity : infinityBits = 2047 * 2 ^ 52 := rfl
    have hExponent : infinityExponent = 1024 := rfl
    have hBounds := significandOf_bounds hPos.ne'
    rw [ofNat_eq hPos.ne']
    rcases Nat.lt_or_ge n.log2 infinityExponent with
      hLess | hLarge
    · rw [Nat.min_eq_left (by omega)]
      exact isNearest_ofBits (by omega) fun c _ =>
        closest_significand hPos.ne' rfl
    · rw [Nat.min_eq_right (by omega)]
      have hValue := (infinityValue_le_iff hPos.ne').mpr hLarge
      exact isNearest_ofBits le_rfl fun c hc hNe =>
        Or.inl (closest_infinity hValue hc hNe)

theorem isNearest_iff : IsNearest x n ↔ x = ofNat n :=
  ⟨fun h => h.unique (isNearest_ofNat n),
    fun h => h ▸ isNearest_ofNat n⟩

------------------------------------------------------------
-- Rounded Numbers
------------------------------------------------------------

/- Rounding to a natural number finds the same significand. -/
theorem roundNat_mul_unitsOfOne
    (n : Nat) :
    roundNat n * unitsOfOne = significandOf n * unitOf n := by
  have hOne : (-leastExponent).toNat = 1074 := rfl
  unfold roundNat significandOf unitOf unitsOfOne precision
  generalize (-leastExponent).toNat = one at hOne
  simp only [Nat.pow_eq]
  rcases Nat.lt_or_ge n.log2 52 with hSmall | hLarge
  · have hSplit :
        (52 - n.log2) + (n.log2 + 1022) = one := by
      omega
    have hSame := nearestQuotient_mul n Nat.one_pos
    rw [Nat.mul_one] at hSame
    rw [Nat.sub_eq_zero_of_le (by omega), ← hSplit,
      Nat.pow_zero, hSame, Nat.pow_add, Nat.mul_one,
      ← Nat.mul_assoc, nearestQuotient_mul _ (Nat.two_pow_pos _)]
  · have hUnit :
        n.log2 + 1022 = n.log2 + 1 - 53 + one := by
      omega
    rw [hUnit, Nat.pow_add,
      nearestQuotient_mul_right _ _ (Nat.two_pow_pos _),
      Nat.mul_assoc]

theorem roundNat_bounds
    (hn : n ≠ 0) :
    2 ^ n.log2 ≤ roundNat n
      ∧ roundNat n ≤ 2 ^ (n.log2 + 1) := by
  have hOne : (-leastExponent).toNat = 1074 := rfl
  have hUnits := roundNat_mul_unitsOfOne n
  rcases significandOf_bounds hn with ⟨hLeast, hMost⟩
  constructor
  · have hLow :
        n.log2 + (-leastExponent).toNat =
          52 + (n.log2 + 1022) := by
      omega
    apply Nat.le_of_mul_le_mul_right _ unitsOfOne_pos
    rw [hUnits, unitsOfOne, two_pow_mul_two_pow hLow]
    exact Nat.mul_le_mul_right _ hLeast
  · have hHigh :
        n.log2 + 1 + (-leastExponent).toNat =
          53 + (n.log2 + 1022) := by
      omega
    apply Nat.le_of_mul_le_mul_right _ unitsOfOne_pos
    rw [hUnits, unitsOfOne, two_pow_mul_two_pow hHigh]
    exact Nat.mul_le_mul_right _ hMost

/- The double counts as that number, up to infinity. -/
theorem magnitude_ofNat
    (n : Nat) :
    magnitude (ofNat n) =
      min (roundNat n) infinityValue * unitsOfOne := by
  rcases Nat.eq_zero_or_pos n with rfl | hPos
  · have hZero : roundNat 0 = 0 := by decide
    rw [ofNat_zero, magnitude_ofBits (Nat.zero_le _),
      unitsAt_of_lt (by decide), hZero, Nat.zero_min,
      Nat.zero_mul]
  · have hInfinity : infinityBits = 2047 * 2 ^ 52 := rfl
    have hExponent : infinityExponent = 1024 := rfl
    rcases significandOf_bounds hPos.ne' with ⟨hLeast, hMost⟩
    rcases roundNat_bounds hPos.ne' with ⟨hLow, hHigh⟩
    rw [ofNat_eq hPos.ne',
      magnitude_ofBits (Nat.min_le_right _ _)]
    rcases Nat.lt_or_ge n.log2 infinityExponent with
      hLess | hLarge
    · have hValue : roundNat n ≤ infinityValue :=
        hHigh.trans (Nat.pow_le_pow_right (by decide) hLess)
      rw [Nat.min_eq_left (by omega), Nat.min_eq_left hValue,
        unitsAt_significand _ hLeast hMost,
        roundNat_mul_unitsOfOne]
      rfl
    · have hValue : infinityValue ≤ roundNat n :=
        (Nat.pow_le_pow_right (by decide) hLarge).trans hLow
      rw [Nat.min_eq_right (by omega),
        Nat.min_eq_right hValue, unitsAt_infinityBits]

/-
  So a number may be converted in place of another just in
  case both are rounded to the same, up to infinity.
-/
theorem isNearest_ofNat_iff
    {m : Nat} :
    IsNearest (ofNat m) n ↔
      min (roundNat m) infinityValue =
        min (roundNat n) infinityValue := by
  have hm := isNearest_ofNat m
  have hn := isNearest_ofNat n
  rw [isNearest_iff]
  constructor
  · intro hSame
    apply Nat.eq_of_mul_eq_mul_right unitsOfOne_pos
    rw [← magnitude_ofNat, ← magnitude_ofNat, hSame]
  · intro hSame
    have hMagnitude :
        magnitude (ofNat m) = magnitude (ofNat n) := by
      rw [magnitude_ofNat, magnitude_ofNat, hSame]
    rw [magnitude_eq, magnitude_eq,
      Nat.mod_eq_of_lt hm.nonnegative,
      Nat.mod_eq_of_lt hn.nonnegative] at hMagnitude
    apply eq_of_toBits_eq
    apply UInt64.toNat_inj.mp
    exact strictMono_unitsAt.injective hMagnitude

end Binary64

end Spreadsheet
