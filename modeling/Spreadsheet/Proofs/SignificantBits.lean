import Mathlib.Tactic.Ring
import Spreadsheet.Proofs.NearestDoubles

/-
  Rounding a natural number to fifty-three significant bits
  when more bits follow. Bits that follow the rounded number
  change nothing, and bits that follow the number itself are
  only missed if it lies halfway between two neighbours and
  was rounded down.

  Main declarations:
    * `Binary64.IsLong`
    * `Binary64.IsFull.roundNat_add`
    * `Binary64.IsLowTie`
    * `Binary64.roundNat_append`
    * `Binary64.min_roundNat_lowTie`
-/

namespace Spreadsheet

namespace Binary64

variable {n m e f k j r : Nat}

/- Bits at the end do not change where the first bit is. -/
theorem log2_mul_two_pow_add
    (hn : n ≠ 0)
    (hf : f < 2 ^ e) :
    (n * 2 ^ e + f).log2 = n.log2 + e := by
  have hUnit := Nat.two_pow_pos e
  have hLow :=
    Nat.mul_le_mul_right (2 ^ e) (Nat.log2_self_le hn)
  have hHigh :=
    Nat.mul_le_mul_right (2 ^ e)
      (Nat.succ_le_of_lt (Nat.lt_log2_self (n := n)))
  have hPos := Nat.mul_pos (Nat.pos_of_ne_zero hn) hUnit
  rw [Nat.succ_mul] at hHigh
  rw [Nat.log2_eq_iff (by omega), Nat.add_right_comm,
    Nat.pow_add, Nat.pow_add 2 (n.log2 + 1)]
  omega

------------------------------------------------------------
-- Short Numbers
------------------------------------------------------------

/- A number of fifty-three bits is kept, zeros after it too. -/
theorem roundNat_mul_two_pow
    (hn : n < 2 ^ 53)
    (k : Nat) : roundNat (n * 2 ^ k) = n * 2 ^ k := by
  rcases Nat.eq_zero_or_pos n with rfl | hPos
  · rw [Nat.zero_mul]
    decide
  · have hLog : (n * 2 ^ k).log2 = n.log2 + k :=
      log2_mul_two_pow_add hPos.ne' (Nat.two_pow_pos k)
    have hBits := (Nat.log2_lt hPos.ne').mpr hn
    obtain ⟨t, ht⟩ : ∃ t, t = n.log2 + k + 1 - precision :=
      ⟨_, rfl⟩
    have hSplit : k = k - t + t := by
      unfold precision at ht
      omega
    simp only [roundNat, hLog, ← ht, Nat.pow_eq]
    rw [hSplit, Nat.pow_add, ← Nat.mul_assoc,
      nearestQuotient_mul _ (Nat.two_pow_pos t)]

theorem roundNat_of_lt
    (hn : n < 2 ^ 53) : roundNat n = n := by
  have hSame := roundNat_mul_two_pow hn 0
  rwa [Nat.pow_zero, Nat.mul_one] at hSame

------------------------------------------------------------
-- Long Numbers
------------------------------------------------------------

/-
  A number of more than fifty-three bits, with the first
  fifty-three of them, how many bits follow, and the number
  that those denote.
-/
structure IsLong
    (n m e f : Nat) : Prop where
  eq : n = m * 2 ^ e + f
  rest_lt : f < 2 ^ e
  longer : 1 ≤ e
  least : 2 ^ 52 ≤ m
  most : m < 2 ^ 53

theorem log2_significand
    (hLeast : 2 ^ 52 ≤ m)
    (hMost : m < 2 ^ 53)
    (hf : f < 2 ^ e) : (m * 2 ^ e + f).log2 = 52 + e := by
  have hNe : m ≠ 0 := by omega
  have hLog : m.log2 = 52 :=
    (Nat.log2_eq_iff hNe).mpr ⟨hLeast, hMost⟩
  rw [log2_mul_two_pow_add hNe hf, hLog]

theorem exists_isLong
    (hn : 2 ^ 53 ≤ n) : ∃ m e f, IsLong n m e f := by
  have hNe : n ≠ 0 := by omega
  have hLog : 53 ≤ n.log2 := (Nat.le_log2 hNe).mpr hn
  have hLow := Nat.log2_self_le hNe
  have hHigh : n < 2 ^ (n.log2 + 1) := Nat.lt_log2_self
  obtain ⟨e, he⟩ : ∃ e, n.log2 = 52 + e :=
    ⟨n.log2 - 52, by omega⟩
  have hNext : 52 + e + 1 = 53 + e := by omega
  have hUnit := Nat.two_pow_pos e
  rw [he] at hLow hHigh hLog
  rw [hNext] at hHigh
  rw [Nat.pow_add] at hLow hHigh
  refine ⟨n / 2 ^ e, e, n % 2 ^ e, ?_⟩
  constructor
  · exact (Nat.div_add_mod' _ _).symm
  · exact Nat.mod_lt _ hUnit
  · omega
  · exact (Nat.le_div_iff_mul_le hUnit).mpr hLow
  · exact (Nat.div_lt_iff_lt_mul hUnit).mpr hHigh

/- A long number is rounded by the bits that follow. -/
theorem IsLong.roundNat_eq
    (h : IsLong n m e f) :
    roundNat n =
      (if 2 * f < 2 ^ e then m
        else if 2 ^ e < 2 * f then m + 1
        else m + m % 2) * 2 ^ e := by
  have hUnit : 52 + e + 1 - precision = e := by
    unfold precision
    omega
  simp only [h.eq, roundNat,
    log2_significand h.least h.most h.rest_lt, hUnit,
    Nat.pow_eq, nearestQuotient_add m h.rest_lt]

theorem IsLong.roundNat_low
    (h : IsLong n m e f)
    (hLow : 2 * f < 2 ^ e) : roundNat n = m * 2 ^ e := by
  rw [h.roundNat_eq, if_pos hLow]

/- Without them the number reaches infinity as well. -/
theorem IsLong.infinityValue_le_iff
    (h : IsLong n m e f) :
    infinityValue ≤ m * 2 ^ e ↔ infinityValue ≤ n := by
  have hLog := log2_significand h.least h.most h.rest_lt
  have hLogLow :=
    log2_significand h.least h.most (Nat.two_pow_pos e)
  rw [← h.eq] at hLog
  rw [Nat.add_zero] at hLogLow
  have hNe : n ≠ 0 := by
    rintro rfl
    rw [Nat.log2_zero] at hLog
    omega
  have hNeLow : m * 2 ^ e ≠ 0 := by
    intro hZero
    rw [hZero, Nat.log2_zero] at hLogLow
    omega
  rw [Binary64.infinityValue_le_iff hNe,
    Binary64.infinityValue_le_iff hNeLow, hLog, hLogLow]

------------------------------------------------------------
-- Full Numbers
------------------------------------------------------------

/- A long number of fifty-three bits with zeros after them. -/
def IsFull
    (n : Nat) : Prop :=
  ∃ m e, IsLong n m e 0

/- What rounding makes of a long number is full. -/
theorem isFull_roundNat
    (hn : 2 ^ 53 ≤ n) : IsFull (roundNat n) := by
  rcases exists_isLong hn with ⟨m, e, f, h⟩
  have hLeast := h.least
  have hMost := h.most
  have hFull {m' : Nat}
      (hLeast : 2 ^ 52 ≤ m')
      (hMost : m' ≤ 2 ^ 53) : IsFull (m' * 2 ^ e) := by
    rcases Nat.lt_or_eq_of_le hMost with hLess | hCarry
    · exact ⟨m', e, rfl, Nat.two_pow_pos e, h.longer, hLeast,
        hLess⟩
    · have hShift : 53 + e = 52 + (e + 1) := by omega
      refine ⟨2 ^ 52, e + 1, ?_, Nat.two_pow_pos _, by omega,
        le_rfl, by decide⟩
      rw [hCarry, Nat.add_zero, two_pow_mul_two_pow hShift]
  rw [h.roundNat_eq]
  apply hFull
  · split
    · omega
    · split <;> omega
  · split
    · omega
    · split <;> omega

theorem IsFull.roundNat_eq
    (h : IsFull n) : roundNat n = n := by
  rcases h with ⟨m, e, h⟩
  rw [h.roundNat_low (Nat.two_pow_pos e), h.eq, Nat.add_zero]

theorem IsFull.mul_two_pow
    (h : IsFull n)
    (k : Nat) : IsFull (n * 2 ^ k) := by
  rcases h with ⟨m, e, h⟩
  refine ⟨m, e + k, ?_, Nat.two_pow_pos _,
    Nat.le_add_right_of_le h.longer, h.least, h.most⟩
  rw [h.eq, Nat.add_zero, Nat.add_zero, Nat.pow_add,
    Nat.mul_assoc]

/- Whatever digit follows a full number, it is dropped. -/
theorem IsFull.roundNat_add
    {d : Nat}
    (h : IsFull n)
    (hd : d < 2 ^ k) :
    roundNat (n * 2 ^ k + d) = n * 2 ^ k := by
  rcases h with ⟨m, e, h⟩
  have hLonger := Nat.add_le_add_right h.longer k
  have hHalf : 2 * 2 ^ k ≤ 2 ^ (e + k) := by
    rw [← Nat.pow_succ', ← Nat.one_add]
    exact Nat.pow_le_pow_right (by decide) hLonger
  have hLong : IsLong (n * 2 ^ k + d) m (e + k) d := by
    refine ⟨?_, by omega, Nat.le_add_right_of_le h.longer,
      h.least, h.most⟩
    rw [h.eq, Nat.add_zero, Nat.pow_add, Nat.mul_assoc]
  rw [hLong.roundNat_low (by omega), h.eq, Nat.add_zero,
    Nat.pow_add, Nat.mul_assoc]

------------------------------------------------------------
-- Ties That Are Rounded Down
------------------------------------------------------------

/-
  A number halfway between two neighbours of fifty-three
  bits, `2 * m` and `2 * m + 1` units of `2 ^ (e + 1)`. The
  first of them is even, so the number is rounded down.
-/
def IsLowTie
    (n : Nat) : Prop :=
  ∃ m e, 2 ^ 51 ≤ m ∧ m < 2 ^ 52
    ∧ n = (4 * m + 1) * 2 ^ e

theorem IsLowTie.le
    (h : IsLowTie n) : 2 ^ 53 ≤ n := by
  rcases h with ⟨m, e, hLeast, -, rfl⟩
  have hPos :=
    Nat.le_mul_of_pos_right (4 * m + 1) (Nat.two_pow_pos e)
  omega

theorem IsLong.isLowTie
    (h : IsLong n m e f)
    (hTie : 2 * f = 2 ^ e)
    (hEven : m % 2 = 0) : IsLowTie n := by
  have hLeast := h.least
  have hMost := h.most
  obtain ⟨e, rfl⟩ : ∃ e', e = e' + 1 :=
    ⟨e - 1, (Nat.sub_add_cancel h.longer).symm⟩
  obtain ⟨m, rfl⟩ : ∃ m', m = 2 * m' :=
    ⟨m / 2, by omega⟩
  rw [Nat.pow_succ'] at hTie
  refine ⟨m, e, by omega, by omega, ?_⟩
  rw [h.eq, Nat.pow_succ',
    Nat.eq_of_mul_eq_mul_left (by decide) hTie, Nat.add_mul,
    ← Nat.mul_assoc, Nat.one_mul, Nat.mul_right_comm 2 m 2]

/- How a tie is rounded, alone or with bits after it. -/
theorem isLong_lowTie
    (hLeast : 2 ^ 51 ≤ m)
    (hMost : m < 2 ^ 52)
    (hr : r < 2 ^ j) :
    IsLong ((4 * m + 1) * 2 ^ e * 2 ^ j + r)
      (2 * m) (e + 1 + j) (2 ^ e * 2 ^ j + r) := by
  have hOne : 2 ^ j ≤ 2 ^ e * 2 ^ j :=
    Nat.le_mul_of_pos_left _ (Nat.two_pow_pos e)
  have hUnit : 2 ^ (e + 1 + j) = 2 * (2 ^ e * 2 ^ j) := by
    rw [Nat.pow_add, Nat.pow_succ', Nat.mul_assoc]
  constructor
  · rw [hUnit, Nat.mul_assoc (4 * m + 1)]
    generalize 2 ^ e * 2 ^ j = half
    ring
  · omega
  · omega
  · omega
  · omega

theorem roundNat_lowTie
    (hLeast : 2 ^ 51 ≤ m)
    (hMost : m < 2 ^ 52) :
    roundNat ((4 * m + 1) * 2 ^ e) =
      2 * m * 2 ^ (e + 1) := by
  have hUnit : 2 ^ (e + 1) = 2 * 2 ^ e := Nat.pow_succ'
  have hEven : 2 * m % 2 = 0 := Nat.mul_mod_right 2 m
  have hLong :
      IsLong ((4 * m + 1) * 2 ^ e) (2 * m) (e + 1)
        (2 ^ e) := by
    have hAlone := isLong_lowTie (e := e) (j := 0)
      hLeast hMost Nat.one_pos
    simpa only [Nat.pow_zero, Nat.mul_one, Nat.add_zero]
      using hAlone
  rw [hLong.roundNat_eq, if_neg (by omega),
    if_neg (by omega), hEven, Nat.add_zero]

theorem roundNat_append_lowTie
    (hLeast : 2 ^ 51 ≤ m)
    (hMost : m < 2 ^ 52)
    (hr : r < 2 ^ j)
    (hPos : 0 < r) :
    roundNat ((4 * m + 1) * 2 ^ e * 2 ^ j + r) =
      (2 * m + 1) * 2 ^ (e + 1 + j) := by
  have hUnit : 2 ^ (e + 1 + j) = 2 * (2 ^ e * 2 ^ j) := by
    rw [Nat.pow_add, Nat.pow_succ', Nat.mul_assoc]
  rw [(isLong_lowTie hLeast hMost hr).roundNat_eq,
    if_neg (by omega), if_pos (by omega)]

/-
  So bits after the tie are missed if it is rounded before
  they are seen, unless the result is infinity anyway.
-/
theorem min_roundNat_lowTie
    (hTie : IsLowTie n)
    (hr : r < 2 ^ j)
    (hPos : 0 < r) :
    min (roundNat n * 2 ^ j) infinityValue =
        min (roundNat (n * 2 ^ j + r)) infinityValue ↔
      infinityValue ≤ n * 2 ^ j + r := by
  rcases hTie with ⟨m, e, hLeast, hMost, rfl⟩
  have hLong := isLong_lowTie (e := e) hLeast hMost hr
  have hLow := hLong.infinityValue_le_iff
  have hSplit := hLong.eq
  have hUnit := Nat.two_pow_pos (e + 1 + j)
  rw [roundNat_append_lowTie hLeast hMost hr hPos,
    roundNat_lowTie hLeast hMost, Nat.mul_assoc (2 * m),
    ← Nat.pow_add, Nat.succ_mul (2 * m)]
  generalize 2 * m * 2 ^ (e + 1 + j) = low at *
  generalize (4 * m + 1) * 2 ^ e * 2 ^ j + r = all at *
  omega

/- Bits after any other long number are not missed. -/
theorem roundNat_append
    (hn : 2 ^ 53 ≤ n)
    (hr : r < 2 ^ j)
    (h : ¬ (IsLowTie n ∧ 0 < r)) :
    roundNat (n * 2 ^ j + r) = roundNat n * 2 ^ j := by
  rcases exists_isLong hn with ⟨m, e, f, hLong⟩
  have hUnit : 2 ^ (e + j) = 2 ^ e * 2 ^ j := Nat.pow_add _ _ _
  have hStep : (f + 1) * 2 ^ j ≤ 2 ^ e * 2 ^ j :=
    Nat.mul_le_mul_right _ hLong.rest_lt
  rw [Nat.succ_mul] at hStep
  have hMore :
      IsLong (n * 2 ^ j + r) m (e + j) (f * 2 ^ j + r) := by
    refine ⟨?_, by omega, Nat.le_add_right_of_le hLong.longer,
      hLong.least, hLong.most⟩
    rw [hLong.eq, hUnit, Nat.add_mul, Nat.mul_assoc,
      Nat.add_assoc]
  rw [hLong.roundNat_eq, hMore.roundNat_eq, Nat.mul_assoc,
    ← hUnit]
  congr 1
  rcases Nat.lt_trichotomy (2 * f) (2 ^ e) with
    hBelow | hTie | hAbove
  · -- the unit is even, so less than half is less by a whole
    have hHalf : (2 * f + 2) * 2 ^ j ≤ 2 ^ e * 2 ^ j := by
      apply Nat.mul_le_mul_right
      obtain ⟨e, rfl⟩ : ∃ e', e = e' + 1 :=
        ⟨e - 1, (Nat.sub_add_cancel hLong.longer).symm⟩
      rw [Nat.pow_succ'] at hBelow ⊢
      omega
    rw [Nat.add_mul, Nat.mul_assoc] at hHalf
    rw [if_pos hBelow, if_pos (by omega)]
  · have hSame : 2 * (f * 2 ^ j) = 2 ^ e * 2 ^ j := by
      rw [← Nat.mul_assoc, hTie]
    rcases Nat.mod_two_eq_zero_or_one m with hEven | hOdd
    · have hZero : r = 0 := by
        by_contra hNe
        exact h ⟨hLong.isLowTie hTie hEven,
          Nat.pos_of_ne_zero hNe⟩
      rw [if_neg (by omega), if_neg (by omega),
        if_neg (by omega), if_neg (by omega)]
    · rw [hOdd, ite_self, ite_self, if_neg (by omega),
        if_neg (by omega)]
  · have hHalf : 2 ^ e * 2 ^ j < 2 * f * 2 ^ j :=
      Nat.mul_lt_mul_of_pos_right hAbove (Nat.two_pow_pos j)
    rw [Nat.mul_assoc] at hHalf
    rw [if_neg (by omega), if_pos (by omega),
      if_neg (by omega), if_pos hAbove]

/- The tie lies in the bits that do not fit. -/
theorem isLowTie_of_append
    (hn : 2 ^ 53 ≤ n)
    (hr : r < 2 ^ j)
    (h : IsLowTie (n * 2 ^ j + r)) : IsLowTie n := by
  rcases h with ⟨m, e, hLeast, hMost, hSplit⟩
  have hLow := Nat.mul_le_mul_right (2 ^ j) hn
  have hHigh : (4 * m + 1) * 2 ^ e < 2 ^ 54 * 2 ^ e :=
    Nat.mul_lt_mul_of_pos_right (by omega) (Nat.two_pow_pos e)
  rw [← Nat.pow_add] at hLow hHigh
  have hPow : 2 ^ (53 + j) < 2 ^ (54 + e) := by omega
  have hExponent : j ≤ e := by
    have hLess := (Nat.pow_lt_pow_iff_right (by decide)).mp hPow
    omega
  have hDiv : (n * 2 ^ j + r) / 2 ^ j = n := by
    rw [Nat.add_comm,
      Nat.add_mul_div_right _ _ (Nat.two_pow_pos j),
      Nat.div_eq_of_lt hr, Nat.zero_add]
  refine ⟨m, e - j, hLeast, hMost, ?_⟩
  rw [← hDiv, hSplit,
    Nat.mul_div_assoc _ (Nat.pow_dvd_pow 2 hExponent),
    Nat.pow_div hExponent (by decide)]

end Binary64

end Spreadsheet
