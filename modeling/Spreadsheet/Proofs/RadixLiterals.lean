import Mathlib.Data.Nat.Digits.Lemmas
import Spreadsheet.Proofs.NumeralGrammar
import Spreadsheet.Proofs.SignificantBits

/-
  Whole numbers in base sixteen, eight and two. A literal is
  read digit by digit and rounded after each, which drops
  all digits after the first that does not fit. So the
  literal is read as the double nearest to its number unless
  its first digits lie halfway between two doubles, those
  are rounded down, and a later digit is not zero.

  Key definitions include:
    * `Numeral.LosesTie`

  The main result is `parseNumber_radix_nearest_iff`.
-/

namespace Spreadsheet

------------------------------------------------------------
-- Numbers Of Digits
------------------------------------------------------------

namespace Digit

variable {base : Nat}
variable {digits head tail : List Nat}

/- Numbers of digits are those of the library. -/
theorem number_eq_ofDigits
    (base : Nat)
    (digits : List Nat) :
    number base digits =
      Nat.ofDigits base digits.reverse := by
  induction digits using List.reverseRecOn with
  | nil => rfl
  | append_singleton digits d ih =>
      rw [List.reverse_append, List.reverse_singleton,
        List.singleton_append, Nat.ofDigits_cons, ← ih, number,
        List.foldl_append, Nat.add_comm, Nat.mul_comm]
      rfl

theorem number_append
    (base : Nat)
    (head tail : List Nat) :
    number base (head ++ tail) =
      number base head * base ^ tail.length
        + number base tail := by
  simp only [number_eq_ofDigits, List.reverse_append,
    Nat.ofDigits_append, List.length_reverse]
  rw [Nat.add_comm, Nat.mul_comm]

theorem number_append_singleton
    (base : Nat)
    (digits : List Nat)
    (d : Nat) :
    number base (digits ++ [d]) =
      number base digits * base + d := by
  rw [number, List.foldl_append]
  rfl

theorem number_lt
    (hBase : 1 < base)
    (hDigits : ∀ d ∈ digits, d < base) :
    number base digits < base ^ digits.length := by
  rw [number_eq_ofDigits, ← List.length_reverse]
  exact Nat.ofDigits_lt_base_pow_length hBase fun d hd =>
    hDigits d (List.mem_reverse.mp hd)

end Digit

namespace Numeral

open Binary64

variable {k : Nat}
variable {digits head tail : List Nat}

------------------------------------------------------------
-- Rounding After Each Digit
------------------------------------------------------------

theorem roundedFold_append_singleton
    (base : Nat)
    (digits : List Nat)
    (d : Nat) :
    roundedFold base (digits ++ [d]) =
      roundNat
        (roundNat (roundedFold base digits * base) + d) := by
  rw [roundedFold, List.foldl_append]
  rfl

/- As long as all but the last digit fit, one rounds once. -/
theorem roundedFold_of_lt
    (hDigits : ∀ d ∈ digits, d < 2 ^ k)
    (h : Digit.number (2 ^ k) digits < 2 ^ 53 * 2 ^ k) :
    roundedFold (2 ^ k) digits =
      roundNat (Digit.number (2 ^ k) digits) := by
  induction digits using List.reverseRecOn with
  | nil => exact (by decide : 0 = roundNat 0)
  | append_singleton digits d ih =>
      have hPos := Nat.two_pow_pos k
      rw [Digit.number_append_singleton] at h ⊢
      have hInit : Digit.number (2 ^ k) digits < 2 ^ 53 := by
        apply Nat.lt_of_mul_lt_mul_right (a := 2 ^ k)
        omega
      have hFold :=
        ih (fun e he => hDigits e (List.mem_append_left _ he))
          (hInit.trans_le (Nat.le_mul_of_pos_right _ hPos))
      rw [roundedFold_append_singleton, hFold,
        roundNat_of_lt hInit, roundNat_mul_two_pow hInit]

/- After that digits only count as zeros. -/
theorem roundedFold_append
    (hTail : ∀ d ∈ tail, d < 2 ^ k)
    (h : IsFull (roundedFold (2 ^ k) head)) :
    roundedFold (2 ^ k) (head ++ tail) =
        roundedFold (2 ^ k) head * 2 ^ (k * tail.length)
      ∧ IsFull (roundedFold (2 ^ k) (head ++ tail)) := by
  induction tail using List.reverseRecOn with
  | nil =>
      rw [List.append_nil, List.length_nil, Nat.mul_zero,
        Nat.pow_zero, Nat.mul_one]
      exact ⟨rfl, h⟩
  | append_singleton tail d ih =>
      have hLast : d < 2 ^ k :=
        hTail d (List.mem_append_right _ List.mem_cons_self)
      rcases ih fun e he =>
          hTail e (List.mem_append_left _ he) with
        ⟨hInit, hFull⟩
      have hStep :
          roundedFold (2 ^ k) (head ++ (tail ++ [d])) =
            roundedFold (2 ^ k) (head ++ tail) * 2 ^ k := by
        rw [← List.append_assoc, roundedFold_append_singleton,
          (hFull.mul_two_pow k).roundNat_eq,
          hFull.roundNat_add hLast]
      rw [hStep]
      constructor
      · rw [hInit, List.length_append, List.length_singleton,
          Nat.mul_succ, Nat.pow_add, Nat.mul_assoc]
      · exact hFull.mul_two_pow k

/- A long number has a first digit that does not fit. -/
theorem exists_head
    (hDigits : ∀ d ∈ digits, d < 2 ^ k)
    (h : 2 ^ 53 ≤ Digit.number (2 ^ k) digits) :
    ∃ head tail, digits = head ++ tail
      ∧ 2 ^ 53 ≤ Digit.number (2 ^ k) head
      ∧ Digit.number (2 ^ k) head < 2 ^ 53 * 2 ^ k := by
  induction digits using List.reverseRecOn with
  | nil => exact absurd h (by decide : ¬ 2 ^ 53 ≤ 0)
  | append_singleton digits d ih =>
      rcases Nat.lt_or_ge
          (Digit.number (2 ^ k) digits) (2 ^ 53) with
        hShort | hLong
      · have hLast : d < 2 ^ k :=
          hDigits d
            (List.mem_append_right _ List.mem_cons_self)
        have hStep := Nat.mul_le_mul_right (2 ^ k) hShort
        refine ⟨digits ++ [d], [],
          (List.append_nil _).symm, h, ?_⟩
        rw [Digit.number_append_singleton]
        rw [Nat.succ_mul] at hStep
        omega
      · have hInit (e : Nat) (he : e ∈ digits) : e < 2 ^ k :=
          hDigits e (List.mem_append_left _ he)
        rcases ih hInit hLong with ⟨head, tail, rfl, hHead⟩
        exact ⟨head, tail ++ [d], List.append_assoc _ _ _,
          hHead⟩

------------------------------------------------------------
-- Lost Ties
------------------------------------------------------------

/-
  Digits the first of which denote a number halfway between
  two doubles that is rounded down, while the digits after
  them are not all zero.
-/
def LosesTie
    (base : Nat)
    (digits : List Nat) : Prop :=
  ∃ head tail, digits = head ++ tail
    ∧ IsLowTie (Digit.number base head)
    ∧ 0 < Digit.number base tail

/- Only what does not fit can be a tie. -/
theorem not_losesTie_of_lt
    (h : Digit.number (2 ^ k) digits < 2 ^ 53) :
    ¬ LosesTie (2 ^ k) digits := by
  rintro ⟨head, tail, rfl, hTie, -⟩
  have hLeast := hTie.le
  have hScale :=
    Nat.le_mul_of_pos_right (Digit.number (2 ^ k) head)
      (Nat.pow_pos (n := tail.length) (Nat.two_pow_pos k))
  rw [Digit.number_append] at h
  omega

/- So the tie lies in the first digit that does not fit. -/
theorem losesTie_append_iff
    (hBase : 1 < 2 ^ k)
    (hTail : ∀ d ∈ tail, d < 2 ^ k)
    (hLeast : 2 ^ 53 ≤ Digit.number (2 ^ k) head)
    (hMost : Digit.number (2 ^ k) head < 2 ^ 53 * 2 ^ k) :
    LosesTie (2 ^ k) (head ++ tail) ↔
      IsLowTie (Digit.number (2 ^ k) head)
        ∧ 0 < Digit.number (2 ^ k) tail := by
  constructor
  · rintro ⟨head', tail', hSplit, hTie, hPos⟩
    rcases List.append_eq_append_iff.mp hSplit with
      ⟨more, rfl, rfl⟩ | ⟨more, rfl, rfl⟩
    · -- a tie that is found later is one of its first digits
      have hMore :=
        Digit.number_lt hBase fun d hd =>
          hTail d (List.mem_append_left _ hd)
      rw [← Nat.pow_mul] at hMore
      rw [Digit.number_append, ← Nat.pow_mul] at hTie
      rw [Digit.number_append]
      exact ⟨isLowTie_of_append hLeast hMore hTie,
        Nat.add_pos_right _ hPos⟩
    · have hNil : more = [] := by
        by_contra hMore
        have hLength := List.length_pos_iff.mpr hMore
        have hScale :=
          Nat.mul_le_mul hTie.le
            (Nat.le_pow (a := 2 ^ k) hLength)
        rw [Digit.number_append] at hMost
        omega
      subst hNil
      rw [List.append_nil]
      exact ⟨hTie, hPos⟩
  · rintro ⟨hTie, hPos⟩
    exact ⟨head, tail, rfl, hTie, hPos⟩

/- What rounding after each digit misses. -/
theorem min_roundNat_roundedFold_iff
    (hBase : 1 < 2 ^ k)
    (hDigits : ∀ d ∈ digits, d < 2 ^ k) :
    min (roundNat (roundedFold (2 ^ k) digits)) infinityValue =
        min (roundNat (Digit.number (2 ^ k) digits))
          infinityValue ↔
      ¬ (Digit.number (2 ^ k) digits < infinityValue
        ∧ LosesTie (2 ^ k) digits) := by
  rcases Nat.lt_or_ge
      (Digit.number (2 ^ k) digits) (2 ^ 53) with
    hShort | hLong
  · have hScale :=
      Nat.le_mul_of_pos_right (2 ^ 53) (Nat.two_pow_pos k)
    rw [roundedFold_of_lt hDigits (hShort.trans_le hScale),
      roundNat_of_lt hShort, roundNat_of_lt hShort]
    exact iff_of_true rfl fun h =>
      not_losesTie_of_lt hShort h.2
  · rcases exists_head hDigits hLong with
      ⟨head, tail, rfl, hLeast, hMost⟩
    have hTail (d : Nat) (hd : d ∈ tail) : d < 2 ^ k :=
      hDigits d (List.mem_append_right _ hd)
    have hHead :
        roundedFold (2 ^ k) head =
          roundNat (Digit.number (2 ^ k) head) :=
      roundedFold_of_lt
        (fun d hd => hDigits d (List.mem_append_left _ hd))
        hMost
    rcases roundedFold_append hTail
        (hHead ▸ isFull_roundNat hLeast) with
      ⟨hFold, hFull⟩
    have hRest := Digit.number_lt hBase hTail
    rw [losesTie_append_iff hBase hTail hLeast hMost,
      hFull.roundNat_eq, hFold, hHead, Digit.number_append]
    rw [← Nat.pow_mul] at hRest ⊢
    by_cases h :
        IsLowTie (Digit.number (2 ^ k) head)
          ∧ 0 < Digit.number (2 ^ k) tail
    · rw [min_roundNat_lowTie h.1 hRest h.2]
      exact ⟨fun hValue hBoth => hBoth.1.not_ge hValue,
        fun hNot => Nat.le_of_not_lt fun hLess =>
          hNot ⟨hLess, h⟩⟩
    · rw [roundNat_append hLeast hRest h]
      exact iff_of_true rfl fun hBoth => h hBoth.2

end Numeral

------------------------------------------------------------
-- Texts
------------------------------------------------------------

variable {marker c : Char}
variable {base v : Nat}
variable {digits : List Char}
variable {values : List Nat}

/- The bases are powers of two. -/
theorem BaseMarker.exists_two_pow
    (h : BaseMarker marker base) :
    ∃ k, base = 2 ^ k ∧ 1 < base := by
  cases h with
  | smallX => exact ⟨4, by decide⟩
  | capitalX => exact ⟨4, by decide⟩
  | smallO => exact ⟨3, by decide⟩
  | capitalO => exact ⟨3, by decide⟩
  | smallB => exact ⟨1, by decide⟩
  | capitalB => exact ⟨1, by decide⟩

/- A literal stands for the number that its digits fold to. -/
theorem parseNumber_radix
    (hMarker : BaseMarker marker base)
    (hNe : digits ≠ [])
    (hDigits :
      List.Forall₂ (Digit.IsDigitOf base) digits values) :
    parseNumber (String.ofList ('0' :: marker :: digits)) =
      some (Binary64.ofNat (Numeral.roundedFold base values)) :=
  parseNumber_of_written (.radix hMarker hNe hDigits)

/- Which is the nearest double unless a tie is lost. -/
theorem Numeral.isNearest_roundedFold_iff
    (hMarker : BaseMarker marker base)
    (hDigits :
      List.Forall₂ (Digit.IsDigitOf base) digits values) :
    Binary64.IsNearest
        (Binary64.ofNat (roundedFold base values))
        (Digit.number base values) ↔
      ¬ (Digit.number base values < Binary64.infinityValue
        ∧ LosesTie base values) := by
  have hEach :
      List.Forall₂
        (fun v c => v < base ∧ Digit.IsDigitOf base c v)
        values digits :=
    hDigits.flip.imp fun _ _ hDigit => ⟨hDigit.1, hDigit⟩
  have hLess := ((List.forall₂_and_left _ _).mp hEach).1
  rcases hMarker.exists_two_pow with ⟨k, rfl, hBase⟩
  rw [Binary64.isNearest_ofNat_iff]
  exact min_roundNat_roundedFold_iff hBase hLess

/-
  A literal in base sixteen, eight or two always stands for
  a number, and it is the double nearest to the number that
  its digits denote, with ties to even and infinity from
  halfway between the largest double and `2 ^ 1024` on, just
  in case the digits lose no tie or denote what is infinite.
-/
theorem parseNumber_radix_nearest_iff
    (hMarker : BaseMarker marker base)
    (hNe : digits ≠ [])
    (hDigits :
      List.Forall₂ (Digit.IsDigitOf base) digits values) :
    ∃ x,
      parseNumber
          (String.ofList ('0' :: marker :: digits)) = some x
        ∧ (Binary64.IsNearest x (Digit.number base values) ↔
          ¬ (Digit.number base values < Binary64.infinityValue
            ∧ Numeral.LosesTie base values)) :=
  ⟨_, parseNumber_radix hMarker hNe hDigits,
    Numeral.isNearest_roundedFold_iff hMarker hDigits⟩

/- The first fourteen digits are a tie that is rounded up. -/
theorem parseNumber_radix_nearest_upperTie :
    BaseMarker 'x' 16
      ∧ "200000000000031".toList ≠ []
      ∧ List.Forall₂ (Digit.IsDigitOf 16)
        "200000000000031".toList
        [2, 0, 0, 0, 0, 0, 0, 0, 0, 0, 0, 0, 0, 3, 1]
      ∧ ∃ x,
        parseNumber
            (String.ofList
              ('0' :: 'x' :: "200000000000031".toList)) =
            some x
          ∧ (Binary64.IsNearest x
              (Digit.number 16
                [2, 0, 0, 0, 0, 0, 0, 0, 0, 0, 0, 0, 0, 3, 1]) ↔
            ¬ (Digit.number 16
                  [2, 0, 0, 0, 0, 0, 0, 0, 0, 0, 0, 0, 0, 3, 1]
                < Binary64.infinityValue
              ∧ Numeral.LosesTie 16
                [2, 0, 0, 0, 0, 0, 0, 0, 0, 0, 0, 0, 0, 3, 1])) :=
  have hNe : "200000000000031".toList ≠ [] := by decide
  have hDigits :=
    (Numeral.mapM_value?_eq_some_iff .smallX).mp (by decide)
  ⟨.smallX, hNe, hDigits,
    parseNumber_radix_nearest_iff .smallX hNe hDigits⟩

/-
  The first fourteen digits are a tie that is rounded down,
  to `2 ^ 53`, and the last digit comes too late. The number
  is `2 ^ 57 + 17`, and doubles lie 32 apart there.
-/
theorem not_nearest_lostTie :
    List.Forall₂ (Digit.IsDigitOf 16)
        "200000000000011".toList
        [2, 0, 0, 0, 0, 0, 0, 0, 0, 0, 0, 0, 0, 1, 1]
      ∧ ¬ ∃ x,
        parseNumber "0x200000000000011" = some x
          ∧ Binary64.IsNearest x
            (Digit.number 16
              [2, 0, 0, 0, 0, 0, 0, 0, 0, 0, 0, 0, 0, 1, 1]) := by
  have hDigits :
      List.Forall₂ (Digit.IsDigitOf 16)
        "200000000000011".toList
        [2, 0, 0, 0, 0, 0, 0, 0, 0, 0, 0, 0, 0, 1, 1] :=
    (Numeral.mapM_value?_eq_some_iff .smallX).mp (by decide)
  have hText :
      "0x200000000000011" =
        String.ofList
          ('0' :: 'x' :: "200000000000011".toList) := by
    decide
  have hTie :
      Numeral.LosesTie 16
        [2, 0, 0, 0, 0, 0, 0, 0, 0, 0, 0, 0, 0, 1, 1] :=
    ⟨[2, 0, 0, 0, 0, 0, 0, 0, 0, 0, 0, 0, 0, 1], [1], rfl,
      ⟨2 ^ 51, 0, le_rfl, by decide, by decide⟩, by decide⟩
  refine ⟨hDigits, ?_⟩
  rintro ⟨x, hParse, hNearest⟩
  rw [hText, parseNumber_radix .smallX (by decide) hDigits]
    at hParse
  rw [← Option.some.inj hParse,
    Numeral.isNearest_roundedFold_iff .smallX hDigits]
    at hNearest
  apply hNearest
  refine ⟨?_, hTie⟩
  calc
    Digit.number 16
        [2, 0, 0, 0, 0, 0, 0, 0, 0, 0, 0, 0, 0, 1, 1]
      < 2 ^ 58 := by decide
    _ ≤ Binary64.infinityValue :=
      Nat.pow_le_pow_right (by decide) (by decide)

end Spreadsheet
