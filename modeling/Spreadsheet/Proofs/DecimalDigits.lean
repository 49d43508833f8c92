import Mathlib.Data.List.Induction
import Mathlib.Data.List.TakeWhile
import Spreadsheet.Text.Digit

/-
  Decimal digits and the numbers that they denote. The
  digits written for a number read back as that number, and
  digits that denote a positive number are, up to zeros in
  front, the digits written for it.

  Main declarations:
    * `span_run`
    * `Digit.decimal_toDigits`
    * `Digit.toDigits_decimal`
-/

namespace Spreadsheet

------------------------------------------------------------
-- Runs Of A Class Of Characters
------------------------------------------------------------

section

variable {p : Char → Bool}
variable {rest : List Char}

/- A run of a class does not reach into what follows. -/
theorem takeWhile_append_stops
    (cs : List Char)
    (hStops : ∀ c, rest.head? = some c → p c = false) :
    (cs ++ rest).takeWhile p = cs.takeWhile p := by
  induction cs with
  | nil =>
      cases rest with
      | nil => rfl
      | cons c rest => simp [hStops c rfl]
  | cons c cs ih =>
      rw [List.cons_append, List.takeWhile_cons,
        List.takeWhile_cons, ih]

theorem dropWhile_append_stops
    (cs : List Char)
    (hStops : ∀ c, rest.head? = some c → p c = false) :
    (cs ++ rest).dropWhile p = cs.dropWhile p ++ rest := by
  induction cs with
  | nil =>
      cases rest with
      | nil => rfl
      | cons c rest => simp [hStops c rfl]
  | cons c cs ih =>
      rw [List.cons_append, List.dropWhile_cons,
        List.dropWhile_cons, ih]
      split <;> rfl

/- So a whole run is told from what follows it. -/
theorem span_run
    {run : List Char}
    (hRun : ∀ c ∈ run, p c = true)
    (hStops : ∀ c, rest.head? = some c → p c = false) :
    (run ++ rest).takeWhile p = run
      ∧ (run ++ rest).dropWhile p = rest := by
  rw [takeWhile_append_stops run hStops,
    dropWhile_append_stops run hStops,
    List.takeWhile_eq_self_iff.mpr hRun,
    List.dropWhile_eq_nil_iff.mpr hRun, List.nil_append]
  exact ⟨rfl, rfl⟩

end

namespace Digit

variable {c : Char}
variable {cs : List Char}

/- A run of decimal digits. -/
def AreDigits
    (cs : List Char) : Prop :=
  ∀ c ∈ cs, c.isDigit = true

/- Decimal digits are ten characters in a row. -/
theorem isDigit_iff
    (c : Char) :
    c.isDigit = true ↔ 48 ≤ c.toNat ∧ c.toNat ≤ 57 :=
  Char.isDigit_iff_toNat

------------------------------------------------------------
-- From Digits To Numbers
------------------------------------------------------------

/- Reading digits is the fold of the library. -/
theorem decimal_eq_ofDigitChars
    (cs : List Char) :
    decimal cs = Nat.ofDigitChars 10 cs 0 := by
  simp only [decimal, number, List.foldl_map,
    Nat.ofDigitChars_eq_foldl, Nat.mul_comm]

@[simp]
theorem decimal_nil : decimal [] = 0 :=
  rfl

/- The last digit counts units. -/
theorem decimal_append_singleton
    (cs : List Char)
    (c : Char) :
    decimal (cs ++ [c])
      = 10 * decimal cs + (c.toNat - 48) := by
  rw [decimal_eq_ofDigitChars, decimal_eq_ofDigitChars,
    Nat.ofDigitChars_append, Nat.ofDigitChars_cons,
    Nat.ofDigitChars_nil]
  rfl

/- The digits written for a number read back as it. -/
@[simp]
theorem decimal_toDigits
    (n : Nat) : decimal (Nat.toDigits 10 n) = n := by
  rw [decimal_eq_ofDigitChars]
  exact Nat.ofDigitChars_toDigits (by decide) (by decide)

/- What is written for a number are digits. -/
theorem areDigits_toDigits
    (n : Nat) : AreDigits (Nat.toDigits 10 n) := by
  intro c hc
  exact Nat.isDigit_of_mem_toDigits
    (by decide) (by decide) hc

------------------------------------------------------------
-- From Numbers To Digits
------------------------------------------------------------

/- The digit written for the value of a digit. -/
theorem toDigits_of_isDigit
    (hc : c.isDigit = true) :
    Nat.toDigits 10 (c.toNat - 48) = [c] := by
  rw [isDigit_iff] at hc
  have hLt : c.toNat - 48 < 10 := by omega
  rw [Nat.toDigits_of_lt_base hLt]
  congr 1
  apply Char.toNat_inj.mp
  rw [Nat.toNat_digitChar_of_lt_ten hLt]
  omega

/- Digits that denote zero are zeros. -/
theorem dropWhile_zero_of_decimal_eq_zero
    (hDigits : AreDigits cs)
    (hZero : decimal cs = 0) :
    cs.dropWhile (· == '0') = [] := by
  induction cs using List.reverseRecOn with
  | nil => rfl
  | append_singleton cs c ih =>
      rw [decimal_append_singleton] at hZero
      have hc := (isDigit_iff c).mp (hDigits c (by simp))
      have h0 : c = '0' := by
        apply Char.toNat_inj.mp
        change c.toNat = 48
        omega
      have hInit : AreDigits cs :=
        fun d hd => hDigits d (by simp [hd])
      rw [List.dropWhile_append, ih hInit (by omega), h0]
      rfl

/-
  The digits written for a positive number are the ones that
  it was read from, less the zeros in front.
-/
theorem toDigits_decimal
    (hDigits : AreDigits cs)
    (hPos : 0 < decimal cs) :
    Nat.toDigits 10 (decimal cs)
      = cs.dropWhile (· == '0') := by
  induction cs using List.reverseRecOn with
  | nil => simp at hPos
  | append_singleton cs c ih =>
      have hc := hDigits c (by simp)
      have hLast := toDigits_of_isDigit hc
      have hInit : AreDigits cs :=
        fun d hd => hDigits d (by simp [hd])
      rw [decimal_append_singleton] at hPos ⊢
      rcases Nat.eq_zero_or_pos (decimal cs) with hZero | hcs
      · -- every digit before the last one is a zero
        have hDrop :=
          dropWhile_zero_of_decimal_eq_zero hInit hZero
        have hNe : c ≠ '0' := by
          rintro rfl
          rw [hZero] at hPos
          simp at hPos
        rw [hZero, Nat.mul_zero, Nat.zero_add, hLast,
          List.dropWhile_append, hDrop]
        simp [hNe]
      · have hLt : c.toNat - 48 < 10 := by
          have := (isDigit_iff c).mp hc
          omega
        have hDrop := ih hInit hcs
        have hNe : cs.dropWhile (· == '0') ≠ [] := by
          rw [← hDrop]
          exact Nat.toDigits_ne_nil
        rw [← Nat.toDigits_append_toDigits
            (by decide) hcs hLt, hLast, hDrop,
          List.dropWhile_append]
        simp [hNe]

end Digit

end Spreadsheet
