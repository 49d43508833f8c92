import Spreadsheet.Number.Scientific
import Spreadsheet.Proofs.DecimalDigits

/-
  The digits that are chosen for a double. They are always
  those of a natural number on some grid, one that reads back
  or the exact value itself. Digits of a positive number have
  no zero in front, and none is left at the end.

  Main declarations:
    * `Scientific.WellFormed`
    * `Scientific.exists_ofGrid`
-/

namespace Spreadsheet

namespace Scientific

variable {n : Nat}
variable {grid : Int}
variable {tie : Tie}
variable {x : Binary64.Exact}

------------------------------------------------------------
-- Digits On A Grid
------------------------------------------------------------

/-
  Digits with neither a zero in front nor one at the end, and
  at least one of them.
-/
structure WellFormed
    (s : Scientific) : Prop where
  areDigits : Digit.AreDigits s.digits
  exists_first :
    ∃ c rest, s.digits = c :: rest ∧ c ≠ '0'
  last_ne_zero : s.digits.getLast? ≠ some '0'

theorem WellFormed.digits_ne_nil
    {s : Scientific}
    (h : s.WellFormed) : s.digits ≠ [] := by
  rcases h.exists_first with ⟨c, rest, hFirst, -⟩
  rw [hFirst]
  exact List.cons_ne_nil c rest

/- The digits of a number, and the zeros that are dropped. -/
theorem exists_zeros
    (n : Nat)
    (grid : Int) :
    ∃ zeros,
      Nat.toDigits 10 n =
        (ofGrid n grid).digits ++ List.replicate zeros '0' := by
  refine ⟨((Nat.toDigits 10 n).reverse.takeWhile
    (· == '0')).length, ?_⟩
  have hZeros :
      (Nat.toDigits 10 n).reverse.takeWhile (· == '0') =
        List.replicate
          ((Nat.toDigits 10 n).reverse.takeWhile
            (· == '0')).length '0' := by
    rw [List.eq_replicate_iff]
    exact ⟨rfl, fun c hc =>
      eq_of_beq (List.mem_takeWhile_imp (p := (· == '0')) hc)⟩
  have hSplit :=
    List.takeWhile_append_dropWhile (p := (· == '0'))
      (l := (Nat.toDigits 10 n).reverse)
  rw [hZeros] at hSplit
  rw [← List.reverse_inj, ofGrid, List.reverse_append,
    List.reverse_replicate, List.reverse_reverse, hSplit]

theorem areDigits_ofGrid
    (n : Nat)
    (grid : Int) :
    Digit.AreDigits (ofGrid n grid).digits := by
  rcases exists_zeros n grid with ⟨zeros, hDigits⟩
  intro c hc
  apply Digit.areDigits_toDigits n
  rw [hDigits]
  exact List.mem_append_left _ hc

/- A positive number has a first digit that is not zero. -/
theorem head?_toDigits_ne_zero
    (hn : 0 < n) : (Nat.toDigits 10 n).head? ≠ some '0' := by
  have hDigits :=
    Digit.toDigits_decimal (Digit.areDigits_toDigits n)
      ((Digit.decimal_toDigits n).symm ▸ hn)
  rw [Digit.decimal_toDigits] at hDigits
  rw [hDigits]
  intro hHead
  have hKept := List.head?_dropWhile_not (· == '0')
    (Nat.toDigits 10 n)
  rw [hHead] at hKept
  cases hKept

theorem wellFormed_ofGrid
    (hn : 0 < n)
    (grid : Int) : (ofGrid n grid).WellFormed := by
  rcases exists_zeros n grid with ⟨zeros, hDigits⟩
  have hHead := head?_toDigits_ne_zero hn
  rw [hDigits] at hHead
  refine ⟨areDigits_ofGrid n grid, ?_, ?_⟩
  · cases hChosen : (ofGrid n grid).digits with
    | nil =>
        -- a number with no digit but zeros would be zero
        rw [hChosen, List.nil_append] at hDigits hHead
        cases zeros with
        | zero => exact absurd hDigits Nat.toDigits_ne_nil
        | succ zeros => exact absurd rfl hHead
    | cons c rest =>
        rw [hChosen] at hHead
        refine ⟨c, rest, rfl, ?_⟩
        rintro rfl
        exact hHead rfl
  · intro hLast
    rw [ofGrid, List.getLast?_reverse] at hLast
    have hKept := List.head?_dropWhile_not (· == '0')
      (Nat.toDigits 10 n).reverse
    rw [hLast] at hKept
    cases hKept

------------------------------------------------------------
-- Chosen Digits
------------------------------------------------------------

/- The exact value of a double on the grid of its digits. -/
def exactOn
    (x : Binary64.Exact) : Nat × Int :=
  (x.mantissa * Nat.pow 2 x.exponent.toNat
      * Nat.pow 5 (-x.exponent).toNat,
    min x.exponent 0)

theorem exists_of_onGrid?
    {s : Scientific}
    (h : onGrid? tie x grid = some s) :
    ∃ n, s = ofGrid n grid ∧ readsBack x n grid = true := by
  unfold onGrid? at h
  extract_lets num den below above twice preferred other at h
  split at h
  · next hPreferred =>
      exact ⟨preferred, (Option.some.inj h).symm, hPreferred⟩
  · split at h
    · next hOther =>
        exact ⟨other, (Option.some.inj h).symm, hOther⟩
    · cases h

/- Every choice of digits is one on a grid. -/
theorem exists_ofGrid
    (tie : Tie)
    (x : Binary64.Exact) :
    ∃ n grid, ofExact tie x = ofGrid n grid
      ∧ (readsBack x n grid = true ∨ (n, grid) = exactOn x) := by
  unfold ofExact
  extract_lets leading grids
  split
  · next s hFind =>
      rcases List.exists_of_findSome?_eq_some hFind with
        ⟨grid, -, hGrid⟩
      rcases exists_of_onGrid? hGrid with ⟨n, rfl, hReads⟩
      exact ⟨n, grid, rfl, Or.inl hReads⟩
  · exact ⟨_, _, rfl, Or.inr rfl⟩

theorem areDigits_ofExact
    (tie : Tie)
    (x : Binary64.Exact) :
    Digit.AreDigits (ofExact tie x).digits := by
  rcases exists_ofGrid tie x with ⟨n, grid, hForm, -⟩
  rw [hForm]
  exact areDigits_ofGrid n grid

end Scientific

end Spreadsheet
