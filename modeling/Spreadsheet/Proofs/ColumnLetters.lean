import Mathlib.Data.List.Induction
import Spreadsheet.Address.Column

/-
  Column letters and the numbers that they denote. Letters
  are digits from one to twenty-six, so every positive
  number has exactly one spelling. The bound on columns is
  checked after every letter, and this is the same as
  checking it at the end, since more letters never make the
  number smaller.

  Main declarations:
    * `Column.number`
    * `Column.lettersFromOne_number`
    * `Column.number_lettersFromOne`
    * `Column.ofLetters_of_areLetters`
-/

namespace Spreadsheet

namespace Column

variable {c : Char}
variable {cs : List Char}
variable {d n : Nat}

------------------------------------------------------------
-- Letters
------------------------------------------------------------

/- A run of letters that can name a column. -/
def AreLetters
    (cs : List Char) : Prop :=
  ∀ c ∈ cs, c.isUpper = true

/- Letters are twenty-six characters in a row. -/
theorem isUpper_iff
    (c : Char) :
    c.isUpper = true ↔ 65 ≤ c.toNat ∧ c.toNat ≤ 90 := by
  unfold Char.isUpper
  rw [decide_eq_true_eq, ge_iff_le,
    UInt32.le_iff_toNat_le, UInt32.le_iff_toNat_le]
  rfl

/- Every digit has a letter. -/
theorem toNat_letter
    (hd : d < 26) : (letter d).toNat = 65 + d := by
  have hAll :
      ∀ i : Fin 26, (letter i.val).toNat = 65 + i.val := by
    decide
  exact hAll ⟨d, hd⟩

theorem isUpper_letter
    (hd : d < 26) : (letter d).isUpper = true := by
  rw [isUpper_iff, toNat_letter hd]
  omega

theorem letterValue_letter
    (hd : d < 26) : letterValue (letter d) = d + 1 := by
  unfold letterValue
  rw [toNat_letter hd]
  change 65 + d - 65 + 1 = d + 1
  omega

/- The value of a letter is between one and twenty-six. -/
theorem letterValue_of_isUpper
    (hc : c.isUpper = true) :
    letterValue c = c.toNat - 64 ∧ letterValue c ≤ 26 := by
  rw [isUpper_iff] at hc
  have hValue : letterValue c = c.toNat - 65 + 1 := rfl
  omega

theorem letter_letterValue
    (hc : c.isUpper = true) :
    letter (letterValue c - 1) = c := by
  rcases letterValue_of_isUpper hc with ⟨hValue, hLe⟩
  rw [isUpper_iff] at hc
  apply Char.toNat_inj.mp
  rw [toNat_letter (by omega)]
  omega

------------------------------------------------------------
-- The Number Of A Run Of Letters
------------------------------------------------------------

/-
  The number that letters denote: the first letter counts
  most, and there is no digit for zero.
-/
def number
    (cs : List Char) : Nat :=
  cs.foldl (fun n c => n * 26 + letterValue c) 0

@[simp]
theorem number_nil : number [] = 0 :=
  rfl

@[simp]
theorem number_append_singleton
    (cs : List Char)
    (c : Char) :
    number (cs ++ [c]) = number cs * 26 + letterValue c := by
  simp [number]

/- Only no letters at all denote zero. -/
theorem number_pos
    (hcs : cs ≠ []) : 0 < number cs := by
  rcases List.eq_nil_or_concat cs with rfl | ⟨init, c, rfl⟩
  · exact absurd rfl hcs
  · rw [List.concat_eq_append, number_append_singleton]
    unfold letterValue
    omega

/- The last letter and the letters before it. -/
theorem lettersFromOne_succ
    (n : Nat) :
    lettersFromOne (n + 1)
      = lettersFromOne (n / 26) ++ [letter (n % 26)] := by
  rw [lettersFromOne]
  simp

@[simp]
theorem lettersFromOne_zero : lettersFromOne 0 = [] := by
  rw [lettersFromOne]
  rfl

/- What is written for a number are letters. -/
theorem areLetters_lettersFromOne
    (n : Nat) : AreLetters (lettersFromOne n) := by
  induction n using Nat.strongRecOn with
  | ind n ih =>
      intro c hc
      cases n with
      | zero => simp at hc
      | succ n =>
          rw [lettersFromOne_succ, List.mem_append,
            List.mem_singleton] at hc
          rcases hc with hc | rfl
          · exact ih (n / 26) (by omega) c hc
          · exact isUpper_letter (by omega)

/- The letters written for a number denote it. -/
theorem number_lettersFromOne
    (n : Nat) : number (lettersFromOne n) = n := by
  induction n using Nat.strongRecOn with
  | ind n ih =>
      cases n with
      | zero => simp
      | succ n =>
          rw [lettersFromOne_succ, number_append_singleton,
            ih (n / 26) (by omega),
            letterValue_letter (by omega)]
          omega

/- No other letters denote the number. -/
theorem lettersFromOne_number
    (hLetters : AreLetters cs) :
    lettersFromOne (number cs) = cs := by
  induction cs using List.reverseRecOn with
  | nil => simp
  | append_singleton cs c ih =>
      have hc := hLetters c (by simp)
      have hInit : AreLetters cs :=
        fun d hd => hLetters d (by simp [hd])
      have hLe := (letterValue_of_isUpper hc).2
      have hPos : 1 ≤ letterValue c := by
        unfold letterValue
        omega
      have hNumber :
          number (cs ++ [c])
            = (number cs * 26 + (letterValue c - 1)) + 1 := by
        rw [number_append_singleton]
        omega
      have hDiv :
          (number cs * 26 + (letterValue c - 1)) / 26
            = number cs := by
        omega
      have hMod :
          (number cs * 26 + (letterValue c - 1)) % 26
            = letterValue c - 1 := by
        omega
      rw [hNumber, lettersFromOne_succ, hDiv, hMod,
        ih hInit, letter_letterValue hc]

------------------------------------------------------------
-- Reading Letters
------------------------------------------------------------

/- More letters never denote a smaller number. -/
theorem le_foldl
    (cs : List Char)
    (n : Nat) :
    n ≤ cs.foldl (fun n c => n * 26 + letterValue c) n := by
  induction cs generalizing n with
  | nil => exact Nat.le_refl n
  | cons c rest ih =>
      have hStep := ih (n * 26 + letterValue c)
      rw [List.foldl_cons]
      omega

/-
  Reading refuses letters just in case the number that all
  of them denote is too large.
-/
theorem readFrom_of_areLetters
    (text : String)
    (hLetters : AreLetters cs)
    (hn : n ≤ largest) :
    readFrom text n cs =
      (let all :=
        cs.foldl (fun n c => n * 26 + letterValue c) n
      if largest < all then .error (.tooLarge text)
      else .ok all) := by
  induction cs generalizing n with
  | nil =>
      have hNot : ¬ largest < n := by omega
      simp [readFrom, hNot]
  | cons c rest ih =>
      have hc := hLetters c (by simp)
      have hRest : AreLetters rest :=
        fun d hd => hLetters d (by simp [hd])
      rw [readFrom, if_pos hc, List.foldl_cons]
      by_cases hNext : largest < n * 26 + letterValue c
      · have hGrow := le_foldl rest (n * 26 + letterValue c)
        have hAll :
            largest
              < rest.foldl (fun n c => n * 26 + letterValue c)
                (n * 26 + letterValue c) := by
          omega
        simp only [hNext, hAll, if_true]
      · simp only [hNext, if_false]
        exact ih hRest (by omega)

/- Reading a run of letters. -/
theorem ofLetters_of_areLetters
    (hNe : cs ≠ [])
    (hLetters : AreLetters cs) :
    ofLetters cs =
      if largest < number cs then
        .error (.tooLarge (String.ofList cs))
      else .ok (number cs - 1).toUInt32 := by
  have hRead :=
    readFrom_of_areLetters (String.ofList cs) hLetters
      (Nat.zero_le largest)
  unfold ofLetters
  split
  · exact absurd rfl hNe
  · rw [hRead]
    by_cases hLarge : largest < number cs
    · simp only [number] at hLarge
      simp only [number, hLarge, if_true, Except.map]
    · simp only [number] at hLarge
      simp only [number, hLarge, if_false, Except.map]

/- The letters of a column. -/
theorem toList_letters
    (col : UInt32) :
    (letters col).toList = lettersFromOne (col.toNat + 1) :=
  String.toList_ofList

end Column

end Spreadsheet
