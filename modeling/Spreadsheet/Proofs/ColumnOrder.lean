import Mathlib.Data.Nat.Digits.Defs
import Spreadsheet.Proofs.ColumnLetters

/-
  The order of columns. Letters are read as a number in base
  twenty-six whose digits go from one to twenty-six, and the
  columns that have letters are in the order of their
  spelling: shorter letters first, and letters of the same
  length as in a dictionary. Reading never leaves the range
  of a machine word, since the bound is checked after every
  letter.

  Key definitions include:
    * `Column.positional`
    * `Column.SpelledBefore`
    * `Column.readInWord?`

  The main result is `Column.letters_exact`.
-/

namespace Spreadsheet

------------------------------------------------------------
-- Dictionary Order
------------------------------------------------------------

/-
  The last characters of texts of the same length matter if
  all characters before them agree.
-/
theorem append_singleton_lt_iff
    {cs ds : List Char}
    (c d : Char)
    (hLength : cs.length = ds.length) :
    cs ++ [c] < ds ++ [d] ↔ cs < ds ∨ cs = ds ∧ c < d := by
  induction cs generalizing ds with
  | nil =>
      cases ds with
      | nil => simp [List.cons_lt_cons_iff]
      | cons e ds => cases hLength
  | cons b cs ih =>
      cases ds with
      | nil => cases hLength
      | cons e ds =>
          have hRest := ih (Nat.succ.inj hLength)
          simp only [List.cons_append, List.cons_lt_cons_iff,
            hRest, List.cons.injEq]
          tauto

namespace Column

variable {c d : Char}
variable {cs ds : List Char}
variable {n : Nat}

------------------------------------------------------------
-- Numbers Of Letters
------------------------------------------------------------

/-
  The number that letters denote by their places: each place
  counts twenty-six times as much as the one after it.
-/
def positional
    (cs : List Char) : Nat :=
  Nat.ofDigits 26 (cs.reverse.map letterValue)

theorem number_eq_positional
    (cs : List Char) : number cs = positional cs := by
  induction cs using List.reverseRecOn with
  | nil => rfl
  | append_singleton cs c ih =>
      rw [number_append_singleton, ih, positional, positional,
        List.reverse_append, List.reverse_singleton,
        List.singleton_append, List.map_cons,
        Nat.ofDigits_cons, Nat.add_comm, Nat.mul_comm]

/- The order of a spelling: by length, then by dictionary. -/
def SpelledBefore
    (cs ds : List Char) : Prop :=
  cs.length < ds.length
    ∨ cs.length = ds.length ∧ cs < ds

/- One more letter on both sides. -/
theorem spelledBefore_append_iff
    (cs ds : List Char)
    (c d : Char) :
    SpelledBefore (cs ++ [c]) (ds ++ [d]) ↔
      SpelledBefore cs ds ∨ cs = ds ∧ c < d := by
  simp only [SpelledBefore, List.length_append,
    List.length_singleton, Nat.add_lt_add_iff_right,
    Nat.add_right_cancel_iff]
  constructor
  · rintro (hShorter | ⟨hLength, hLess⟩)
    · exact Or.inl (Or.inl hShorter)
    · exact ((append_singleton_lt_iff c d hLength).mp
        hLess).imp_left fun h => Or.inr ⟨hLength, h⟩
  · rintro ((hShorter | ⟨hLength, hLess⟩) | ⟨rfl, hLess⟩)
    · exact Or.inl hShorter
    · exact Or.inr ⟨hLength,
        (append_singleton_lt_iff c d hLength).mpr
          (Or.inl hLess)⟩
    · exact Or.inr ⟨rfl,
        (append_singleton_lt_iff c d rfl).mpr
          (Or.inr ⟨rfl, hLess⟩)⟩

/- Letters are in the order of their values. -/
theorem letterValue_lt_iff
    (hc : c.isUpper = true)
    (hd : d.isUpper = true) :
    letterValue c < letterValue d ↔ c < d := by
  have hChars : c < d ↔ c.toNat < d.toNat := Iff.rfl
  have hcValue := (letterValue_of_isUpper hc).1
  have hdValue := (letterValue_of_isUpper hd).1
  rw [isUpper_iff] at hc hd
  rw [hChars, hcValue, hdValue]
  omega

theorem areLetters_append_iff :
    AreLetters (cs ++ [c]) ↔
      AreLetters cs ∧ c.isUpper = true := by
  simp [AreLetters, or_imp, forall_and]

/-
  Letters denote numbers in the order of their spelling. The
  last letters decide where all letters before them agree,
  because no letter counts more than twenty-six.
-/
theorem number_lt_iff
    (hcs : AreLetters cs)
    (hds : AreLetters ds) :
    number cs < number ds ↔ SpelledBefore cs ds := by
  induction cs using List.reverseRecOn generalizing ds with
  | nil =>
      rcases List.eq_nil_or_concat ds with rfl | ⟨ds, d, rfl⟩
      · simp [SpelledBefore]
      · rw [List.concat_eq_append]
        exact iff_of_true
          (number_pos (List.concat_ne_nil d ds))
          (Or.inl (by simp))
  | append_singleton cs c ih =>
      rcases List.eq_nil_or_concat ds with rfl | ⟨ds, d, rfl⟩
      · exact iff_of_false (Nat.not_lt_zero _)
          (by simp [SpelledBefore])
      · rw [List.concat_eq_append] at hds ⊢
        rw [areLetters_append_iff] at hcs hds
        have hcLe := (letterValue_of_isUpper hcs.2).2
        have hdLe := (letterValue_of_isUpper hds.2).2
        have hcPos : 1 ≤ letterValue c := Nat.le_add_left 1 _
        have hdPos : 1 ≤ letterValue d := Nat.le_add_left 1 _
        have hSame : number cs = number ds ↔ cs = ds := by
          refine ⟨fun h => ?_, congrArg number⟩
          rw [← lettersFromOne_number hcs.1, h,
            lettersFromOne_number hds.1]
        rw [spelledBefore_append_iff, ← ih hcs.1 hds.1,
          ← hSame, ← letterValue_lt_iff hcs.2 hds.2,
          number_append_singleton, number_append_singleton]
        omega

------------------------------------------------------------
-- Accepted Letters
------------------------------------------------------------

/- Nothing but letters is read. -/
theorem areLetters_of_readFrom
    {text : String}
    {m : Nat}
    (h : readFrom text n cs = .ok m) : AreLetters cs := by
  induction cs generalizing n with
  | nil => exact fun _ hc => absurd hc List.not_mem_nil
  | cons c rest ih =>
      rw [readFrom] at h
      split at h
      · next hc =>
          dsimp only at h
          split at h
          · cases h
          · exact List.forall_mem_cons.mpr ⟨hc, ih h⟩
      · cases h

/- What is read as a column, and the column that it is. -/
theorem ofLetters_eq_ok_iff
    {col : UInt32} :
    ofLetters cs = .ok col ↔
      cs ≠ [] ∧ AreLetters cs ∧ number cs = col.toNat + 1
        ∧ number cs ≤ largest := by
  have hLargest : largest = 2 ^ 32 - 1 := rfl
  constructor
  · intro h
    have hNe : cs ≠ [] := by
      rintro rfl
      cases h
    have hLetters : AreLetters cs := by
      unfold ofLetters at h
      split at h
      · cases h
      · rcases hRead : readFrom (String.ofList cs) 0 cs with
          fault | m
        · rw [hRead] at h
          cases h
        · exact areLetters_of_readFrom hRead
    have hPos := number_pos hNe
    rw [ofLetters_of_areLetters hNe hLetters] at h
    split at h
    · cases h
    · next hFits =>
        cases h
        refine ⟨hNe, hLetters, ?_, Nat.le_of_not_lt hFits⟩
        rw [Nat.toUInt32, UInt32.toNat_ofNat',
          Nat.mod_eq_of_lt (by omega)]
        omega
  · rintro ⟨hNe, hLetters, hNumber, hFits⟩
    rw [ofLetters_of_areLetters hNe hLetters,
      if_neg (Nat.not_lt.mpr hFits), hNumber,
      Nat.add_sub_cancel, Nat.toUInt32, UInt32.ofNat_toNat]

/- The letters of a column are read as it, while they fit. -/
theorem ofLetters_letters
    (col : UInt32) :
    ofLetters (letters col).toList =
      if col.toNat < largest then .ok col
      else .error (.tooLarge (letters col)) := by
  have hNumber := number_lettersFromOne (col.toNat + 1)
  have hLetters := areLetters_lettersFromOne (col.toNat + 1)
  have hNe : lettersFromOne (col.toNat + 1) ≠ [] := by
    rw [lettersFromOne_succ]
    exact List.append_ne_nil_of_right_ne_nil _
      (List.cons_ne_nil _ _)
  rw [toList_letters]
  split
  · next hFits =>
      exact ofLetters_eq_ok_iff.mpr
        ⟨hNe, hLetters, hNumber, by omega⟩
  · next hFits =>
      rw [ofLetters_of_areLetters hNe hLetters,
        if_pos (by omega)]
      rfl

------------------------------------------------------------
-- Reading In A Machine Word
------------------------------------------------------------

/-
  Read letters after a run that denotes `n`, as `readFrom`
  does, in a word of 64 bits. There is no answer if a word
  is too small for the next number.
-/
def readInWord?
    (text : String)
    (n : UInt64) :
    List Char → Option (Except LettersFault UInt64)
  | [] => some (.ok n)
  | c :: rest =>
      if c.isUpper then
        if n.toNat * 26 + letterValue c < UInt64.size then
          let next := n * 26 + (letterValue c).toUInt64
          if largest.toUInt64 < next then
            some (.error (.tooLarge text))
          else readInWord? text next rest
        else none
      else some (.error (.notALetter c))

/-
  The word is never too small. The number before a letter is
  at most the largest column, so the number after it needs
  no more than five bits more.
-/
theorem readInWord?_eq
    (text : String)
    {n : UInt64}
    (hn : n.toNat ≤ largest)
    (cs : List Char) :
    readInWord? text n cs =
      some ((readFrom text n.toNat cs).map
        Nat.toUInt64) := by
  have hLargest : largest = 2 ^ 32 - 1 := rfl
  induction cs generalizing n with
  | nil =>
      rw [readInWord?, readFrom, Except.map, Nat.toUInt64,
        UInt64.ofNat_toNat]
  | cons c rest ih =>
      rw [readInWord?, readFrom]
      split
      · next hc =>
          have hValue := (letterValue_of_isUpper hc).2
          have hNext :
              (n * 26 + (letterValue c).toUInt64).toNat =
                n.toNat * 26 + letterValue c := by
            rw [UInt64.toNat_add, UInt64.toNat_mul,
              Nat.toUInt64, UInt64.toNat_ofNat']
            change (n.toNat * 26 % 2 ^ 64
              + letterValue c % 2 ^ 64) % 2 ^ 64 = _
            omega
          have hBound :
              largest.toUInt64
                  < n * 26 + (letterValue c).toUInt64 ↔
                largest < n.toNat * 26 + letterValue c := by
            rw [UInt64.lt_iff_toNat_lt, hNext]
            rfl
          have hFits :
              n.toNat * 26 + letterValue c < UInt64.size := by
            change _ < 2 ^ 64
            omega
          rw [if_pos hFits]
          dsimp only
          split
          · next hLarge =>
              rw [if_pos (hBound.mp hLarge)]
              rfl
          · next hSmall =>
              rw [hBound] at hSmall
              rw [if_neg hSmall, ih (by omega), hNext]
      · rfl

------------------------------------------------------------
-- Exact Letters
------------------------------------------------------------

/-
  Letters name columns exactly. The letters of a column are
  read as the column, except for the last number of 32 bits,
  whose letters are refused. A run of letters is read just in
  case its number in base twenty-six is at most the number
  of columns, whatever its length, and the column that it
  names is written with the same letters. No number on the
  way needs more than 64 bits. And columns are in the order
  of the letters that name them.
-/
theorem letters_exact :
    (∀ col : UInt32, col.toNat < 2 ^ 32 - 1 →
      ofLetters (letters col).toList = .ok col)
    ∧ (∀ col : UInt32, col.toNat = 2 ^ 32 - 1 →
      ofLetters (letters col).toList =
        .error (.tooLarge (letters col)))
    ∧ (∀ cs, cs ≠ [] → AreLetters cs →
      ((∃ col, ofLetters cs = .ok col) ↔
        positional cs ≤ 2 ^ 32 - 1))
    ∧ (∀ cs col, ofLetters cs = .ok col →
      positional cs = col.toNat + 1
        ∧ letters col = String.ofList cs)
    ∧ (∀ text cs,
      readInWord? text 0 cs =
        some ((readFrom text 0 cs).map Nat.toUInt64))
    ∧ ∀ cs ds a b,
      ofLetters cs = .ok a → ofLetters ds = .ok b →
        (a < b ↔ SpelledBefore cs ds) := by
  have hLargest : largest = 2 ^ 32 - 1 := rfl
  simp only [ofLetters_letters, ← number_eq_positional]
  refine ⟨?reads, ?refuses, ?accepts, ?writes, ?fits, ?order⟩
  case reads => exact fun col hCol => if_pos hCol
  case refuses =>
    exact fun col hCol => if_neg (Nat.not_lt.mpr hCol.ge)
  case accepts =>
    intro cs hNe hLetters
    constructor
    · rintro ⟨col, hCol⟩
      exact (ofLetters_eq_ok_iff.mp hCol).2.2.2
    · intro hFits
      rw [ofLetters_of_areLetters hNe hLetters, hLargest,
        if_neg (Nat.not_lt.mpr hFits)]
      exact ⟨_, rfl⟩
  case writes =>
    intro cs col hCol
    rcases ofLetters_eq_ok_iff.mp hCol with
      ⟨-, hLetters, hNumber, -⟩
    refine ⟨hNumber, ?_⟩
    rw [letters, ← hNumber, lettersFromOne_number hLetters]
  case fits =>
    exact fun text cs =>
      readInWord?_eq text (Nat.zero_le _) cs
  case order =>
    intro cs ds a b ha hb
    rcases ofLetters_eq_ok_iff.mp ha with
      ⟨-, hcs, hcsNumber, -⟩
    rcases ofLetters_eq_ok_iff.mp hb with
      ⟨-, hds, hdsNumber, -⟩
    rw [← number_lt_iff hcs hds, hcsNumber, hdsNumber,
      Nat.add_lt_add_iff_right, UInt32.lt_iff_toNat_lt]

/-
  The last column that has a name, the number after it, the
  letters after its name, and the step from two letters to
  three.
-/
theorem letters_exact_limits :
    ofLetters (letters 4294967294).toList = .ok 4294967294
      ∧ ofLetters (letters 4294967295).toList =
        .error (.tooLarge (letters 4294967295))
      ∧ letters 4294967294 = String.ofList "MWLQKWU".toList
      ∧ ((∃ col, ofLetters "MWLQKWV".toList = .ok col) ↔
        positional "MWLQKWV".toList ≤ 2 ^ 32 - 1)
      ∧ ((701 : UInt32) < 702 ↔
        SpelledBefore "ZZ".toList "AAA".toList) := by
  rcases letters_exact with
    ⟨reads, refuses, accepts, writes, -, order⟩
  exact ⟨reads _ (by decide), refuses _ (by decide),
    (writes _ _ (by decide)).2,
    accepts _ (by decide) (List.all_eq_true.mp rfl),
    order _ _ _ _ (by decide) (by decide)⟩

end Column

end Spreadsheet
