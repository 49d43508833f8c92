import Mathlib.Data.List.TakeWhile
import Spreadsheet.Proofs.ColumnLetters
import Spreadsheet.Proofs.DecimalDigits
import Spreadsheet.Range

/-
  The written form of addresses is exact: the texts that
  read as an address are the spellings with both numbers in
  range, reading gives what a spelling denotes, and writing
  is the inverse of reading up to zeros in front of the row.

  Both directions go through spellings. A text that is read
  splits into one, what is written for an address is one,
  and one lemma says what reading makes of a spelling,
  whether its numbers are in range or not.

  Main declarations:
    * `Address.Spelling`
    * `Address.Spelling.Denotes`
    * `Address.Spelling.parse_text`
    * `Address.exists_spelling`
    * `Range.parse_text_spanning`
    * `Address.codec_exact`
-/

namespace Spreadsheet

namespace Address

------------------------------------------------------------
-- Spellings
------------------------------------------------------------

/- The characters of an optional marker. -/
def markerChars
    (isMarked : Bool) : List Char :=
  if isMarked then ['$'] else []

/-
  The parts of a text that has the form of an address. The
  numbers may be too large and the row may be zero.
-/
structure Spelling where
  colMarked : Bool
  letters : List Char
  rowMarked : Bool
  digits : List Char
  letters_ne_nil : letters ≠ []
  areLetters : Column.AreLetters letters
  digits_ne_nil : digits ≠ []
  areDigits : Digit.AreDigits digits

namespace Spelling

/- The column counted from one. -/
def col
    (w : Spelling) : Nat :=
  Column.number w.letters

/- The row counted from one. -/
def row
    (w : Spelling) : Nat :=
  Digit.decimal w.digits

/- What follows the column letters. -/
def rowPart
    (w : Spelling) : List Char :=
  markerChars w.rowMarked ++ w.digits

def text
    (w : Spelling) : String :=
  String.ofList
    (markerChars w.colMarked ++ (w.letters ++ w.rowPart))

/- Both numbers are within their bounds. -/
structure InRange
    (w : Spelling) : Prop where
  col_le : w.col ≤ UInt32.size - 1
  row_pos : 1 ≤ w.row
  row_le : w.row ≤ UInt32.size - 1

/- An address counts from zero what a spelling denotes. -/
structure Denotes
    (w : Spelling)
    (a : Address) : Prop where
  row : a.row.toNat + 1 = w.row
  col : a.col.toNat + 1 = w.col
  rowAbsolute : a.rowAbsolute = w.rowMarked
  colAbsolute : a.colAbsolute = w.colMarked

end Spelling

------------------------------------------------------------
-- Markers
------------------------------------------------------------

theorem toList_marker
    (isMarked : Bool) :
    (marker isMarked).toList = markerChars isMarked := by
  cases isMarked <;> rfl

/- A marker is taken off what has no other one in front. -/
theorem takeMarker_append
    (isMarked : Bool)
    {cs : List Char}
    (hcs : cs.head? ≠ some '$') :
    takeMarker (markerChars isMarked ++ cs)
      = (isMarked, cs) := by
  cases isMarked with
  | true => rfl
  | false =>
      unfold takeMarker markerChars
      split
      · next rest heq =>
          simp only [Bool.false_eq_true, if_false,
            List.nil_append] at heq
          simp [heq] at hcs
      · rfl

/- What a marker is taken off. -/
theorem eq_markerChars_append
    (cs : List Char) :
    cs = markerChars (takeMarker cs).1
      ++ (takeMarker cs).2 := by
  unfold takeMarker
  split <;> rfl

/- A letter or a digit is no marker. -/
theorem head?_ne_marker
    {p : Char → Bool}
    (hp : p '$' = false)
    {cs : List Char}
    (hcs : ∀ c ∈ cs, p c = true) :
    cs.head? ≠ some '$' := by
  intro hHead
  have hTrue := hcs '$' (List.mem_of_mem_head? hHead)
  rw [hp] at hTrue
  exact Bool.noConfusion hTrue

------------------------------------------------------------
-- Reading A Spelling
------------------------------------------------------------

namespace Spelling

/-
  Characters of a class that has the letters and neither the
  marker nor digits are those of the column.
-/
theorem span_letters
    (w : Spelling)
    {p : Char → Bool}
    (hLetter : ∀ c, c.isUpper = true → p c = true)
    (hMarker : p '$' = false)
    (hDigit : ∀ c, c.isDigit = true → p c = false) :
    (w.letters ++ w.rowPart).takeWhile p = w.letters
      ∧ (w.letters ++ w.rowPart).dropWhile p
        = w.rowPart := by
  refine span_run
    (fun c hc => hLetter c (w.areLetters c hc)) ?_
  intro c hHead
  have hc : c = '$' ∨ c ∈ w.digits := by
    have hMem := List.mem_of_mem_head? hHead
    unfold rowPart markerChars at hMem
    cases hMark : w.rowMarked <;> simp_all
  rcases hc with rfl | hc
  · exact hMarker
  · exact hDigit c (w.areDigits c hc)

theorem toList_text
    (w : Spelling) :
    w.text.toList
      = markerChars w.colMarked ++ (w.letters ++ w.rowPart) :=
  String.toList_ofList

/-
  Reading takes a spelling apart: the first marker, the
  letters, the second marker and the digits.
-/
theorem takeMarker_text
    (w : Spelling) :
    takeMarker w.text.toList
      = (w.colMarked, w.letters ++ w.rowPart) := by
  rw [toList_text]
  apply takeMarker_append
  rcases List.exists_cons_of_ne_nil w.letters_ne_nil with
    ⟨c, rest, hCons⟩
  have hHead := head?_ne_marker (by decide) w.areLetters
  rw [hCons] at hHead ⊢
  exact hHead

theorem isUpper_eq_false
    (c : Char)
    (h : c.isDigit = true) : c.isUpper = false := by
  rw [Digit.isDigit_iff] at h
  rw [Bool.eq_false_iff, ne_eq, Column.isUpper_iff]
  omega

theorem takeWhile_letters
    (w : Spelling) :
    (w.letters ++ w.rowPart).takeWhile Char.isUpper
      = w.letters :=
  (w.span_letters (fun _ h => h) (by decide)
    isUpper_eq_false).1

theorem dropWhile_letters
    (w : Spelling) :
    (w.letters ++ w.rowPart).dropWhile Char.isUpper
      = w.rowPart :=
  (w.span_letters (fun _ h => h) (by decide)
    isUpper_eq_false).2

theorem takeMarker_rowPart
    (w : Spelling) :
    takeMarker w.rowPart = (w.rowMarked, w.digits) :=
  takeMarker_append w.rowMarked
    (head?_ne_marker (by decide) w.areDigits)

/- So no two spellings have one text. -/
theorem text_injective
    {w v : Spelling}
    (h : w.text = v.text) : w = v := by
  have hFirst := takeMarker_text w
  rw [h, takeMarker_text v, Prod.mk.injEq] at hFirst
  rcases hFirst with ⟨hColMarked, hRest⟩
  have hLetters := takeWhile_letters w
  rw [← hRest, takeWhile_letters v] at hLetters
  have hSecond := takeMarker_rowPart w
  rw [← dropWhile_letters w, ← hRest, dropWhile_letters v,
    takeMarker_rowPart v, Prod.mk.injEq] at hSecond
  rcases hSecond with ⟨hRowMarked, hDigits⟩
  cases w
  cases v
  simp_all

/- What reading makes of the row digits. -/
theorem rowOfDigits_digits
    (w : Spelling)
    (text : String) :
    rowOfDigits text w.digits =
      if lastRow < w.row then .error (.rowTooLarge text)
      else if w.row = 0 then .error (.rowZero text)
      else .ok (w.row - 1).toUInt32 := by
  have hAll : w.digits.all Char.isDigit = true :=
    List.all_eq_true.mpr w.areDigits
  unfold rowOfDigits
  rw [if_neg (by simp [w.digits_ne_nil]),
    if_neg (by simp [hAll])]
  rfl

/-
  What reading makes of a text with the form of an address.
  The column is checked before the row.
-/
theorem parse_text
    (w : Spelling) :
    parse w.text =
      if Column.largest < w.col then
        .error
          (.letters (.tooLarge (String.ofList w.letters)))
      else if lastRow < w.row then
        .error (.rowTooLarge w.text)
      else if w.row = 0 then .error (.rowZero w.text)
      else
        .ok ⟨(w.row - 1).toUInt32, (w.col - 1).toUInt32,
          w.rowMarked, w.colMarked⟩ := by
  have hCol :
      Column.ofLetters w.letters =
        if Column.largest < w.col then
          .error (.tooLarge (String.ofList w.letters))
        else .ok (w.col - 1).toUInt32 :=
    Column.ofLetters_of_areLetters
      w.letters_ne_nil w.areLetters
  unfold parse
  split
  · next hNil =>
      rw [toList_text] at hNil
      simp [w.letters_ne_nil] at hNil
  · simp only [takeMarker_text, takeWhile_letters,
      dropWhile_letters, takeMarker_rowPart, hCol,
      rowOfDigits_digits,
      List.isEmpty_eq_false_iff.mpr w.letters_ne_nil]
    by_cases hLarge : Column.largest < w.col
    · simp only [hLarge, if_true]
      rfl
    · by_cases hRow : lastRow < w.row
      · simp only [hLarge, hRow, if_true, if_false]
        rfl
      · by_cases hZero : w.row = 0
        · simp only [hLarge, hZero, if_true, if_false]
          rfl
        · simp only [hLarge, hRow, hZero, if_false]
          rfl

/- A spelling in range reads as the address it denotes. -/
theorem exists_parse_text
    (w : Spelling)
    (hRange : w.InRange) :
    ∃ a : Address, parse w.text = .ok a := by
  have hCol : ¬ Column.largest < w.col :=
    Nat.not_lt.mpr hRange.col_le
  have hRow : ¬ lastRow < w.row :=
    Nat.not_lt.mpr hRange.row_le
  have hZero : w.row ≠ 0 :=
    Nat.one_le_iff_ne_zero.mp hRange.row_pos
  rw [parse_text, if_neg hCol, if_neg hRow, if_neg hZero]
  exact ⟨_, rfl⟩

/- Only spellings in range are read. -/
theorem inRange_of_parse_text
    {w : Spelling}
    {a : Address}
    (hParse : parse w.text = .ok a) :
    w.InRange ∧ w.Denotes a := by
  rw [parse_text] at hParse
  split at hParse
  · simp at hParse
  · next hCol =>
      split at hParse
      · simp at hParse
      · next hRow =>
          split at hParse
          · simp at hParse
          · next hZero =>
              have hColPos : 0 < w.col :=
                Column.number_pos w.letters_ne_nil
              simp only [Except.ok.injEq] at hParse
              have hSize : UInt32.size = 4294967296 := rfl
              simp only [Column.largest, lastRow] at hCol hRow
              subst hParse
              refine ⟨⟨by omega, by omega, by omega⟩,
                ?_, ?_, rfl, rfl⟩
              · simp only [Nat.toUInt32,
                  UInt32.toNat_ofNat']
                omega
              · simp only [Nat.toUInt32,
                  UInt32.toNat_ofNat']
                omega

end Spelling

/- The row digits of a text that is read. -/
theorem areDigits_of_rowOfDigits
    {text : String}
    {digits : List Char}
    {row : UInt32}
    (h : rowOfDigits text digits = .ok row) :
    digits ≠ [] ∧ Digit.AreDigits digits := by
  unfold rowOfDigits at h
  split at h
  · simp at h
  · next hNe =>
      split at h
      · simp at h
      · next hAll =>
          refine ⟨by simpa using hNe, ?_⟩
          simpa [Digit.AreDigits] using hAll

/- A text that reads as an address is a spelling. -/
theorem exists_spelling
    {text : String}
    {a : Address}
    (hParse : parse text = .ok a) :
    ∃ w : Spelling, w.text = text := by
  unfold parse at hParse
  split at hParse
  · simp at hParse
  · have hFirst := eq_markerChars_append text.toList
    rcases hMark : takeMarker text.toList with
      ⟨colMarked, cs⟩
    simp only [hMark] at hParse hFirst
    split at hParse
    · simp at hParse
    · next hNe =>
        split at hParse
        · simp at hParse
        · have hSecond :=
            eq_markerChars_append
              (cs.dropWhile Char.isUpper)
          rcases hRest :
              takeMarker (cs.dropWhile Char.isUpper) with
            ⟨rowMarked, digits⟩
          simp only [hRest] at hParse hSecond
          split at hParse
          · simp at hParse
          · next hRow =>
              rcases areDigits_of_rowOfDigits hRow with
                ⟨hDigitsNe, hDigits⟩
              refine ⟨
                { colMarked := colMarked
                  letters := cs.takeWhile Char.isUpper
                  rowMarked := rowMarked
                  digits := digits
                  letters_ne_nil := by simpa using hNe
                  areLetters := fun c hc =>
                    List.mem_takeWhile_imp hc
                  digits_ne_nil := hDigitsNe
                  areDigits := hDigits }, ?_⟩
              unfold Spelling.text Spelling.rowPart
              apply String.toList_inj.mp
              rw [String.toList_ofList, ← hSecond,
                List.takeWhile_append_dropWhile, ← hFirst]

------------------------------------------------------------
-- Writing A Spelling
------------------------------------------------------------

/- The spelling that is written for an address. -/
def spelling
    (a : Address) : Spelling where
  colMarked := a.colAbsolute
  letters := Column.lettersFromOne (a.col.toNat + 1)
  rowMarked := a.rowAbsolute
  digits := Nat.toDigits 10 (a.row.toNat + 1)
  letters_ne_nil := by
    rw [Column.lettersFromOne_succ]
    simp
  areLetters := Column.areLetters_lettersFromOne _
  digits_ne_nil := Nat.toDigits_ne_nil
  areDigits := Digit.areDigits_toDigits _

theorem text_spelling
    (a : Address) : a.spelling.text = a.text := by
  apply String.toList_inj.mp
  simp only [spelling, Spelling.text, Spelling.rowPart,
    text, String.toList_ofList, String.toList_append,
    toList_marker, Column.toList_letters, Nat.toString_eq_repr,
    Nat.toList_repr, List.append_assoc]

/- An address is what is written for it denotes. -/
theorem denotes_spelling
    (a : Address) : a.spelling.Denotes a :=
  ⟨(Digit.decimal_toDigits _).symm,
    (Column.number_lettersFromOne _).symm, rfl, rfl⟩

/- An address whose numbers can be read when written. -/
structure Fits
    (a : Address) : Prop where
  row_lt : a.row.toNat < UInt32.size - 1
  col_lt : a.col.toNat < UInt32.size - 1

/- Whether an address fits does not depend on its markers. -/
theorem fits_relative
    (a : Address) : a.relative.Fits ↔ a.Fits :=
  ⟨fun h => ⟨h.row_lt, h.col_lt⟩,
    fun h => ⟨h.row_lt, h.col_lt⟩⟩

theorem inRange_spelling_iff
    (a : Address) : a.spelling.InRange ↔ a.Fits := by
  have hRow := (denotes_spelling a).row
  have hCol := (denotes_spelling a).col
  constructor
  · rintro ⟨hColLe, -, hRowLe⟩
    exact ⟨by omega, by omega⟩
  · rintro ⟨hRowLt, hColLt⟩
    exact ⟨by omega, by omega, by omega⟩

/- A spelling denotes one address. -/
theorem Spelling.Denotes.unique
    {w : Spelling}
    {a b : Address}
    (ha : w.Denotes a)
    (hb : w.Denotes b) : a = b := by
  have hRow : a.row = b.row :=
    UInt32.toNat_inj.mp
      (Nat.succ.inj (ha.row.trans hb.row.symm))
  have hCol : a.col = b.col :=
    UInt32.toNat_inj.mp
      (Nat.succ.inj (ha.col.trans hb.col.symm))
  have hRowAbsolute := ha.rowAbsolute.trans hb.rowAbsolute.symm
  have hColAbsolute := ha.colAbsolute.trans hb.colAbsolute.symm
  cases a
  cases b
  simp_all

/- What is written reads back while both numbers fit. -/
theorem parse_text_of_fits
    {a : Address}
    (ha : a.Fits) : parse a.text = .ok a := by
  rw [← text_spelling]
  rcases a.spelling.exists_parse_text
      ((inRange_spelling_iff a).mpr ha) with ⟨b, hb⟩
  have hDenotes := (Spelling.inRange_of_parse_text hb).2
  rw [hb, hDenotes.unique (denotes_spelling a)]

/- Nothing else that is written can be read. -/
theorem fits_of_parse_text
    {a b : Address}
    (hParse : parse a.text = .ok b) : a.Fits := by
  rw [← text_spelling] at hParse
  exact (inRange_spelling_iff a).mp
    (Spelling.inRange_of_parse_text hParse).1

/- What was read can be written and read again. -/
theorem fits_of_parse
    {text : String}
    {a : Address}
    (hParse : parse text = .ok a) : a.Fits := by
  rcases exists_spelling hParse with ⟨w, rfl⟩
  rcases Spelling.inRange_of_parse_text hParse with
    ⟨hRange, hDenotes⟩
  have hRow := hDenotes.row.trans_le hRange.row_le
  have hCol := hDenotes.col.trans_le hRange.col_le
  exact ⟨by omega, by omega⟩

------------------------------------------------------------
-- Zeros In Front Of The Row
------------------------------------------------------------

/-
  A text without the zeros in front of its digits. Digits
  come last in an address.
-/
def withoutRowZeros
    (text : String) : String :=
  let digits := text.toList.dropWhile (!·.isDigit)
  String.ofList
    (text.toList.takeWhile (!·.isDigit)
      ++ digits.dropWhile (· == '0'))

namespace Spelling

/- What comes before the row digits holds no digit. -/
theorem not_isDigit_front
    (w : Spelling) :
    ∀ c ∈ markerChars w.colMarked
        ++ (w.letters ++ markerChars w.rowMarked),
      (!c.isDigit) = true := by
  have hMarker :
      ∀ (m : Bool), ∀ c ∈ markerChars m,
        (!c.isDigit) = true := by
    intro m c hc
    cases m with
    | true =>
        rw [List.mem_singleton.mp hc]
        decide
    | false => exact absurd hc List.not_mem_nil
  intro c hc
  rcases List.mem_append.mp hc with hc | hc
  · exact hMarker _ c hc
  · rcases List.mem_append.mp hc with hc | hc
    · have hUpper :=
        (Column.isUpper_iff c).mp (w.areLetters c hc)
      have hNot : ¬ c.isDigit = true := by
        rw [Digit.isDigit_iff]
        omega
      simpa using hNot
    · exact hMarker _ c hc

/- Only the digits of a spelling lose their zeros. -/
theorem withoutRowZeros_text
    (w : Spelling) :
    withoutRowZeros w.text
      = String.ofList
        (markerChars w.colMarked
          ++ (w.letters ++ markerChars w.rowMarked)
          ++ w.digits.dropWhile (· == '0')) := by
  have hChars :
      w.text.toList
        = (markerChars w.colMarked
            ++ (w.letters ++ markerChars w.rowMarked))
          ++ w.digits := by
    simp only [text, rowPart, String.toList_ofList,
      List.append_assoc]
  have hDigits :
      w.digits.takeWhile (!·.isDigit) = []
        ∧ w.digits.dropWhile (!·.isDigit) = w.digits := by
    rcases hRest : w.digits with - | ⟨c, rest⟩
    · exact ⟨rfl, rfl⟩
    · have hc := w.areDigits c (by simp [hRest])
      simp [hc]
  unfold withoutRowZeros
  rw [hChars,
    List.takeWhile_append_of_pos w.not_isDigit_front,
    List.dropWhile_append_of_pos w.not_isDigit_front,
    hDigits.1, hDigits.2, List.append_nil]

end Spelling

/- Writing what was read drops zeros and nothing else. -/
theorem text_of_parse
    {text : String}
    {a : Address}
    (hParse : parse text = .ok a) :
    a.text = withoutRowZeros text := by
  rcases exists_spelling hParse with ⟨w, rfl⟩
  rcases Spelling.inRange_of_parse_text hParse with
    ⟨hRange, hDenotes⟩
  have hLetters :
      Column.lettersFromOne (a.col.toNat + 1)
        = w.letters := by
    rw [hDenotes.col]
    exact Column.lettersFromOne_number w.areLetters
  have hDigits :
      Nat.toDigits 10 (a.row.toNat + 1)
        = w.digits.dropWhile (· == '0') := by
    rw [hDenotes.row]
    exact Digit.toDigits_decimal w.areDigits hRange.row_pos
  rw [← text_spelling, Spelling.withoutRowZeros_text]
  simp only [spelling, Spelling.text, Spelling.rowPart,
    hLetters, hDigits, hDenotes.rowAbsolute,
    hDenotes.colAbsolute, List.append_assoc]

/-
  No two addresses are written alike, also where what is
  written cannot be read.
-/
theorem text_injective
    {a b : Address}
    (h : a.text = b.text) : a = b := by
  rw [← text_spelling, ← text_spelling] at h
  have hSpelling := Spelling.text_injective h
  have ha := denotes_spelling a
  rw [hSpelling] at ha
  exact ha.unique (denotes_spelling b)

/- There is no colon in what is written for an address. -/
theorem colon_not_mem_text
    (a : Address) : ':' ∉ a.text.toList := by
  have hMarker : ∀ m : Bool, ':' ∉ markerChars m := by
    decide
  have hLetters : ':' ∉ a.spelling.letters :=
    fun h => absurd (a.spelling.areLetters _ h) (by decide)
  have hDigits : ':' ∉ a.spelling.digits :=
    fun h => absurd (a.spelling.areDigits _ h) (by decide)
  rw [← text_spelling, Spelling.toList_text]
  simp only [Spelling.rowPart, List.mem_append, not_or]
  exact ⟨hMarker _, hLetters, hMarker _, hDigits⟩

end Address

------------------------------------------------------------
-- Ranges
------------------------------------------------------------

namespace Range

/- A range spans its own corners. -/
theorem spanning_corners
    (r : Range) : spanning r.start r.stop = r := by
  have hMinRow : min r.start.row r.stop.row = r.start.row :=
    if_pos r.row_le
  have hMinCol : min r.start.col r.stop.col = r.start.col :=
    if_pos r.col_le
  have hMaxRow : max r.start.row r.stop.row = r.stop.row :=
    if_pos r.row_le
  have hMaxCol : max r.start.col r.stop.col = r.stop.col :=
    if_pos r.col_le
  simp only [spanning, hMinRow, hMinCol, hMaxRow, hMaxCol]

/- What holds of two words holds of the lesser one. -/
theorem min_cases
    {p : UInt32 → Prop}
    {x y : UInt32}
    (hx : p x)
    (hy : p y) : p (min x y) := by
  by_cases h : x ≤ y
  · rwa [show min x y = x from if_pos h]
  · rwa [show min x y = y from if_neg h]

/- What holds of two words holds of the greater one. -/
theorem max_cases
    {p : UInt32 → Prop}
    {x y : UInt32}
    (hx : p x)
    (hy : p y) : p (max x y) := by
  by_cases h : x ≤ y
  · rwa [show max x y = y from if_pos h]
  · rwa [show max x y = x from if_neg h]

/- The corners of a spanned range fit if both ends do. -/
theorem fits_spanning
    {a b : Address}
    (ha : a.Fits)
    (hb : b.Fits) :
    (spanning a b).start.Fits
      ∧ (spanning a b).stop.Fits := by
  let below (x : UInt32) : Prop := x.toNat < UInt32.size - 1
  exact ⟨
    ⟨min_cases (p := below) ha.row_lt hb.row_lt,
      min_cases (p := below) ha.col_lt hb.col_lt⟩,
    ⟨max_cases (p := below) ha.row_lt hb.row_lt,
      max_cases (p := below) ha.col_lt hb.col_lt⟩⟩

/- A written range reads back if its corners do. -/
theorem parse_text_of_fits
    {r : Range}
    (hStart : r.start.Fits)
    (hStop : r.stop.Fits) : parse r.text = .ok r := by
  have hChars :
      r.text.toList
        = r.start.text.toList ++ ':' :: r.stop.text.toList := by
    simp [text, String.toList_append]
  have hFirst :
      ∀ c ∈ r.start.text.toList,
        decide (c ≠ ':') = true := by
    intro c hc
    have hNe : c ≠ ':' :=
      fun h => Address.colon_not_mem_text r.start (h ▸ hc)
    exact decide_eq_true hNe
  have hSecond : r.stop.text.toList.contains ':' = false := by
    simpa using Address.colon_not_mem_text r.stop
  have hDrop :
      r.text.toList.dropWhile (· ≠ ':')
        = ':' :: r.stop.text.toList := by
    rw [hChars, List.dropWhile_append_of_pos hFirst]
    rfl
  have hTake :
      r.text.toList.takeWhile (· ≠ ':')
        = r.start.text.toList := by
    rw [hChars, List.takeWhile_append_of_pos hFirst]
    simp
  simp only [parse, hDrop, hTake, hSecond,
    Bool.false_eq_true, if_false, String.ofList_toList,
    Address.parse_text_of_fits hStart,
    Address.parse_text_of_fits hStop, spanning_corners]

end Range

------------------------------------------------------------
-- The Codec
------------------------------------------------------------

namespace Address

/-
  The written form of addresses is exact. A text reads as an
  address if and only if it is a spelling in range, and then
  as the address that the spelling denotes. What is written
  for an address reads back if both its numbers fit, and is
  refused otherwise. Writing what was read gives the text
  without zeros in front of its row, no two addresses are
  written alike, and a range between addresses that fit
  reads back.
-/
theorem codec_exact :
    (∀ text : String,
      (∃ a : Address, parse text = .ok a)
        ↔ ∃ w : Spelling, w.text = text ∧ w.InRange)
    ∧ (∀ (w : Spelling) (a : Address),
      parse w.text = .ok a → w.Denotes a)
    ∧ (∀ a : Address, a.Fits → parse a.text = .ok a)
    ∧ (∀ a : Address, ¬ a.Fits →
      ∃ fault : Fault, parse a.text = .error fault)
    ∧ (∀ (text : String) (a : Address),
      parse text = .ok a → a.text = withoutRowZeros text)
    ∧ (∀ a b : Address, a.text = b.text → a = b)
    ∧ (∀ a b : Address, a.Fits → b.Fits →
      Range.parse (Range.spanning a b).text
        = .ok (Range.spanning a b)) := by
  refine ⟨?reads, ?denotes, ?fits, ?refuses, ?zeros,
    ?injective, ?ranges⟩
  case reads =>
    intro text
    constructor
    · rintro ⟨a, hParse⟩
      rcases exists_spelling hParse with ⟨w, rfl⟩
      exact ⟨w, rfl,
        (Spelling.inRange_of_parse_text hParse).1⟩
    · rintro ⟨w, rfl, hRange⟩
      exact w.exists_parse_text hRange
  case denotes =>
    exact fun w a hParse =>
      (Spelling.inRange_of_parse_text hParse).2
  case fits => exact fun a ha => parse_text_of_fits ha
  case refuses =>
    intro a ha
    rcases hParse : parse a.text with fault | b
    · exact ⟨fault, rfl⟩
    · exact absurd (fits_of_parse_text hParse) ha
  case zeros => exact fun text a hParse => text_of_parse hParse
  case injective => exact fun a b h => text_injective h
  case ranges =>
    intro a b ha hb
    rcases Range.fits_spanning ha hb with ⟨hStart, hStop⟩
    exact Range.parse_text_of_fits hStart hStop

/-
  Markers and zeros, the last cell that reads back, a cell
  past it, and a range given by its other two corners.
-/
theorem codec_limits :
    (∃ w : Spelling, w.text = "$AB$007" ∧ w.InRange)
    ∧ (absolute 6 27).text = withoutRowZeros "$AB$007"
    ∧ parse (ofPosition 4294967294 4294967294).text
      = .ok (ofPosition 4294967294 4294967294)
    ∧ (∃ fault : Fault,
      parse (ofPosition 0 4294967295).text = .error fault)
    ∧ Range.parse
        (Range.spanning (ofPosition 2 1) (absolute 0 3)).text
      = .ok (Range.spanning (ofPosition 2 1) (absolute 0 3))
    := by
  have hParse :
      parse "$AB$007" = .ok (absolute 6 27) := by
    rfl
  rcases codec_exact with
    ⟨reads, -, fits, refuses, zeros, -, ranges⟩
  refine ⟨(reads _).mp ⟨_, hParse⟩, zeros _ _ hParse,
    fits _ ⟨by decide, by decide⟩,
    refuses _ fun h => absurd h.col_lt (by decide),
    ranges _ _ ⟨by decide, by decide⟩
      ⟨by decide, by decide⟩⟩

end Address

end Spreadsheet
