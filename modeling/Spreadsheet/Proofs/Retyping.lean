import Mathlib
import Spreadsheet.Proofs.NumberLayout

/-
  Typing what an edit stored. The text of an edit is the
  source of a formula, or the text of a value, or empty if
  the cell is cleared. Typed as input, it is the same edit
  again, however the first input was spelled. Numbers are
  compared as doubles are, since the sign of zero is not
  written.

  Key definitions include:
    * `Edit.text`
    * `Edit.Same`

  The main result is `Edit.classify_text_classify`.
-/

namespace Spreadsheet

variable {x : Float}
variable {cs : List Char}

------------------------------------------------------------
-- Numbers That Are Read
------------------------------------------------------------

namespace Numeral

/- A numeral without a sign is positive, and not NaN. -/
theorem isNaN_value
    (n : Numeral) : n.value.isNaN = false := by
  have hInfinity : Binary64.infinityBits = 2047 * 2 ^ 52 := rfl
  have hSigned
      (negative : Bool)
      {bits : Nat}
      (hBits : bits ≤ Binary64.infinityBits) :
      (Binary64.signed negative
        (Float.ofBits bits.toUInt64)).isNaN = false := by
    apply Binary64.isNaN_signed
    · exact Binary64.isNaN_ofBits hBits
    · rw [Binary64.toNat_toBits_ofBits hBits]
      omega
  cases n with
  | blank => decide
  | radix base digits =>
      exact (Binary64.isNearest_ofNat _).isNaN_eq_false
  | infinity negative => exact hSigned negative le_rfl
  | decimal negative d =>
      rcases d.exists_roundsTo_value with
        ⟨bits, hRounds, hValue⟩
      rw [value, hValue]
      exact hSigned negative hRounds.le_infinityBits

end Numeral

/- No text stands for NaN. -/
theorem isNaN_of_parseNumber
    {text : String}
    (h : parseNumber text = some x) : x.isNaN = false := by
  rcases parseNumber_eq_some_iff.mp h with ⟨n, -, rfl⟩
  exact n.isNaN_value

------------------------------------------------------------
-- Texts Of Numbers
------------------------------------------------------------

/-
  The text of a number is a numeral that stands for it, or
  for the other zero.
-/
theorem exists_written_formatNumber
    (hNumber : x.isNaN = false) :
    ∃ (cs : List Char) (n : Numeral),
      formatNumber x = String.ofList cs
        ∧ cs ≠ [] ∧ n.Written cs
        ∧ (n.value == x) = true := by
  cases hInf : x.isInf with
  | true =>
      have hSame := Binary64.signed_infinity_beq hInf
      rw [formatNumber, hNumber, hInf,
        if_neg Bool.false_ne_true, if_pos rfl]
      by_cases hPositive : 0 < x
      · rw [decide_eq_true hPositive] at hSame
        rw [if_pos hPositive]
        exact ⟨_, _, (String.ofList_toList).symm, by decide,
          .infinity .unsigned, hSame⟩
      · rw [decide_eq_false hPositive] at hSame
        rw [if_neg hPositive]
        exact ⟨_, _, (String.ofList_toList).symm, by decide,
          .infinity .minus, hSame⟩
  | false =>
      have hFinite := Binary64.isFinite_iff.mpr ⟨hNumber, hInf⟩
      cases hZero : x == 0 with
      | true =>
          let zero :=
            PlainNumeral.ofWhole ['0'] (areDigits_zeros 1)
              (List.cons_ne_nil _ _)
          rw [formatNumber, hNumber, hInf, hZero,
            if_neg Bool.false_ne_true,
            if_neg Bool.false_ne_true, if_pos rfl]
          exact ⟨['0'], _, rfl, by decide,
            .decimal .unsigned zero .absent,
            Binary64.zero_beq hZero⟩
      | false =>
          have hWellFormed :=
            (cellForm_rounds hFinite hZero).1
          rcases layout_exact hWellFormed with
            ⟨n, tail, e, hBody, hTail, hValue, -⟩
          refine ⟨NumberStyle.sign x ++ (n.chars ++ tail), _,
            ?_, ?_, .decimal (signed_sign x) n hTail, ?_⟩
          · rw [formatNumber_of_isFinite hFinite hZero, hBody]
          · simp [n.chars_ne_nil]
          · rw [value_eq_of_toRat hFinite hZero hValue]
            exact Binary64.beq_self hNumber

/- So all numbers are read from their texts. -/
theorem exists_parseNumber_formatNumber
    (hNumber : x.isNaN = false) :
    ∃ y, parseNumber (formatNumber x) = some y
      ∧ (y == x) = true := by
  rcases exists_written_formatNumber hNumber with
    ⟨cs, n, hText, -, hWritten, hSame⟩
  exact ⟨n.value, hText ▸ parseNumber_of_written hWritten,
    hSame⟩

------------------------------------------------------------
-- Typing Again
------------------------------------------------------------

namespace Edit

/- What is shown for editing once an edit is stored. -/
def text : Edit → String
  | clear => ""
  | formula source => source
  | literal value => value.toText

/- Equal edits, with numbers compared as doubles are. -/
inductive Same : Edit → Edit → Prop
  | number
      {x y : Float}
      (h : (x == y) = true) :
      Same (literal (.number x)) (literal (.number y))
  | other
      {e : Edit}
      (h : ∀ x, e ≠ literal (.number x)) :
      Same e e

/- Only what is left without blanks around it matters. -/
theorem classify_trim
    (raw : String) :
    classify (String.ofList (Blank.trim raw.toList)) =
      classify raw := by
  have hTwice :
      Blank.trim (Blank.trim raw.toList) =
        Blank.trim raw.toList :=
    Blank.trimBy_trimBy (fun _ hBlank => hBlank) raw.toList
  simp only [classify, String.toList_ofList, hTwice]

/- A numeral that is typed is a number. -/
theorem classify_of_written
    {n : Numeral}
    (hNe : cs ≠ [])
    (h : n.Written cs) :
    classify (String.ofList cs) =
      .literal (.number n.value) := by
  have hKept : ∀ c ∈ cs, Blank.isBlank c = false :=
    fun c hc => isBlank_of_visible (h.visible hc)
  have hTrim : Blank.trim cs = cs :=
    (Blank.trimmed_self hKept).eq_trimBy.symm
  unfold classify
  rw [String.toList_ofList, hTrim]
  dsimp only
  split
  · exact absurd rfl hNe
  · exact absurd rfl h.head_ne_equals
  · rw [parseNumber_of_written h]

/-
  The text of an edit is what was typed without the blanks
  around it, unless a number or a truth value was typed.
-/
theorem text_classify_cases
    (raw : String) :
    ((∀ x, classify raw ≠ literal (.number x))
        ∧ (classify raw).text =
          String.ofList (Blank.trim raw.toList))
      ∨ (∃ x, x.isNaN = false
        ∧ classify raw = literal (.number x))
      ∨ ∃ b, classify raw = literal (.boolean b) := by
  unfold classify
  generalize Blank.trim raw.toList = cs
  dsimp only
  split
  · exact .inl ⟨nofun, rfl⟩
  · exact .inl ⟨nofun, rfl⟩
  · split
    · next x hNumber =>
        have hNotNaN := isNaN_of_parseNumber hNumber
        exact .inr (.inl ⟨x, hNotNaN, rfl⟩)
    · split
      · exact .inr (.inr ⟨true, rfl⟩)
      · split
        · exact .inr (.inr ⟨false, rfl⟩)
        · exact .inl ⟨nofun, rfl⟩

/-
  An edit stays as it is when its text is typed again. What
  is not a number is stored as it is spelled, or as a truth
  value that is spelled in one way, and the text of a number
  is a numeral of that number.
-/
theorem classify_text_classify
    (raw : String) :
    Same (classify (classify raw).text) (classify raw) := by
  rcases text_classify_cases raw with
    ⟨hOther, hText⟩ | ⟨x, hNumber, hClassify⟩
      | ⟨b, hClassify⟩
  · rw [hText, classify_trim]
    exact .other hOther
  · rcases exists_written_formatNumber hNumber with
      ⟨cs, n, hFormat, hNe, hWritten, hSame⟩
    have hText :
        (literal (.number x)).text = String.ofList cs :=
      hFormat
    rw [hClassify, hText, classify_of_written hNe hWritten]
    exact .number hSame
  · have hAgain :
        classify (literal (.boolean b)).text =
          literal (.boolean b) := by
      cases b with
      | true => decide
      | false => decide
    rw [hClassify, hAgain]
    exact .other nofun

/- The text of a negative zero has no sign. -/
example : (classify "-0").text = "0" := by
  decide

end Edit

end Spreadsheet
