import Spreadsheet.Json.Quoted

/-
  Quoted text reads back. Every character is written so that
  it is taken as one code, and codes of whole characters are
  never halves of one, so they stand for the characters that
  were quoted.

  Main declarations:
    * `Json.Quoted.takeCodes?_flatMap_escape`
    * `Json.Quoted.ofCodes?_toNat`
-/

namespace Spreadsheet

namespace Json

namespace Quoted

------------------------------------------------------------
-- Escapes
------------------------------------------------------------

/- A code in front of those that are taken from a rest. -/
def withCode
    (code : Nat)
    (taken : Option (List Nat × List Char)) :
    Option (List Nat × List Char) :=
  taken.bind fun p => some (code :: p.1, p.2)

/- A code of two characters. -/
theorem takeCodes?_short
    {letter : Char}
    {code : Nat}
    (rest : List Char)
    (hNot : letter ≠ 'u')
    (hCode : escaped? letter = some code) :
    takeCodes? ('\\' :: letter :: rest)
      = withCode code (takeCodes? rest) := by
  rw [takeCodes?, hCode]
  · rfl
  · exact fun a b c d rest hLetter _ => hNot hLetter

/- A code of six characters. -/
theorem takeCodes?_long
    {a b c d : Char}
    {code : Nat}
    (rest : List Char)
    (hCode : unit? [a, b, c, d] = some code) :
    takeCodes? ('\\' :: 'u' :: a :: b :: c :: d :: rest)
      = withCode code (takeCodes? rest) := by
  rw [takeCodes?, hCode]
  rfl

/- A character that stands for itself. -/
theorem takeCodes?_plain
    {c : Char}
    (rest : List Char)
    (hQuote : c ≠ '"')
    (hBackslash : c ≠ '\\')
    (hPlain : ¬ c.toNat < firstPlain) :
    takeCodes? (c :: rest)
      = withCode c.toNat (takeCodes? rest) := by
  rw [takeCodes?, if_neg hPlain]
  · rfl
  · exact hQuote
  · exact fun a b c d rest hc _ => hBackslash hc
  · exact fun a rest hc _ => hBackslash hc

/- The four digits written for an early character. -/
theorem unit?_digitChar
    {n : Nat}
    (hn : n < firstPlain) :
    unit?
      ['0', '0', (n / 16).digitChar, (n % 16).digitChar]
      = some n := by
  have hAll :
      ∀ i : Fin 32,
        unit?
          ['0', '0', (i.val / 16).digitChar,
            (i.val % 16).digitChar] = some i.val := by
    decide
  exact hAll ⟨n, hn⟩

/- What is written for a character is taken as its code. -/
theorem takeCodes?_escape
    (c : Char)
    (rest : List Char) :
    takeCodes? (escape c ++ rest)
      = withCode c.toNat (takeCodes? rest) := by
  unfold escape
  split
  iterate 7 exact takeCodes?_short rest (by decide) rfl
  next hQuote hBackslash _ _ _ _ _ =>
    split
    · next hEarly =>
        exact takeCodes?_long rest (unit?_digitChar hEarly)
    · next hPlain =>
        exact takeCodes?_plain rest
          hQuote hBackslash hPlain

/- What is written for characters, and the closing quote. -/
theorem takeCodes?_flatMap_escape
    (cs rest : List Char) :
    takeCodes? (cs.flatMap escape ++ '"' :: rest)
      = some (cs.map Char.toNat, rest) := by
  induction cs with
  | nil => simp [takeCodes?]
  | cons c cs ih =>
      rw [List.flatMap_cons, List.append_assoc,
        takeCodes?_escape, ih]
      rfl

------------------------------------------------------------
-- Characters
------------------------------------------------------------

/- No character is half of another one. -/
theorem not_isHalf
    (c : Char) :
    isFirstHalf c.toNat = false
      ∧ isSecondHalf c.toNat = false := by
  have hValid : c.toNat < 0xD800
      ∨ (0xDFFF < c.toNat ∧ c.toNat < 0x110000) :=
    c.valid
  unfold isFirstHalf isSecondHalf
  simp only [Bool.and_eq_false_iff, decide_eq_false_iff_not]
  omega

/- The codes of characters stand for those characters. -/
theorem ofCodes?_toNat
    (cs : List Char) :
    ofCodes? (cs.map Char.toNat) = some cs := by
  induction cs with
  | nil => rfl
  | cons c cs ih =>
      rcases not_isHalf c with ⟨hFirst, hSecond⟩
      cases cs with
      | nil =>
          simp [ofCodes?, hFirst, hSecond, Char.ofNat_toNat]
      | cons d cs =>
          simp only [List.map_cons] at ih ⊢
          simp [ofCodes?, hFirst, hSecond, ih,
            Char.ofNat_toNat]

end Quoted

end Json

end Spreadsheet
