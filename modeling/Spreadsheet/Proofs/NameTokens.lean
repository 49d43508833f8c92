import Spreadsheet.Proofs.AddressCodec
import Spreadsheet.Proofs.FormulaGrammar
import Spreadsheet.Proofs.Trimming

/-
  Names in formulas. A run of name characters is one token,
  and it is a reference just in case the run, in upper case,
  has the form of an address. So every address that can be
  read from a text, in whatever case its letters are, is one
  token of a formula, and the address that is written reads
  back as a reference to it.

  Key definitions include:
    * `NameRun`
    * `upperCase`

  The main result is `references_are_spellings`.
-/

namespace Spreadsheet

------------------------------------------------------------
-- Name Characters
------------------------------------------------------------

/- Lower case letters are twenty-six characters in a row. -/
theorem isLower_iff
    (c : Char) :
    c.isLower = true ↔ 97 ≤ c.toNat ∧ c.toNat ≤ 122 := by
  unfold Char.isLower
  rw [Bool.and_eq_true, decide_eq_true_eq,
    decide_eq_true_eq, ge_iff_le, UInt32.le_iff_toNat_le,
    UInt32.le_iff_toNat_le]
  rfl

theorem isAlpha_iff
    (c : Char) :
    c.isAlpha = true ↔
      (65 ≤ c.toNat ∧ c.toNat ≤ 90)
        ∨ (97 ≤ c.toNat ∧ c.toNat ≤ 122) := by
  rw [Char.isAlpha, Bool.or_eq_true, Column.isUpper_iff,
    isLower_iff]

/- Upper case moves lower case letters and nothing else. -/
theorem toNat_toUpper
    (c : Char) :
    c.toUpper.toNat =
      if 97 ≤ c.toNat ∧ c.toNat ≤ 122 then c.toNat - 32
      else c.toNat := by
  have hLower := isLower_iff c
  unfold Char.isLower at hLower
  rw [Bool.and_eq_true, decide_eq_true_eq,
    decide_eq_true_eq] at hLower
  unfold Char.toUpper
  split
  · next h =>
      have hc := hLower.mp h
      rw [if_pos hc]
      change 97 ≤ c.val.toNat ∧ c.val.toNat ≤ 122 at hc
      change (c.val + 4294967264).toNat = c.val.toNat - 32
      rw [UInt32.toNat_add]
      change (c.val.toNat + 4294967264) % 4294967296 = _
      omega
  · next h => rw [if_neg fun hc => h (hLower.mpr hc)]

namespace Token

theorem startsName_iff
    (c : Char) :
    startsName c = true ↔
      c.toNat = 36 ∨ c.toNat = 95
        ∨ (65 ≤ c.toNat ∧ c.toNat ≤ 90)
        ∨ (97 ≤ c.toNat ∧ c.toNat ≤ 122) := by
  have hMarker : c = '$' ↔ c.toNat = 36 :=
    Char.toNat_inj.symm
  have hLine : c = '_' ↔ c.toNat = 95 :=
    Char.toNat_inj.symm
  simp only [startsName, Bool.or_eq_true, beq_iff_eq,
    isAlpha_iff, hMarker, hLine]
  omega

theorem continuesName_iff
    (c : Char) :
    continuesName c = true ↔
      startsName c = true
        ∨ (48 ≤ c.toNat ∧ c.toNat ≤ 57) := by
  rw [continuesName, Bool.or_eq_true, Digit.isDigit_iff]

/- Case does not matter to what is in a name. -/
theorem startsName_toUpper
    (c : Char) :
    startsName c.toUpper = startsName c := by
  rw [Bool.eq_iff_iff, startsName_iff, startsName_iff,
    toNat_toUpper]
  split <;> omega

theorem continuesName_toUpper
    (c : Char) :
    continuesName c.toUpper = continuesName c := by
  rw [Bool.eq_iff_iff, continuesName_iff, continuesName_iff,
    startsName_toUpper, toNat_toUpper, startsName_iff]
  split <;> omega

/- No blank starts a name. -/
theorem isBlank_of_startsName
    {c : Char}
    (h : startsName c = true) : Blank.isBlank c = false := by
  rw [startsName_iff] at h
  exact isBlank_of_visible (by omega)

end Token

------------------------------------------------------------
-- Tokens At The Front Of A Text
------------------------------------------------------------

variable {total : Nat}
variable {c : Char}
variable {blanks rest after : List Char}
variable {token : Token}

/- There are no others than blanks in an empty text. -/
theorem noBlanks :
    ∀ b ∈ ([] : List Char), Blank.isBlank b = true :=
  fun _ h => absurd h List.not_mem_nil

/- Blanks in front of another character are skipped. -/
theorem dropWhile_blanks
    (hBlanks : ∀ b ∈ blanks, Blank.isBlank b = true)
    (hc : Blank.isBlank c = false) :
    (blanks ++ c :: rest).dropWhile Blank.isBlank =
      c :: rest := by
  rw [List.dropWhile_append_of_pos hBlanks,
    List.dropWhile_cons, hc]
  rfl

/- The first token of a text, whatever blanks precede it. -/
theorem nextToken_of_take?
    (hBlanks : ∀ b ∈ blanks, Blank.isBlank b = true)
    (hc : Blank.isBlank c = false)
    (h : Token.take? c rest = some (token, after)) :
    nextToken total (blanks ++ c :: rest) =
      (.ok token, after) := by
  simp only [nextToken, dropWhile_blanks hBlanks hc, h]

namespace Tokens

/- Blanks are no tokens. -/
theorem ofRest_blanks
    (hBlanks : ∀ b ∈ blanks, Blank.isBlank b = true) :
    ofRest total blanks = done := by
  have hNil : blanks.dropWhile Blank.isBlank = [] :=
    List.dropWhile_eq_nil_iff.mpr hBlanks
  rw [ofRest]
  split
  · rfl
  · next c rest hCons =>
      rw [hNil] at hCons
      cases hCons

/- The tokens of a text are the first and those after it. -/
theorem ofRest_of_take?
    (hBlanks : ∀ b ∈ blanks, Blank.isBlank b = true)
    (hc : Blank.isBlank c = false)
    (h : Token.take? c rest = some (token, after)) :
    ofRest total (blanks ++ c :: rest) =
      next token (ofRest total after) := by
  have hDrop :
      (blanks ++ c :: rest).dropWhile Blank.isBlank =
        c :: rest :=
    dropWhile_blanks hBlanks hc
  rw [ofRest]
  split
  · next hNil =>
      rw [hDrop] at hNil
      cases hNil
  · next c' rest' hCons =>
      rw [hDrop] at hCons
      cases hCons
      split
      · next token' after' hTake =>
          rw [h] at hTake
          cases hTake
          rfl
      · next hTake =>
          rw [h] at hTake
          cases hTake

end Tokens

------------------------------------------------------------
-- Names
------------------------------------------------------------

/- No name starts like other tokens. -/
theorem Token.punctuation?_of_startsName
    (h : startsName c = true) : punctuation? c = none := by
  unfold punctuation?
  split <;> first | exact absurd h (by decide) | rfl

theorem BinaryOperator.ofChars?_of_startsName
    (h : Token.startsName c = true)
    (rest : List Char) : ofChars? (c :: rest) = none := by
  unfold ofChars?
  split <;> first | rfl | skip
  all_goals
    next hEq =>
      cases hEq
      exact absurd h (by decide)

theorem BinaryOperator.take?_of_startsName
    (h : Token.startsName c = true)
    (rest : List Char) : take? (c :: rest) = none := by
  cases rest with
  | nil => simp [take?, ofChars?_of_startsName h]
  | cons d rest => simp [take?, ofChars?_of_startsName h]

theorem Token.startsNumber_of_startsName
    (h : startsName c = true)
    (rest : List Char) : startsNumber c rest = false := by
  have hPoint : c = '.' ↔ c.toNat = 46 :=
    Char.toNat_inj.symm
  have hDigit := Digit.isDigit_iff c
  rw [startsName_iff] at h
  rw [startsNumber, Bool.or_eq_false_iff,
    Bool.and_eq_false_iff]
  refine ⟨Bool.eq_false_iff.mpr fun hc => ?_,
    Or.inl (beq_eq_false_iff_ne.mpr fun hc => ?_)⟩
  · rw [hDigit] at hc
    omega
  · rw [hPoint] at hc
    omega

/- A text that no name goes on with. -/
def EndsName
    (rest : List Char) : Prop :=
  ∀ c, rest.head? = some c → Token.continuesName c = false

/-
  A run of characters that is one name: letters, digits, `_`
  and `$`, of which the first is no digit.
-/
structure NameRun where
  first : Char
  others : List Char
  starts : Token.startsName first = true
  continues : ∀ c ∈ others, Token.continuesName c = true

/- The text with small letters made capital. -/
def upperCase
    (cs : List Char) : List Char :=
  cs.map Char.toUpper

namespace NameRun

def chars
    (run : NameRun) : List Char :=
  run.first :: run.others

/- The name in upper case. -/
def name
    (run : NameRun) : String :=
  String.ofList (upperCase run.chars)

/- The whole run is one token. -/
theorem take?_append
    (run : NameRun)
    (hRest : EndsName rest) :
    Token.take? run.first (run.others ++ rest) =
      some (Token.ofName run.chars, rest) := by
  have hStart := run.starts
  have ⟨hTake, hDrop⟩ := span_run run.continues hRest
  have hQuote : run.first ≠ '"' := by
    intro hc
    rw [hc] at hStart
    exact absurd hStart (by decide)
  rw [Token.take?, Token.punctuation?_of_startsName hStart]
  dsimp only
  rw [if_neg hQuote,
    if_neg (Bool.eq_false_iff.mp
      (Token.startsNumber_of_startsName hStart _)),
    BinaryOperator.take?_of_startsName hStart]
  dsimp only
  rw [if_pos hStart, hTake, hDrop]
  rfl

end NameRun

------------------------------------------------------------
-- Shapes
------------------------------------------------------------

theorem isLower_of_mem_upperCase
    {cs : List Char}
    (h : c ∈ upperCase cs) : c.isLower = false := by
  rcases List.mem_map.mp h with ⟨d, -, rfl⟩
  rw [Bool.eq_false_iff, ne_eq, isLower_iff, toNat_toUpper]
  split <;> omega

namespace Token

theorem dropMarker_eq
    (cs : List Char) :
    dropMarker cs = (Address.takeMarker cs).2 := by
  cases cs with
  | nil => rfl
  | cons c rest =>
      by_cases hc : c = '$'
      · rw [hc]
        rfl
      · simp [dropMarker, Address.takeMarker, hc]

theorem isAlpha_eq_false
    (c : Char)
    (h : c.isDigit = true) : c.isAlpha = false := by
  rw [Digit.isDigit_iff] at h
  rw [Bool.eq_false_iff, ne_eq, isAlpha_iff]
  omega

/- Spellings of addresses have the shape of a reference. -/
theorem isReferenceShape_of_spelling
    (w : Address.Spelling) :
    isReferenceShape w.text.toList = true := by
  have ⟨hLetters, hRowPart⟩ := w.span_letters
    (p := Char.isAlpha)
    (fun c h => by rw [Char.isAlpha, h, Bool.true_or])
    (by decide) isAlpha_eq_false
  have hDigits : w.digits.all Char.isDigit = true :=
    List.all_eq_true.mpr w.areDigits
  unfold isReferenceShape
  simp only [dropMarker_eq, w.takeMarker_text, hLetters,
    hRowPart, w.takeMarker_rowPart, hDigits]
  simp [w.letters_ne_nil, w.digits_ne_nil]

/- Nothing else in upper case has. -/
theorem exists_spelling_of_isReferenceShape
    {cs : List Char}
    (hUpper : ∀ c ∈ cs, c.isLower = false)
    (h : isReferenceShape cs = true) :
    ∃ w : Address.Spelling, w.text = String.ofList cs := by
  have hCol := Address.eq_markerChars_append cs
  generalize hAfter : (Address.takeMarker cs).2 = after
    at hCol
  have hRow := Address.eq_markerChars_append
    (after.dropWhile Char.isAlpha)
  simp only [isReferenceShape, dropMarker_eq, hAfter,
    Bool.and_eq_true, Bool.not_eq_true',
    List.isEmpty_eq_false_iff, List.all_eq_true] at h
  have hLetters :
      Column.AreLetters (after.takeWhile Char.isAlpha) := by
    intro c hc
    have hMem : c ∈ cs := by
      rw [hCol]
      exact List.mem_append_right _
        ((List.takeWhile_prefix _).subset hc)
    have hAlpha := List.mem_takeWhile_imp hc
    rw [Char.isAlpha, hUpper c hMem, Bool.or_false] at hAlpha
    exact hAlpha
  refine ⟨⟨(Address.takeMarker cs).1,
    after.takeWhile Char.isAlpha,
    (Address.takeMarker (after.dropWhile Char.isAlpha)).1,
    (Address.takeMarker (after.dropWhile Char.isAlpha)).2,
    h.1.1, hLetters, h.1.2, h.2⟩, ?_⟩
  rw [Address.Spelling.text, Address.Spelling.rowPart, ← hRow,
    List.takeWhile_append_dropWhile, ← hCol]

/- So the name of a run says whether it is a reference. -/
theorem isReferenceShape_name_iff
    (run : NameRun) :
    isReferenceShape run.name.toList = true ↔
      ∃ w : Address.Spelling, w.text = run.name := by
  rw [NameRun.name, String.toList_ofList]
  constructor
  · exact exists_spelling_of_isReferenceShape
      fun _ => isLower_of_mem_upperCase
  · rintro ⟨w, hText⟩
    have hSpelling := isReferenceShape_of_spelling w
    rw [hText, String.toList_ofList] at hSpelling
    exact hSpelling

/- The token of a run, by its name. -/
theorem ofName_chars
    (run : NameRun) :
    ofName run.chars =
      if isReferenceShape run.name.toList then
        reference run.name
      else if run.name = "TRUE" then boolean true
      else if run.name = "FALSE" then boolean false
      else identifier run.name := by
  simp only [← String.toList_inj, NameRun.name,
    String.toList_ofList]
  rfl

theorem ofName_eq_reference_iff
    (run : NameRun)
    (name : String) :
    ofName run.chars = reference name ↔
      name = run.name
        ∧ ∃ w : Address.Spelling, w.text = name := by
  rw [ofName_chars]
  constructor
  · intro h
    split at h
    · next hShape =>
        cases h
        exact ⟨rfl, (isReferenceShape_name_iff run).mp hShape⟩
    · split at h
      · cases h
      · split at h <;> cases h
  · rintro ⟨rfl, hSpelling⟩
    rw [if_pos ((isReferenceShape_name_iff run).mpr
      hSpelling)]

/- A name of a function with digits after it is one too. -/
example : ofName "log10".toList = reference "LOG10" := by
  rfl

end Token

------------------------------------------------------------
-- Spellings As Names
------------------------------------------------------------

/- A whole text that is one name is one token. -/
theorem NameRun.tokens
    (run : NameRun) :
    Tokens.ofChars run.chars =
      .next (Token.ofName run.chars) .done := by
  have hEnds : EndsName [] := fun c h => by cases h
  have hTake := run.take?_append hEnds
  rw [List.append_nil] at hTake
  have hTokens :
      Tokens.ofRest run.chars.length
          ([] ++ run.first :: run.others) =
        .next (Token.ofName run.chars) (.ofRest _ []) :=
    Tokens.ofRest_of_take? noBlanks
      (Token.isBlank_of_startsName run.starts) hTake
  rw [Tokens.ofRest_blanks noBlanks] at hTokens
  exact hTokens

namespace Address

namespace Spelling

theorem mem_text
    (w : Spelling)
    (h : c ∈ w.text.toList) :
    c = '$' ∨ c.isUpper = true ∨ c.isDigit = true := by
  have hMarker :
      ∀ {m : Bool}, c ∈ markerChars m → c = '$' := by
    intro m hc
    cases m with
    | true => exact List.mem_singleton.mp hc
    | false => cases hc
  rw [toList_text] at h
  rcases List.mem_append.mp h with h | h
  · exact Or.inl (hMarker h)
  · rcases List.mem_append.mp h with h | h
    · exact Or.inr (Or.inl (w.areLetters c h))
    · rcases List.mem_append.mp h with h | h
      · exact Or.inl (hMarker h)
      · exact Or.inr (Or.inr (w.areDigits c h))

/- Spellings are written in upper case. -/
theorem upperCase_text
    (w : Spelling) :
    upperCase w.text.toList = w.text.toList := by
  refine (List.map_congr_left fun c hc => ?_).trans
    (List.map_id _)
  apply Char.toNat_inj.mp
  rw [toNat_toUpper, if_neg]
  · rfl
  · rcases w.mem_text hc with rfl | h | h
    · decide
    · rw [Column.isUpper_iff] at h
      omega
    · rw [Digit.isDigit_iff] at h
      omega

/- The first character of a spelling starts a name. -/
theorem startsName_head
    (w : Spelling)
    (h : w.text.toList.head? = some c) :
    Token.startsName c = true := by
  rcases List.exists_cons_of_ne_nil w.letters_ne_nil with
    ⟨letter, letters, hLetters⟩
  have hLetter := w.areLetters letter (by simp [hLetters])
  rw [toList_text, hLetters] at h
  cases hMark : w.colMarked with
  | true =>
      rw [hMark] at h
      cases h
      decide
  | false =>
      rw [hMark] at h
      cases h
      rw [Column.isUpper_iff] at hLetter
      rw [Token.startsName_iff]
      omega

/- In whatever case it is written, a spelling is a name. -/
theorem exists_run
    (w : Spelling)
    {cs : List Char}
    (h : upperCase cs = w.text.toList) :
    ∃ run : NameRun, run.chars = cs ∧ run.name = w.text := by
  have hChars : ∀ c ∈ cs, Token.continuesName c = true := by
    intro c hc
    have hMem : c.toUpper ∈ w.text.toList := by
      rw [← h]
      exact List.mem_map_of_mem hc
    rw [← Token.continuesName_toUpper,
      Token.continuesName_iff, Token.startsName_iff]
    rcases w.mem_text hMem with hc | hc | hc
    · rw [hc]
      decide
    · rw [Column.isUpper_iff] at hc
      omega
    · rw [Digit.isDigit_iff] at hc
      omega
  have hName : String.ofList (upperCase cs) = w.text := by
    rw [h, String.ofList_toList]
  cases cs with
  | nil =>
      have hNil := w.toList_text
      rw [← h] at hNil
      have hLetters := List.append_eq_nil_iff.mp hNil.symm
      exact absurd (List.append_eq_nil_iff.mp hLetters.2).1
        w.letters_ne_nil
  | cons c rest =>
      have hFirst : Token.startsName c.toUpper = true :=
        w.startsName_head (by rw [← h]; rfl)
      rw [Token.startsName_toUpper] at hFirst
      exact ⟨⟨c, rest, hFirst, fun d hd =>
        hChars d (List.mem_cons_of_mem c hd)⟩, rfl, hName⟩

/- So it is one token, the reference. -/
theorem tokens_of_upperCase
    (w : Spelling)
    {cs : List Char}
    (h : upperCase cs = w.text.toList) :
    Tokens.ofChars cs = .next (.reference w.text) .done := by
  rcases w.exists_run h with ⟨run, rfl, hName⟩
  rw [run.tokens,
    (Token.ofName_eq_reference_iff run w.text).mpr
      ⟨hName.symm, w, rfl⟩]

/- A number out of bounds is all that can be wrong. -/
theorem parse_text_error_iff
    (w : Spelling) :
    (∃ fault, parse w.text = .error fault) ↔
      w.row = 0 ∨ 2 ^ 32 - 1 < w.row
        ∨ 2 ^ 32 - 1 < w.col := by
  have hCol : Column.largest = 2 ^ 32 - 1 := rfl
  have hRow : lastRow = 2 ^ 32 - 1 := rfl
  rw [parse_text, hCol, hRow]
  split
  · next h => exact iff_of_true ⟨_, rfl⟩ (Or.inr (Or.inr h))
  · next hColLe =>
      split
      · next h =>
          exact iff_of_true ⟨_, rfl⟩ (Or.inr (Or.inl h))
      · next hRowLe =>
          split
          · next h => exact iff_of_true ⟨_, rfl⟩ (Or.inl h)
          · next hRowPos =>
              refine iff_of_false ?_ ?_
              · rintro ⟨fault, hError⟩
                cases hError
              · omega

end Spelling

/- What is written for an address reads as a reference. -/
theorem parseFormula_text
    {a : Address}
    (hFits : a.Fits) :
    parseFormula a.text = .ok (.cell a) := by
  have hUpper := a.spelling.upperCase_text
  have hTokens := a.spelling.tokens_of_upperCase hUpper
  have hBody : formulaBody a.text = a.text.toList := by
    unfold formulaBody
    split
    · next rest hEquals =>
        have hHead := a.spelling.startsName_head (c := '=')
          (by rw [text_spelling, hEquals]; rfl)
        exact absurd hHead (by decide)
    · rfl
  rw [text_spelling] at hTokens
  rw [parseFormula, hBody, hTokens, parseTokens_eq_ok_iff]
  have hCell :
      Grammar.Derives .primary [.reference a.text] (.cell a) :=
    .cell (parse_text_of_fits hFits)
  exact Or.inr (Parser.expression?_all_iff.mpr
    (hCell.weaken (Grammar.Level.equality_le_rank _)))

end Address

------------------------------------------------------------
-- References
------------------------------------------------------------

/-
  Tokens and addresses agree on what a reference is. A name,
  wherever it stands, is a reference just in case it has the
  form of an address in upper case, and such a text is an
  address unless one of its numbers is out of bounds. In the
  other direction a text that is an address, in whatever
  case, is one reference and nothing else, and an address
  that is written is read as the reference to it.
-/
theorem references_are_spellings :
    (∀ (run : NameRun) (total : Nat) (rest : List Char),
      EndsName rest →
      ∃ token,
        nextToken total (run.chars ++ rest) = (.ok token, rest)
          ∧ ∀ name, token = .reference name ↔
            name = run.name
              ∧ ∃ w : Address.Spelling, w.text = name)
    ∧ (∀ w : Address.Spelling,
      (∃ fault, Address.parse w.text = .error fault) ↔
        w.row = 0 ∨ 2 ^ 32 - 1 < w.row
          ∨ 2 ^ 32 - 1 < w.col)
    ∧ (∀ text a, Address.parse text = .ok a →
      ∀ variant : String,
        upperCase variant.toList = upperCase text.toList →
        tokenize variant =
          .ok [.reference text, .endOfInput])
    ∧ (∀ a : Address, a.Fits →
      parseFormula a.text = .ok (.cell a)) := by
  refine ⟨?_, Address.Spelling.parse_text_error_iff, ?_,
    fun _ => Address.parseFormula_text⟩
  · intro run total rest hRest
    refine ⟨_, ?_, Token.ofName_eq_reference_iff run⟩
    exact nextToken_of_take? noBlanks
      (Token.isBlank_of_startsName run.starts)
      (run.take?_append hRest)
  · intro text a hParse variant hSame
    rcases Address.exists_spelling hParse with ⟨w, rfl⟩
    rw [w.upperCase_text] at hSame
    rw [tokenize, w.tokens_of_upperCase hSame]
    rfl

/- A name in small letters with a zero before its row. -/
def smallRun : NameRun :=
  ⟨'$', ['a', 'b', '$', '0', '7'], by decide,
    List.all_eq_true.mp rfl⟩

/-
  It is a reference in front of more text and by itself, and
  the address that it names is written without the zero.
-/
theorem references_are_spellings_smallRun :
    nextToken 8 (smallRun.chars ++ ['+', '1']) =
        (.ok (.reference "$AB$07"), ['+', '1'])
      ∧ tokenize "$ab$07" =
        .ok [.reference "$AB$07", .endOfInput]
      ∧ parseFormula "$AB$7" =
        .ok (.cell ⟨6, 27, true, true⟩) := by
  rcases references_are_spellings with
    ⟨hRuns, -, hTexts, hAddresses⟩
  have hParse :
      Address.parse "$AB$07" = .ok ⟨6, 27, true, true⟩ := by
    cbv
  rcases Address.exists_spelling hParse with ⟨w, hText⟩
  refine ⟨?_, hTexts "$AB$07" _ hParse "$ab$07" (by decide),
    ?_⟩
  · rcases hRuns smallRun 8 ['+', '1']
        (fun c h => by cases h; decide) with
      ⟨token, hNext, hName⟩
    rw [hNext, (hName "$AB$07").mpr ⟨by cbv, w, hText⟩]
  · have hFits : Address.Fits ⟨6, 27, true, true⟩ :=
      ⟨by decide, by decide⟩
    have hWritten :
        Address.text ⟨6, 27, true, true⟩ = "$AB$7" := by
      cbv
    rw [← hWritten]
    exact hAddresses _ hFits

end Spreadsheet
