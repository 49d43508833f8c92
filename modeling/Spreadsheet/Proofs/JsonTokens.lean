import Spreadsheet.Proofs.FileFormats
import Spreadsheet.Proofs.JsonNumerals
import Spreadsheet.Proofs.QuotedText

/-
  The tokens of what is written for a value. Writing adds
  blanks between tokens and nothing else, so the text of a
  value is divided into the tokens of the value. Whether a
  double reads back is a matter of double arithmetic, and
  here it is part of what makes a value writable.

  Main declarations:
    * `Json.exists_numeral_of_readsBack`
    * `Json.tokens`
    * `Json.tokens?_eq`
    * `Json.tokens?_write`
-/

namespace Spreadsheet

namespace Json

open FileFormat (standard)

variable {cs rest : List Char}

------------------------------------------------------------
-- Tokens Of A Text
------------------------------------------------------------

/- The first token and the tokens of the rest. -/
theorem tokens?_eq
    (cs : List Char) :
    tokens? cs =
      match cs.dropWhile Token.isBlank with
      | [] => some []
      | c :: rest =>
          (Token.take? (c :: rest)).bind fun p =>
            (tokens? p.2).map (p.1 :: ·) := by
  rw [tokens?]
  split
  · next hNil => rw [hNil]
  · next c rest hCons =>
      rw [hCons]
      split
      · next hNone => simp only [hNone, Option.bind_none]
      · next token after hSome =>
          simp only [hSome, Option.bind_some]

/- Blanks in front of a token do not matter. -/
theorem tokens?_blank
    {c : Char}
    (hc : Token.isBlank c = true)
    (cs : List Char) : tokens? (c :: cs) = tokens? cs := by
  rw [tokens?_eq, tokens?_eq cs, List.dropWhile_cons,
    if_pos hc]

theorem tokens?_blanks
    {blanks : List Char}
    (hBlanks : ∀ c ∈ blanks, Token.isBlank c = true)
    (cs : List Char) :
    tokens? (blanks ++ cs) = tokens? cs := by
  induction blanks with
  | nil => rfl
  | cons c blanks ih =>
      rw [List.cons_append, tokens?_blank (hBlanks c (by simp))]
      exact ih fun d hd => hBlanks d (by simp [hd])

/- Nor does the start of a line. -/
theorem tokens?_newLine
    (level : Nat)
    (cs : List Char) :
    tokens? (newLine level ++ cs) = tokens? cs := by
  apply tokens?_blanks
  intro c hc
  rcases List.mem_cons.mp hc with rfl | hc
  · decide
  · rw [List.eq_of_mem_replicate hc]
    decide

/- A text without tokens is all blanks. -/
theorem isBlank_of_tokens?
    (h : tokens? cs = some []) :
    ∀ c ∈ cs, Token.isBlank c = true := by
  rw [tokens?_eq] at h
  split at h
  · next hNil => exact List.dropWhile_eq_nil_iff.mp hNil
  · simp [Option.bind_eq_some_iff] at h

/- A token in front of a text. -/
theorem tokens?_of_take?
    {c : Char}
    {token : Token}
    {after : List Char}
    (hc : Token.isBlank c = false)
    (hTake : Token.take? (c :: cs) = some (token, after)) :
    tokens? (c :: cs) = (tokens? after).map (token :: ·) := by
  rw [tokens?_eq, List.dropWhile_cons, hc]
  simp only [Bool.false_eq_true, if_false, hTake,
    Option.bind_some]

/- A token of one character. -/
theorem tokens?_punctuation
    {c : Char}
    {token : Token}
    (hc : Token.isBlank c = false)
    (hToken : Token.punctuation? c = some token)
    (cs : List Char) :
    tokens? (c :: cs) = (tokens? cs).map (token :: ·) := by
  apply tokens?_of_take? hc
  simp only [Token.take?, hToken]

/- The word for nothing in front of a text. -/
theorem tokens?_null
    (rest : List Char) :
    tokens? ("null".toList ++ rest)
      = (tokens? rest).map (Token.plain null :: ·) :=
  tokens?_of_take? (by decide) rfl

/- A quoted text in front of a text. -/
theorem tokens?_quote
    (s : String)
    (rest : List Char) :
    tokens? (Quoted.quote s ++ rest)
      = (tokens? rest).map (Token.text (some s) :: ·) := by
  have hTake :
      ∀ cs : List Char,
        Token.take? ('"' :: cs)
          = (Quoted.takeCodes? cs).map fun p =>
            (Token.text
              ((Quoted.ofCodes? p.1).map String.ofList),
              p.2) :=
    fun cs => rfl
  unfold Quoted.quote
  rw [List.cons_append, List.cons_append, List.append_assoc]
  apply tokens?_of_take? (by decide)
  rw [hTake, List.cons_append, List.nil_append,
    Quoted.takeCodes?_flatMap_escape, Option.map_some,
    Quoted.ofCodes?_toNat, Option.map_some,
    String.ofList_toList]

/- A token that starts like a number is one. -/
theorem take?_number
    {c : Char}
    (hc : c = '-' ∨ c.isDigit = true)
    (cs : List Char) :
    Token.take? (c :: cs)
      = (Numeral.take? (c :: cs)).map fun p =>
          (.plain p.1.value, p.2) := by
  have hPunctuation : Token.punctuation? c = none := by
    rcases hc with rfl | hc
    · rfl
    · unfold Token.punctuation?
      split
      iterate 6 exact absurd hc (by decide)
      rfl
  have hQuote : c ≠ '"' := by
    rintro rfl
    exact absurd hc (by decide)
  simp only [Token.take?, hPunctuation, if_neg hQuote,
    if_pos hc]

/- No character of a number is a blank. -/
theorem not_isBlank
    {c : Char}
    (hc : isNumberChar c = true) :
    Token.isBlank c = false := by
  by_contra hBlank
  simp only [Bool.not_eq_false, Token.isBlank,
    Bool.or_eq_true, beq_iff_eq] at hBlank
  rcases hBlank with ((rfl | rfl) | rfl) | rfl <;>
    exact absurd hc (by decide)

/-
  A numeral in front of a text that does not go on with it.
  What is left of its own text may be blanks.
-/
theorem tokens?_numeral
    {d : Numeral}
    {c : Char}
    {blanks : List Char}
    (hc : c = '-' ∨ c.isDigit = true)
    (hTake : Numeral.take? (c :: cs) = some (d, blanks))
    (hBlanks : ∀ c ∈ blanks, Token.isBlank c = true)
    (hStops : Stops rest) :
    tokens? (c :: cs ++ rest)
      = (tokens? rest).map (Token.plain d.value :: ·) := by
  have hLonger := Numeral.take?_append hStops hTake
  have hNumber : isNumberChar c = true := by
    rcases hc with rfl | hc
    · decide
    · simp [isNumberChar, hc]
  rw [← tokens?_blanks hBlanks rest, List.cons_append]
  apply tokens?_of_take? (not_isBlank hNumber)
  rw [take?_number hc, ← List.cons_append, hLonger,
    Option.map_some]

------------------------------------------------------------
-- Doubles That Read Back
------------------------------------------------------------

theorem readsBack_iff
    {x : Float} :
    standard.ReadsBack x ↔
      read? (number x).written = some (number x) :=
  Iff.rfl

/- What is written for a finite double. -/
theorem toList_written
    {x : Float}
    (hFinite : x.isFinite = true) :
    (number x).written.toList = writeNumber x :=
  String.toList_ofList.trans (if_pos hFinite)

/- Other doubles are written like null, and read as null. -/
theorem isFinite_of_readsBack
    {x : Float}
    (h : standard.ReadsBack x) : x.isFinite = true := by
  by_contra hNot
  have hText :
      (number x).written.toList = "null".toList ++ [] :=
    String.toList_ofList.trans (if_neg hNot)
  have hNull :
      tokens? ((number x).written.toList)
        = some [.plain null] := by
    rw [hText, tokens?_null, tokens?_eq]
    rfl
  rw [readsBack_iff, read?, hNull] at h
  simp [Reader.step?, Reader.begin?] at h

/- What a token that starts like no number can be. -/
theorem take?_eq_none
    {c : Char}
    (hNumber : isNumberChar c = true)
    (hc : ¬ (c = '-' ∨ c.isDigit = true))
    (cs : List Char) : Token.take? (c :: cs) = none := by
  have hMem : c ∈ ['+', '.', 'e', 'E'] := by
    simp only [isNumberChar, Bool.or_eq_true, beq_iff_eq]
      at hNumber
    simp only [List.mem_cons, List.not_mem_nil, or_false]
    tauto
  simp only [List.mem_cons, List.not_mem_nil, or_false]
    at hMem
  rcases hMem with rfl | rfl | rfl | rfl <;> rfl

/- Nothing is read after a value that stands alone. -/
theorem foldlM_after
    {v w : Json}
    {tokens : List Token}
    (h : tokens.foldlM Reader.step? (.after v [])
      = some (.after w [])) : tokens = [] ∧ v = w := by
  cases tokens with
  | nil => simpa using h
  | cons token tokens =>
      have hNone : Reader.step? (.after v []) token = none := by
        cases token <;> rfl
      simp [List.foldlM_cons, hNone] at h

/- A double that reads back is written as one numeral. -/
theorem exists_numeral_of_readsBack
    {x : Float}
    (h : standard.ReadsBack x) :
    ∃ (c : Char) (cs : List Char) (d : Numeral)
      (blanks : List Char),
      writeNumber x = c :: cs
        ∧ (c = '-' ∨ c.isDigit = true)
        ∧ Numeral.take? (c :: cs) = some (d, blanks)
        ∧ (∀ c ∈ blanks, Token.isBlank c = true)
        ∧ d.value = number x := by
  have hText := toList_written (isFinite_of_readsBack h)
  have hChars := areNumberChars_writeNumber x
  rw [readsBack_iff, read?, hText] at h
  simp only [Option.bind_eq_bind, Option.bind_eq_some_iff]
    at h
  rcases h with ⟨tokens, hTokens, reader, hFold, hValue⟩
  have hReader : reader = .after (number x) [] := by
    split at hValue
    · rw [Option.some.inj hValue]
    · simp at hValue
  subst hReader
  cases hWritten : writeNumber x with
  | nil =>
      rw [hWritten, tokens?_eq] at hTokens
      rw [← Option.some.inj hTokens] at hFold
      simp at hFold
  | cons c cs =>
      rw [hWritten] at hChars hTokens
      have hNumber := hChars c (by simp)
      rw [tokens?_eq, List.dropWhile_cons,
        not_isBlank hNumber] at hTokens
      simp only [Bool.false_eq_true, if_false,
        Option.bind_eq_some_iff, Prod.exists] at hTokens
      rcases hTokens with ⟨token, after, hTake, hTokens⟩
      rcases Option.map_eq_some_iff.mp hTokens with
        ⟨others, hOthers, rfl⟩
      by_cases hc : c = '-' ∨ c.isDigit = true
      · rw [take?_number hc, Option.map_eq_some_iff] at hTake
        rcases hTake with ⟨⟨d, blanks⟩, hNumeral, hPair⟩
        rw [Prod.mk.injEq] at hPair
        rcases hPair with ⟨rfl, rfl⟩
        rcases foldlM_after hFold with ⟨rfl, hd⟩
        exact ⟨c, cs, d, blanks, rfl, hc, hNumeral,
          isBlank_of_tokens? hOthers, hd⟩
      · rw [take?_eq_none hNumber hc] at hTake
        simp at hTake

/- And a double that is written as its numeral reads back. -/
theorem readsBack_of_take?
    {x : Float}
    {c : Char}
    {d : Numeral}
    (hFinite : x.isFinite = true)
    (hWritten : writeNumber x = c :: cs)
    (hc : c = '-' ∨ c.isDigit = true)
    (hTake : Numeral.take? (c :: cs) = some (d, []))
    (hValue : d.value = number x) :
    standard.ReadsBack x := by
  have hText :
      (number x).written.toList = c :: cs ++ [] := by
    rw [List.append_nil, ← hWritten]
    exact toList_written hFinite
  have hTokens :=
    tokens?_numeral hc hTake (by simp) stops_nil
  rw [readsBack_iff, read?, hText, hTokens, hValue,
    tokens?_eq]
  rfl

theorem tokens?_write_number
    {x : Float}
    (hx : standard.ReadsBack x)
    (level : Nat)
    (hStops : Stops rest) :
    tokens? ((number x).write level ++ rest)
      = (tokens? rest).map (Token.plain (number x) :: ·) := by
  rcases exists_numeral_of_readsBack hx with
    ⟨c, cs, d, blanks, hWritten, hc, hTake, hBlanks, hValue⟩
  rw [write, if_pos (isFinite_of_readsBack hx), hWritten,
    tokens?_numeral hc hTake hBlanks hStops, hValue]

theorem tokens?_toDigits
    {n : Nat}
    (hn : n < Numeral.bound)
    (hStops : Stops rest) :
    tokens? (Nat.toDigits 10 n ++ rest)
      = (tokens? rest).map (Token.plain (natural n) :: ·) := by
  have hTake := Numeral.take?_toDigits n
  have hDigits := Digit.areDigits_toDigits n
  rcases List.exists_cons_of_ne_nil
      (Nat.toDigits_ne_nil (n := n) (b := 10)) with
    ⟨c, cs, hCons⟩
  rw [hCons] at hTake hDigits ⊢
  rw [tokens?_numeral (.inr (hDigits c (by simp))) hTake
    (by simp) hStops, Numeral.value_ofNat hn]

------------------------------------------------------------
-- Tokens Of A Value
------------------------------------------------------------

mutual

/- The tokens that a value is written with. -/
def tokens : Json → List Token
  | null => [.plain null]
  | boolean b => [.plain (boolean b)]
  | natural n => [.plain (natural n)]
  | number x => [.plain (number x)]
  | text s => [.text (some s)]
  | list [] => [.beginList, .endList]
  | list (item :: rest) =>
      .beginList :: item.tokens
        ++ (tokensOfItems rest ++ [.endList])
  | object [] => [.beginObject, .endObject]
  | object ((name, value) :: rest) =>
      .beginObject :: .text (some name) :: .colon
        :: value.tokens
        ++ (tokensOfFields rest ++ [.endObject])
  | unreadable => [.plain null]

/- Items after the first one. -/
def tokensOfItems : List Json → List Token
  | [] => []
  | item :: rest =>
      .comma :: item.tokens ++ tokensOfItems rest

/- Fields after the first one. -/
def tokensOfFields : List (String × Json) → List Token
  | [] => []
  | (name, value) :: rest =>
      .comma :: .text (some name) :: .colon
        :: value.tokens ++ tokensOfFields rest

end

------------------------------------------------------------
-- Dividing The Text Of A Value
------------------------------------------------------------

/- A word in front of a text. -/
theorem tokens?_boolean
    (b : Bool)
    (level : Nat)
    (rest : List Char) :
    tokens? ((boolean b).write level ++ rest)
      = (tokens? rest).map (Token.plain (boolean b) :: ·) := by
  cases b with
  | true => exact tokens?_of_take? (by decide) rfl
  | false => exact tokens?_of_take? (by decide) rfl

/- What follows a value in a list or an object. -/
theorem stops_newLine
    (level : Nat)
    (rest : List Char) : Stops (newLine level ++ rest) :=
  stops_cons _ (by decide)

theorem stops_writeItems
    (level : Nat)
    (items : List Json)
    (hStops : Stops rest) :
    Stops (writeItems level items ++ rest) := by
  cases items with
  | nil => exact hStops
  | cons item items => exact stops_cons _ (by decide)

theorem stops_writeFields
    (level : Nat)
    (fields : List (String × Json))
    (hStops : Stops rest) :
    Stops (writeFields level fields ++ rest) := by
  cases fields with
  | nil => exact hStops
  | cons field fields => exact stops_cons _ (by decide)

/- The name of a field, its colon and the blank after it. -/
theorem tokens?_name
    (name : String)
    (rest : List Char) :
    tokens? (Quoted.quote name ++ ':' :: ' ' :: rest)
      = (tokens? rest).map
        (Token.text (some name) :: Token.colon :: ·) := by
  rw [tokens?_quote,
    tokens?_punctuation (c := ':') (by decide) rfl,
    tokens?_blank (by decide), Option.map_map]
  rfl

mutual

/-
  The text of a writable value is divided into the tokens of
  the value, and the rest after it is divided on its own.
-/
theorem tokens?_write
    (level : Nat)
    {rest : List Char}
    (hStops : Stops rest) :
    ∀ v : Json, v.IsWritable standard.ReadsBack →
      tokens? (v.write level ++ rest)
        = (tokens? rest).map (v.tokens ++ ·)
  | null, _ => tokens?_null rest
  | boolean b, _ => tokens?_boolean b level rest
  | natural n, hv => tokens?_toDigits hv hStops
  | number x, hv => tokens?_write_number hv level hStops
  | text s, _ => tokens?_quote s rest
  | list [], _ => by
      simp only [write, tokens, List.cons_append,
        List.nil_append]
      rw [tokens?_punctuation (c := '[') (by decide) rfl,
        tokens?_punctuation (c := ']') (by decide) rfl,
        Option.map_map]
      rfl
  | list (item :: items), hv => by
      have hItem :=
        tokens?_write (level + 1)
          (stops_writeItems (level + 1) items
            (stops_newLine level (']' :: rest)))
          item hv.1
      have hItems :=
        tokens?_writeItems (level + 1)
          (stops_newLine level (']' :: rest)) items hv.2
      simp only [write, tokens, List.cons_append,
        List.append_assoc, List.nil_append]
      rw [tokens?_punctuation (c := '[') (by decide) rfl,
        tokens?_newLine, hItem, hItems, tokens?_newLine,
        tokens?_punctuation (c := ']') (by decide) rfl]
      simp only [Option.map_map]
      rfl
  | object [], _ => by
      simp only [write, tokens, List.cons_append,
        List.nil_append]
      rw [tokens?_punctuation (c := '\x7b') (by decide) rfl,
        tokens?_punctuation (c := '\x7d') (by decide) rfl,
        Option.map_map]
      rfl
  | object ((name, value) :: fields), hv => by
      have hValue :=
        tokens?_write (level + 1)
          (stops_writeFields (level + 1) fields
            (stops_newLine level ('\x7d' :: rest)))
          value hv.1
      have hFields :=
        tokens?_writeFields (level + 1)
          (stops_newLine level ('\x7d' :: rest)) fields hv.2
      simp only [write, tokens, List.cons_append,
        List.append_assoc, List.nil_append]
      rw [tokens?_punctuation (c := '\x7b') (by decide) rfl,
        tokens?_newLine, tokens?_name, hValue, hFields,
        tokens?_newLine,
        tokens?_punctuation (c := '\x7d') (by decide) rfl]
      simp only [Option.map_map]
      rfl
  | unreadable, hv => hv.elim

/- The same for the items after the first one. -/
theorem tokens?_writeItems
    (level : Nat)
    {rest : List Char}
    (hStops : Stops rest) :
    ∀ items : List Json,
      AreItemsWritable standard.ReadsBack items →
      tokens? (writeItems level items ++ rest)
        = (tokens? rest).map (tokensOfItems items ++ ·)
  | [], _ => by
      simp [writeItems, tokensOfItems]
  | item :: items, hItems => by
      have hItem :=
        tokens?_write level
          (stops_writeItems level items hStops) item hItems.1
      have hRest :=
        tokens?_writeItems level hStops items hItems.2
      simp only [writeItems, tokensOfItems, List.cons_append,
        List.append_assoc]
      rw [tokens?_punctuation (c := ',') (by decide) rfl,
        tokens?_newLine, hItem, hRest]
      simp only [Option.map_map]
      rfl

/- The same for the fields after the first one. -/
theorem tokens?_writeFields
    (level : Nat)
    {rest : List Char}
    (hStops : Stops rest) :
    ∀ fields : List (String × Json),
      AreFieldsWritable standard.ReadsBack fields →
      tokens? (writeFields level fields ++ rest)
        = (tokens? rest).map (tokensOfFields fields ++ ·)
  | [], _ => by
      simp [writeFields, tokensOfFields]
  | (name, value) :: fields, hFields => by
      have hValue :=
        tokens?_write level
          (stops_writeFields level fields hStops)
          value hFields.1
      have hRest :=
        tokens?_writeFields level hStops fields hFields.2
      simp only [writeFields, tokensOfFields,
        List.cons_append, List.append_assoc]
      rw [tokens?_punctuation (c := ',') (by decide) rfl,
        tokens?_newLine, tokens?_name, hValue, hRest]
      simp only [Option.map_map]
      rfl

end

end Json

end Spreadsheet
