import Spreadsheet.Proofs.NameTokens
import Spreadsheet.Proofs.NumeralGrammar

/-
  Spelling and reading tokens. A lexeme is a text that can
  stand by itself for one token: a numeral, a quoted text, a
  name, an operator, or a punctuation mark. Each kind is
  scanned by a loop of its own, which takes all of a lexeme
  and nothing else if a blank or the end follows. So
  lexemes with blanks between them are read as their tokens,
  one after another.

  Key definitions include:
    * `Quotable` and `inQuotes`
    * `Lexeme`
    * `Lexeme.StandsFor`
    * `Lexeme.Spells`

  The main result is `Lexeme.tokenize_spells`.
-/

namespace Spreadsheet

variable {c : Char}
variable {rest : List Char}

------------------------------------------------------------
-- What Follows A Lexeme
------------------------------------------------------------

/- A text that is empty or starts with a blank. -/
def Apart
    (rest : List Char) : Prop :=
  ∀ c, rest.head? = some c → Blank.isBlank c = true

theorem apart_blanks
    {blanks : List Char}
    (hBlanks : ∀ b ∈ blanks, Blank.isBlank b = true) :
    Apart blanks :=
  fun _ h => hBlanks _ (List.mem_of_mem_head? h)

theorem apart_append
    {blanks : List Char}
    (hNe : blanks ≠ [])
    (hBlanks : ∀ b ∈ blanks, Blank.isBlank b = true)
    (rest : List Char) : Apart (blanks ++ rest) := by
  intro c h
  rw [List.head?_append_of_ne_nil _ hNe] at h
  exact apart_blanks hBlanks c h

/- What follows does not start with a printed character. -/
theorem Apart.not_visible
    (hRest : Apart rest)
    (h : rest.head? = some c) :
    ¬ (33 ≤ c.toNat ∧ c.toNat ≤ 126) := by
  intro hVisible
  have hBlank := hRest c h
  rw [isBlank_of_visible hVisible] at hBlank
  cases hBlank

theorem Apart.endsName
    (hRest : Apart rest) : EndsName rest := by
  intro c h
  have hNot := hRest.not_visible h
  rw [Bool.eq_false_iff, ne_eq, Token.continuesName_iff,
    Token.startsName_iff]
  omega

theorem Apart.endsNumeral
    (hRest : Apart rest) : EndsNumeral rest := by
  intro c h
  have hNot := hRest.not_visible h
  have hPoint : c = '.' ↔ c.toNat = 46 :=
    Char.toNat_inj.symm
  rw [Bool.eq_false_iff, ne_eq, Digit.isDigit_iff, ne_eq,
    hPoint]
  omega

------------------------------------------------------------
-- Numerals
------------------------------------------------------------

namespace PlainNumeral

/- A numeral starts like a number, whatever follows it. -/
theorem exists_startsNumber
    (n : PlainNumeral) :
    ∃ c tail, n.chars = c :: tail
      ∧ ∀ rest, Token.startsNumber c (tail ++ rest) = true := by
  cases hWhole : n.whole with
  | nil =>
      rcases n.point_in_front hWhole with
        ⟨d, digits, hFraction⟩
      have hDigit : d.isDigit = true :=
        n.fraction_digits _ hFraction d List.mem_cons_self
      refine ⟨'.', d :: digits, ?_, fun rest => ?_⟩
      · rw [chars, hFraction, hWhole]
        rfl
      · simp [Token.startsNumber, hDigit]
  | cons d digits =>
      have hDigit : d.isDigit = true :=
        n.whole_digits d (by rw [hWhole]; simp)
      have hChars : ∃ tail, n.chars = d :: tail := by
        unfold chars
        rw [hWhole]
        split <;> exact ⟨_, rfl⟩
      rcases hChars with ⟨tail, hChars⟩
      refine ⟨d, tail, hChars, fun rest => ?_⟩
      rw [Token.startsNumber, hDigit, Bool.true_or]

/- All of it is one number. -/
theorem take?_append
    (n : PlainNumeral)
    (hRest : Apart rest) :
    ∃ c tail, n.chars = c :: tail
      ∧ Blank.isBlank c = false
      ∧ Token.take? c (tail ++ rest) =
        some (.number n.literal.value, rest) := by
  rcases n.exists_startsNumber with ⟨c, tail, hChars, hStarts⟩
  have hTake := n.takeDigits_append hRest.endsNumeral
  have hc : c.isDigit = true ∨ c = '.' :=
    n.mem_chars (by rw [hChars]; exact List.mem_cons_self)
  rw [hChars] at hTake
  refine ⟨c, tail, hChars, ?_, ?_⟩
  · rcases hc with hc | rfl
    · rw [Digit.isDigit_iff] at hc
      exact isBlank_of_visible (by omega)
    · decide
  · have hMark : Token.punctuation? c = none := by
      unfold Token.punctuation?
      split <;> first | exact absurd hc (by decide) | rfl
    have hQuote : c ≠ '"' := by
      rintro rfl
      exact absurd hc (by decide)
    rw [Token.take?, hMark]
    dsimp only
    rw [if_neg hQuote, if_pos (hStarts rest),
      ← List.cons_append, hTake]
    rfl

/- No character of a numeral is padding. -/
theorem isPadding_of_mem
    (n : PlainNumeral)
    (h : c ∈ n.chars) : Numeral.isPadding c = false := by
  apply Numeral.isPadding_of_visible
  rcases n.mem_chars h with hDigit | rfl
  · rw [Digit.isDigit_iff] at hDigit
    omega
  · decide

/- By itself it stands for the number of its token. -/
theorem parseNumber_chars
    (n : PlainNumeral) :
    parseNumber (String.ofList n.chars) =
      some n.literal.value := by
  have hWritten :=
    Numeral.Written.decimal .unsigned n .absent
  rw [List.nil_append, List.append_nil] at hWritten
  have hTrimmed :
      Blank.Trimmed Numeral.isPadding n.chars n.chars :=
    Blank.trimmed_self fun _ => n.isPadding_of_mem
  rw [parseNumber_eq_some_iff, String.toList_ofList,
    ← hTrimmed.eq_trimBy]
  refine ⟨_, hWritten, ?_⟩
  rw [Numeral.value, Binary64.signed,
    if_neg Bool.false_ne_true]
  rfl

end PlainNumeral

------------------------------------------------------------
-- Quoted Texts
------------------------------------------------------------

/-
  A text that can be written between quotes. A backslash at
  its end would be read along with the closing quote.
-/
def Quotable
    (content : String) : Prop :=
  content.toList.getLast? ≠ some '\\'

instance (content : String) : Decidable (Quotable content) :=
  inferInstanceAs (Decidable (_ ≠ _))

/- A quote inside of a text has a backslash in front. -/
def escapeQuote
    (c : Char) : List Char :=
  if c = '"' then ['\\', '"'] else [c]

/- A text between quotes. -/
def inQuotes
    (content : String) : List Char :=
  '"' :: (content.toList.flatMap escapeQuote ++ ['"'])

namespace Token

/- A backslash escapes quotes only. -/
theorem takeText_cons
    (hQuote : c ≠ '"')
    (hEscape : c = '\\' → rest.head? ≠ some '"') :
    takeText (c :: rest) =
      (c :: (takeText rest).1, (takeText rest).2) := by
  rw [takeText]
  · exact hQuote
  · rintro tail rfl rfl
    exact hEscape rfl rfl

/-
  Reading up to the closing quote undoes the escapes. The
  induction is on the content. A backslash in it is never
  taken for an escape, since the character after it is not
  written as a quote alone.
-/
theorem takeText_escaped
    {content : List Char}
    (h : content.getLast? ≠ some '\\')
    (rest : List Char) :
    takeText (content.flatMap escapeQuote ++ '"' :: rest) =
      (content, rest) := by
  induction content with
  | nil => rfl
  | cons c content ih =>
      have hLast : content.getLast? ≠ some '\\' := by
        intro hEnd
        apply h
        rw [List.getLast?_cons, hEnd]
        rfl
      have hRest := ih hLast
      rw [List.flatMap_cons, List.append_assoc]
      by_cases hQuote : c = '"'
      · rw [escapeQuote, if_pos hQuote, hQuote]
        simp only [List.cons_append, List.nil_append,
          takeText, hRest]
      · rw [escapeQuote, if_neg hQuote, List.singleton_append,
          takeText_cons hQuote, hRest]
        rintro rfl
        cases content with
        | nil => exact absurd rfl h
        | cons d content =>
            rw [List.flatMap_cons, escapeQuote]
            by_cases hNext : d = '"'
            · rw [if_pos hNext]
              simp
            · rw [if_neg hNext]
              simp [hNext]

/- So a quoted text is one token, whatever follows it. -/
theorem take?_quoted
    {content : String}
    (h : Quotable content)
    (rest : List Char) :
    take? '"' (content.toList.flatMap escapeQuote
        ++ '"' :: rest) =
      some (text content, rest) := by
  have hMark : punctuation? '"' = none := rfl
  rw [take?, hMark]
  dsimp only
  rw [if_pos rfl, takeText_escaped h]
  dsimp only
  rw [String.ofList_toList]

end Token

------------------------------------------------------------
-- Operators
------------------------------------------------------------

/- No operator goes on with what stands apart. -/
theorem BinaryOperator.ofChars?_pair
    {d : Char}
    (hGreater : d ≠ '>')
    (hEqual : d ≠ '=') : ofChars? [c, d] = none := by
  unfold ofChars?
  split <;> simp_all

theorem BinaryOperator.take?_symbol
    (op : BinaryOperator)
    (hRest : Apart rest) :
    take? (op.symbol.toList ++ rest) = some (op, rest) := by
  have hSingle :
      ∀ {c : Char}, ofChars? [c] = some op →
        take? (c :: rest) = some (op, rest) := by
    intro c hc
    cases rest with
    | nil => rw [take?, hc, Option.map_some]
    | cons d rest =>
        have hNot := hRest.not_visible rfl
        have hPair : ofChars? [c, d] = none := by
          apply ofChars?_pair
          · rintro rfl
            exact hNot (by decide)
          · rintro rfl
            exact hNot (by decide)
        rw [take?, hPair]
        dsimp only
        rw [hc, Option.map_some]
  cases op with
  | notEqual => rfl
  | lessEqual => rfl
  | greaterEqual => rfl
  | _ => exact hSingle rfl

/- An operator is one token. -/
theorem BinaryOperator.take?_append
    (op : BinaryOperator)
    (hRest : Apart rest) :
    ∃ c tail, op.symbol.toList = c :: tail
      ∧ Blank.isBlank c = false
      ∧ Token.take? c (tail ++ rest) =
        some (.operator op, rest) := by
  have hTake := op.take?_symbol hRest
  have hStart :
      ∃ c tail, op.symbol.toList = c :: tail
        ∧ Blank.isBlank c = false
        ∧ Token.punctuation? c = none
        ∧ c ≠ '"'
        ∧ ∀ rest, Token.startsNumber c rest = false := by
    cases op <;>
      exact ⟨_, _, rfl, by decide, rfl, by decide,
        fun _ => rfl⟩
  rcases hStart with
    ⟨c, tail, hSymbol, hBlank, hMark, hQuote, hNumber⟩
  refine ⟨c, tail, hSymbol, hBlank, ?_⟩
  rw [hSymbol, List.cons_append] at hTake
  rw [Token.take?, hMark]
  dsimp only
  rw [if_neg hQuote,
    if_neg (Bool.eq_false_iff.mp (hNumber _)), hTake]

------------------------------------------------------------
-- Lexemes
------------------------------------------------------------

/- A text that can stand by itself for one token. -/
inductive Lexeme where
  | numeral (n : PlainNumeral)
  | quoted (content : String) (h : Quotable content)
  | name (run : NameRun)
  | operator (op : BinaryOperator)
  | leftParenthesis
  | rightParenthesis
  | comma
  | colon

namespace Lexeme

/- The lexeme as it is written. -/
def chars : Lexeme → List Char
  | numeral n => n.chars
  | quoted content _ => inQuotes content
  | name run => run.chars
  | operator op => op.symbol.toList
  | leftParenthesis => ['(']
  | rightParenthesis => [')']
  | comma => [',']
  | colon => [':']

/-
  What a lexeme means: the number that its text stands for,
  the content between its quotes, and for a name, in upper
  case, a truth value, a reference if it has the form of an
  address, or else an identifier.
-/
inductive StandsFor : Lexeme → Token → Prop
  | numeral
      {n : PlainNumeral}
      {x : Float}
      (h : parseNumber (String.ofList n.chars) = some x) :
      StandsFor (.numeral n) (.number x)
  | quoted
      {content : String}
      {h : Quotable content} :
      StandsFor (.quoted content h) (.text content)
  | isTrue
      {run : NameRun}
      (h : run.name = "TRUE") :
      StandsFor (.name run) (.boolean true)
  | isFalse
      {run : NameRun}
      (h : run.name = "FALSE") :
      StandsFor (.name run) (.boolean false)
  | reference
      {run : NameRun}
      {w : Address.Spelling}
      (h : w.text = run.name) :
      StandsFor (.name run) (.reference run.name)
  | identifier
      {run : NameRun}
      (hTrue : run.name ≠ "TRUE")
      (hFalse : run.name ≠ "FALSE")
      (hShape : ∀ w : Address.Spelling, w.text ≠ run.name) :
      StandsFor (.name run) (.identifier run.name)
  | operator
      {op : BinaryOperator} :
      StandsFor (.operator op) (.operator op)
  | leftParenthesis :
      StandsFor .leftParenthesis .leftParenthesis
  | rightParenthesis :
      StandsFor .rightParenthesis .rightParenthesis
  | comma : StandsFor .comma .comma
  | colon : StandsFor .colon .colon

variable {lexeme : Lexeme}
variable {token token' : Token}

/- What a name stands for is what is read of it. -/
theorem standsFor_name_iff
    (run : NameRun) :
    StandsFor (.name run) token ↔
      token = Token.ofName run.chars := by
  have hShape := Token.isReferenceShape_name_iff run
  rw [Token.ofName_chars]
  constructor
  · intro h
    cases h with
    | isTrue h =>
        have hNot :
            Token.isReferenceShape "TRUE".toList = false := by
          decide
        rw [h, hNot]
        rfl
    | isFalse h =>
        have hNot :
            Token.isReferenceShape "FALSE".toList = false := by
          decide
        rw [h, hNot]
        rfl
    | reference h => rw [if_pos (hShape.mpr ⟨_, h⟩)]
    | identifier hTrue hFalse hNone =>
        have hNot :
            ¬ Token.isReferenceShape run.name.toList = true :=
          fun h => (hShape.mp h).elim hNone
        rw [if_neg hNot, if_neg hTrue, if_neg hFalse]
  · rintro rfl
    split
    · next h =>
        rcases hShape.mp h with ⟨w, hText⟩
        exact .reference hText
    · next hNot =>
        split
        · next h => exact .isTrue h
        · next hTrue =>
            split
            · next h => exact .isFalse h
            · next hFalse =>
                exact .identifier hTrue hFalse
                  fun w hText => hNot (hShape.mpr ⟨w, hText⟩)

/- Every lexeme stands for one token. -/
theorem existsUnique_standsFor
    (lexeme : Lexeme) :
    ∃! token, lexeme.StandsFor token := by
  cases lexeme with
  | numeral n =>
      have hNumber := n.parseNumber_chars
      refine ⟨_, .numeral hNumber, ?_⟩
      rintro token (⟨h⟩)
      rw [hNumber] at h
      cases h
      rfl
  | name run =>
      exact ⟨_, (standsFor_name_iff run).mpr rfl,
        fun _ => (standsFor_name_iff run).mp⟩
  | quoted content h =>
      exact ⟨_, .quoted, by rintro token ⟨⟩; rfl⟩
  | operator op =>
      exact ⟨_, .operator, by rintro token ⟨⟩; rfl⟩
  | leftParenthesis =>
      exact ⟨_, .leftParenthesis, by rintro token ⟨⟩; rfl⟩
  | rightParenthesis =>
      exact ⟨_, .rightParenthesis, by rintro token ⟨⟩; rfl⟩
  | comma => exact ⟨_, .comma, by rintro token ⟨⟩; rfl⟩
  | colon => exact ⟨_, .colon, by rintro token ⟨⟩; rfl⟩

/-
  The first token of a text that starts with a lexeme is the
  token of the lexeme, if what follows stands apart.
-/
theorem take?_of_standsFor
    (h : lexeme.StandsFor token)
    (hRest : Apart rest) :
    ∃ c tail, lexeme.chars = c :: tail
      ∧ Blank.isBlank c = false
      ∧ Token.take? c (tail ++ rest) = some (token, rest) := by
  cases lexeme with
  | numeral n =>
      cases h with
      | numeral hNumber =>
          rw [n.parseNumber_chars] at hNumber
          cases hNumber
          exact n.take?_append hRest
  | name run =>
      rw [(standsFor_name_iff run).mp h]
      exact ⟨_, _, rfl, Token.isBlank_of_startsName run.starts,
        run.take?_append hRest.endsName⟩
  | quoted content hContent =>
      cases h
      refine ⟨_, _, rfl, by decide, ?_⟩
      rw [List.append_assoc]
      exact Token.take?_quoted hContent rest
  | operator op =>
      cases h
      exact op.take?_append hRest
  | leftParenthesis =>
      cases h
      exact ⟨_, _, rfl, by decide, rfl⟩
  | rightParenthesis =>
      cases h
      exact ⟨_, _, rfl, by decide, rfl⟩
  | comma =>
      cases h
      exact ⟨_, _, rfl, by decide, rfl⟩
  | colon =>
      cases h
      exact ⟨_, _, rfl, by decide, rfl⟩

------------------------------------------------------------
-- Spelled Texts
------------------------------------------------------------

/- A text of lexemes with at least one blank between them. -/
inductive Spells : List Lexeme → List Char → Prop
  | nil : Spells [] []
  | single (lexeme : Lexeme) : Spells [lexeme] lexeme.chars
  | cons
      (lexeme : Lexeme)
      {gap text : List Char}
      {lexemes : List Lexeme}
      (hGap : gap ≠ [])
      (hBlanks : ∀ b ∈ gap, Blank.isBlank b = true)
      (h : Spells lexemes text) :
      Spells (lexeme :: lexemes)
        (lexeme.chars ++ (gap ++ text))

/-
  The tokens of a spelled text between blanks are those of
  its lexemes. The induction is on the spelling, and the gap
  after a lexeme is what precedes the others.
-/
theorem Spells.ofRest
    {lexemes : List Lexeme}
    {tokens : List Token}
    {text before after : List Char}
    (h : Spells lexemes text)
    (hTokens : List.Forall₂ StandsFor lexemes tokens)
    (hBefore : ∀ b ∈ before, Blank.isBlank b = true)
    (hAfter : ∀ b ∈ after, Blank.isBlank b = true)
    (total : Nat) :
    Tokens.ofRest total (before ++ (text ++ after)) =
      Tokens.prepend tokens .done := by
  induction h generalizing tokens before with
  | nil =>
      cases hTokens
      apply Tokens.ofRest_blanks
      intro b hb
      exact (List.mem_append.mp hb).elim (hBefore b) (hAfter b)
  | single lexeme =>
      rcases hTokens with - | ⟨hToken, ⟨⟩⟩
      rcases take?_of_standsFor hToken
          (apart_blanks hAfter) with
        ⟨c, tail, hChars, hBlank, hTake⟩
      rw [hChars, List.cons_append,
        Tokens.ofRest_of_take? hBefore hBlank hTake,
        Tokens.ofRest_blanks hAfter]
      rfl
  | @cons lexeme gap text lexemes hGap hBlanks h ih =>
      rcases hTokens with - | ⟨hToken, hTokens⟩
      rcases take?_of_standsFor hToken
          (apart_append hGap hBlanks (text ++ after)) with
        ⟨c, tail, hChars, hBlank, hTake⟩
      rw [hChars, List.append_assoc, List.append_assoc,
        List.cons_append,
        Tokens.ofRest_of_take? hBefore hBlank hTake,
        ih hTokens hBlanks]
      rfl

/-
  Reading undoes spelling. A lexeme stands for one token,
  and a text of lexemes with blanks between them, and
  possibly around them, is read as their tokens and the end
  of input.
-/
theorem tokenize_spells :
    (∀ lexeme : Lexeme, ∃! token, lexeme.StandsFor token)
    ∧ ∀ (lexemes : List Lexeme) (tokens : List Token)
        (text before after : List Char),
      Spells lexemes text →
      List.Forall₂ StandsFor lexemes tokens →
      (∀ b ∈ before, Blank.isBlank b = true) →
      (∀ b ∈ after, Blank.isBlank b = true) →
      tokenize (String.ofList (before ++ (text ++ after))) =
        .ok (tokens ++ [.endOfInput]) := by
  refine ⟨existsUnique_standsFor, ?_⟩
  intro lexemes tokens text before after h hTokens hBefore
    hAfter
  rw [tokenize, String.toList_ofList, Tokens.ofChars,
    h.ofRest hTokens hBefore hAfter]
  exact Tokens.toList_eq_ok_iff.mpr ⟨tokens, rfl, rfl⟩

/- Half of one, as it is written without a leading zero. -/
def halfNumeral : PlainNumeral where
  whole := []
  fraction? := some ['5']
  whole_digits := fun _ h => absurd h List.not_mem_nil
  fraction_digits := by
    rintro digits ⟨⟩ c h
    rw [List.mem_singleton.mp h]
    rfl
  point_in_front := fun _ => ⟨'5', [], rfl⟩

/- A text of a backslash, a quote, and a letter beyond ASCII. -/
def oddText : String :=
  "\\\"\u00e9"

/- Lexemes of five kinds, with blanks of several kinds. -/
theorem tokenize_spells_oddText :
    tokenize
        ".5 \"\\\\\"\u00e9\"\t\u00a0$ab$07\n<= :" =
      .ok [.number halfNumeral.literal.value, .text oddText,
        .reference "$AB$07", .operator .lessEqual, .colon,
        .endOfInput] := by
  have hText : Quotable oddText := by decide
  have hSpells :
      Spells
        [.numeral halfNumeral, .quoted oddText hText,
          .name smallRun, .operator .lessEqual, .colon]
        (['.', '5'] ++ ([' '] ++ (inQuotes oddText ++
          (['\t', '\u00a0'] ++ (smallRun.chars ++ (['\n'] ++
            (['<', '='] ++ ([' '] ++ [':'])))))))) :=
    .cons (.numeral halfNumeral) (by decide)
      (List.all_eq_true.mp rfl)
      (.cons (.quoted oddText hText) (by decide)
        (List.all_eq_true.mp rfl)
        (.cons (.name smallRun) (by decide)
          (List.all_eq_true.mp rfl)
          (.cons (.operator .lessEqual) (by decide)
            (List.all_eq_true.mp rfl) (.single .colon))))
  have hName : smallRun.name = "$AB$07" := by rfl
  have hShape :
      Token.isReferenceShape smallRun.name.toList = true := by
    rw [hName]
    decide
  rcases (Token.isReferenceShape_name_iff smallRun).mp hShape
    with ⟨w, hSpelling⟩
  have hTokens :
      List.Forall₂ StandsFor
        [.numeral halfNumeral, .quoted oddText hText,
          .name smallRun, .operator .lessEqual, .colon]
        [.number halfNumeral.literal.value, .text oddText,
          .reference "$AB$07", .operator .lessEqual,
          .colon] := by
    rw [← hName]
    exact .cons (.numeral halfNumeral.parseNumber_chars)
      (.cons .quoted (.cons (.reference hSpelling)
        (.cons .operator (.cons .colon .nil))))
  have hRead := tokenize_spells.2 _ _ _ [] [] hSpells hTokens
    noBlanks noBlanks
  rw [List.nil_append, List.append_nil] at hRead
  exact hRead

end Lexeme

end Spreadsheet
