import Spreadsheet.Proofs.NameTokens

/-
  Tokens with look-ahead. A lexer can be asked to take the
  next token and to look at it first, in any order. Looking
  changes nothing that is answered later: each call answers
  what a lexer answers that has only taken tokens, as many
  as were taken before. An answer that no token follows,
  which is the end of the input or a fault, is the last one
  and is given again and again.

  Key definitions include:
    * `Lexer.Call`
    * `Lexer.after`
    * `Lexer.answer`

  The main result is `Lexer.lookahead_transparent`.
-/

namespace Spreadsheet

variable {total : Nat}
variable {c : Char}
variable {blanks rest left : List Char}
variable {token : Token}

------------------------------------------------------------
-- The Front Of A Text
------------------------------------------------------------

/- A text is blank, or some other character comes first. -/
theorem blank_or_exists_char
    (cs : List Char) :
    (∀ b ∈ cs, Blank.isBlank b = true)
      ∨ ∃ blanks c rest, cs = blanks ++ c :: rest
        ∧ (∀ b ∈ blanks, Blank.isBlank b = true)
        ∧ Blank.isBlank c = false := by
  have hSplit :=
    List.takeWhile_append_dropWhile (p := Blank.isBlank)
      (l := cs)
  cases hDrop : cs.dropWhile Blank.isBlank with
  | nil => exact Or.inl (List.dropWhile_eq_nil_iff.mp hDrop)
  | cons c rest =>
      rw [hDrop] at hSplit
      refine Or.inr ⟨_, c, rest, hSplit.symm,
        fun b hb => List.mem_takeWhile_imp hb, ?_⟩
      have hHead := List.head?_dropWhile_not Blank.isBlank cs
      rw [hDrop] at hHead
      exact hHead

/- At the end of a text there are only blanks left. -/
theorem nextToken_blanks
    (hBlanks : ∀ b ∈ blanks, Blank.isBlank b = true) :
    nextToken total blanks = (.ok .endOfInput, []) := by
  rw [nextToken, List.dropWhile_eq_nil_iff.mpr hBlanks]

/- A fault lies at the first character after the blanks. -/
theorem nextToken_of_take?_eq_none
    (hBlanks : ∀ b ∈ blanks, Blank.isBlank b = true)
    (hc : Blank.isBlank c = false)
    (h : Token.take? c rest = none) :
    nextToken total (blanks ++ c :: rest) =
      (.error ⟨c, total - (rest.length + 1)⟩,
        c :: rest) := by
  simp only [nextToken, dropWhile_blanks hBlanks hc, h]

theorem Tokens.ofRest_of_take?_eq_none
    (hBlanks : ∀ b ∈ blanks, Blank.isBlank b = true)
    (hc : Blank.isBlank c = false)
    (h : Token.take? c rest = none) :
    ofRest total (blanks ++ c :: rest) =
      stuck ⟨c, total - (rest.length + 1)⟩ := by
  have hDrop :
      (blanks ++ c :: rest).dropWhile Blank.isBlank =
        c :: rest :=
    dropWhile_blanks hBlanks hc
  rw [ofRest]
  split
  · next hNil =>
      rw [hDrop] at hNil
      cases hNil
  · next c' rest' hCons =>
      rw [hDrop] at hCons
      cases hCons
      split
      · next hTake =>
          rw [h] at hTake
          cases hTake
      · rfl

------------------------------------------------------------
-- What A Token Leaves
------------------------------------------------------------

namespace Token

theorem takeText_suffix
    (cs : List Char) : (takeText cs).2 <:+ cs := by
  fun_induction takeText cs with
  | case1 => exact List.suffix_rfl
  | case2 rest => exact List.suffix_cons '"' rest
  | case3 rest s after hRest ih =>
      rw [hRest] at ih
      exact (ih.trans (List.suffix_cons _ _)).trans
        (List.suffix_cons _ _)
  | case4 c rest _ _ s after hRest ih =>
      rw [hRest] at ih
      exact ih.trans (List.suffix_cons _ _)

theorem takeDigits_suffix
    (cs : List Char) :
    (DecimalLiteral.takeDigits cs).2 <:+ cs := by
  have hDrop : cs.dropWhile Char.isDigit <:+ cs :=
    List.dropWhile_suffix _
  unfold DecimalLiteral.takeDigits
  split
  · next rest hPoint =>
      rw [hPoint] at hDrop
      exact (List.dropWhile_suffix _).trans
        ((List.suffix_cons '.' rest).trans hDrop)
  · exact hDrop

theorem operator_suffix
    {cs : List Char}
    {op : BinaryOperator}
    (h : BinaryOperator.take? cs = some (op, left)) :
    left <:+ cs := by
  unfold BinaryOperator.take? at h
  split at h
  · cases h
  · rcases Option.map_eq_some_iff.mp h with ⟨_, _, hPair⟩
    cases hPair
    exact List.suffix_cons _ _
  · split at h
    · cases h
      exact (List.suffix_cons _ _).trans
        (List.suffix_cons _ _)
    · rcases Option.map_eq_some_iff.mp h with ⟨_, _, hPair⟩
      cases hPair
      exact List.suffix_cons _ _

/- A token is taken off the front and the rest is left. -/
theorem suffix_of_take?
    (h : take? c rest = some (token, left)) :
    left <:+ rest := by
  have hLength := length_of_take? h
  have hAll : left <:+ c :: rest := by
    unfold take? at h
    split at h
    · cases h
      exact List.suffix_cons _ _
    · split at h
      · cases h
        exact (takeText_suffix rest).trans
          (List.suffix_cons _ _)
      · split at h
        · cases h
          exact takeDigits_suffix (c :: rest)
        · split at h
          · next hOperator =>
              cases h
              exact operator_suffix hOperator
          · split at h
            · cases h
              exact (List.dropWhile_suffix _).trans
                (List.suffix_cons _ _)
            · cases h
  refine (List.suffix_cons_iff.mp hAll).resolve_left ?_
  rintro rfl
  rw [List.length_cons] at hLength
  omega

/- The end of the input is not taken off a text. -/
theorem ne_endOfInput_of_take?
    (h : take? c rest = some (token, left)) :
    token ≠ .endOfInput := by
  rintro rfl
  unfold take? at h
  split at h
  · next hMark =>
      cases h
      unfold punctuation? at hMark
      split at hMark <;> cases hMark
  · split at h
    · cases h
    · split at h
      · cases h
      · split at h
        · cases h
        · split at h
          · have hName := congrArg Prod.fst (Option.some.inj h)
            simp only [ofName] at hName
            split at hName
            · cases hName
            · split at hName
              · cases hName
              · split at hName <;> cases hName
          · cases h

end Token

------------------------------------------------------------
-- Calls
------------------------------------------------------------

namespace Lexer

/- The two ways to ask for a token. -/
inductive Call where
  | next
  | peek
deriving DecidableEq

/- Make a call. -/
def ask
    (lexer : Lexer) : Call → Except LexicalFault Token × Lexer
  | .next => lexer.next
  | .peek => lexer.peek

/- The lexer after calls have been made one by one. -/
def after
    (lexer : Lexer)
    (calls : List Call) : Lexer :=
  calls.foldl (fun lexer call => (lexer.ask call).2) lexer

/- What a call answers after other calls. -/
def answer
    (lexer : Lexer)
    (calls : List Call)
    (call : Call) : Except LexicalFault Token :=
  ((lexer.after calls).ask call).1

variable {lexer : Lexer}

@[simp]
theorem after_nil
    (lexer : Lexer) : lexer.after [] = lexer :=
  rfl

@[simp]
theorem after_cons
    (lexer : Lexer)
    (call : Call)
    (calls : List Call) :
    lexer.after (call :: calls) =
      (lexer.ask call).2.after calls :=
  rfl

theorem after_append
    (lexer : Lexer)
    (first second : List Call) :
    lexer.after (first ++ second) =
      (lexer.after first).after second :=
  List.foldl_append

------------------------------------------------------------
-- Looking
------------------------------------------------------------

/- Nothing has been looked at after a token is taken. -/
theorem peeked_next
    (lexer : Lexer) : lexer.next.2.peeked = none := by
  unfold next
  split
  · rfl
  · assumption

/- A fault is found again where it was found. -/
theorem next_next_of_error
    {fault : LexicalFault}
    (h : lexer.next.1 = .error fault) :
    lexer.next.2.next = lexer.next := by
  rcases lexer with ⟨total, rest, - | token⟩
  · rcases blank_or_exists_char rest with
      hBlank | ⟨blanks, c, rest, rfl, hBlanks, hc⟩
    · simp only [next, nextToken_blanks hBlank] at h
      cases h
    · cases hTake : Token.take? c rest with
      | some taken =>
          simp only [next,
            nextToken_of_take? hBlanks hc hTake] at h
          cases h
      | none =>
          have hAgain :
              nextToken total ([] ++ c :: rest) = _ :=
            nextToken_of_take?_eq_none noBlanks hc hTake
          rw [List.nil_append] at hAgain
          simp only [next, hAgain,
            nextToken_of_take?_eq_none hBlanks hc hTake]
  · cases h

/- Looking answers what taking would answer. -/
theorem fst_peek
    (lexer : Lexer) : lexer.peek.1 = lexer.next.1 := by
  unfold peek
  split <;> next h => rw [h]

/- After a look the token is still there to be taken. -/
theorem next_peek
    (lexer : Lexer) : lexer.peek.2.next = lexer.next := by
  have hPeeked := peeked_next lexer
  have hError := @next_next_of_error lexer
  unfold peek
  split
  · next token after h =>
      rw [h] at hPeeked ⊢
      change (_, { after with peeked := none }) = _
      rw [← hPeeked]
  · next fault after h =>
      rw [h] at hError ⊢
      exact hError rfl

theorem fst_ask
    (lexer : Lexer)
    (call : Call) : (lexer.ask call).1 = lexer.next.1 := by
  cases call with
  | next => rfl
  | peek => exact fst_peek lexer

/-
  What is taken next depends on how many tokens were taken
  before. The induction is on the calls, and a look leaves
  the next call as it was.
-/
theorem next_after
    (lexer : Lexer)
    (calls : List Call) :
    (lexer.after calls).next =
      (lexer.after
        (List.replicate (calls.count .next) .next)).next := by
  induction calls generalizing lexer with
  | nil => rfl
  | cons call calls ih =>
      rw [after_cons, ih]
      cases call with
      | next =>
          rw [List.count_cons_self, List.replicate_succ]
          rfl
      | peek =>
          rw [List.count_cons_of_ne (by decide)]
          cases calls.count .next with
          | zero => exact next_peek lexer
          | succ n =>
              simp only [List.replicate_succ, after_cons, ask,
                next_peek]

/- So answers depend on nothing else. -/
theorem answer_eq
    (lexer : Lexer)
    (calls : List Call)
    (call : Call) :
    lexer.answer calls call =
      (lexer.after
        (List.replicate (calls.count .next) .next)).next.1 := by
  rw [answer, fst_ask, next_after]

theorem answer_congr
    {calls calls' : List Call}
    (h : calls.count .next = calls'.count .next)
    (lexer : Lexer)
    (call call' : Call) :
    lexer.answer calls call = lexer.answer calls' call' := by
  rw [answer_eq, answer_eq, h]

------------------------------------------------------------
-- Last Answers
------------------------------------------------------------

/- The end of the input, or a fault. -/
def IsLast
    (answer : Except LexicalFault Token) : Prop :=
  ∀ token, answer = .ok token → token = .endOfInput

/- An answer that is the last is given again. -/
theorem next_next_of_isLast
    (hPlain : lexer.peeked = none)
    (hLast : IsLast lexer.next.1) :
    lexer.next.2.next = lexer.next := by
  cases hNext : lexer.next.1 with
  | error fault => exact next_next_of_error hNext
  | ok token =>
      rcases lexer with ⟨total, rest, - | looked⟩
      · rcases blank_or_exists_char rest with
          hBlank | ⟨blanks, c, rest, rfl, hBlanks, hc⟩
        · simp only [next, nextToken_blanks hBlank,
            nextToken_blanks noBlanks]
        · cases hTake : Token.take? c rest with
          | none =>
              simp only [next,
                nextToken_of_take?_eq_none hBlanks hc hTake]
                at hNext
              cases hNext
          | some taken =>
              simp only [next,
                nextToken_of_take? hBlanks hc hTake] at hLast
              exact absurd (hLast _ rfl)
                (Token.ne_endOfInput_of_take? hTake)
      · cases hPlain

theorem next_after_of_isLast
    (hPlain : lexer.peeked = none)
    (hLast : IsLast lexer.next.1)
    (n : Nat) :
    (lexer.after (List.replicate n .next)).next =
      lexer.next := by
  have hAgain := next_next_of_isLast hPlain hLast
  induction n generalizing lexer with
  | zero => rfl
  | succ n ih =>
      rw [List.replicate_succ, after_cons]
      change (lexer.next.2.after _).next = _
      rw [← hAgain] at hLast
      rw [ih (peeked_next lexer) hLast, hAgain]
      exact next_next_of_isLast (peeked_next lexer) hLast

theorem peeked_after_next
    (hPlain : lexer.peeked = none)
    (n : Nat) :
    (lexer.after (List.replicate n .next)).peeked = none := by
  induction n generalizing lexer with
  | zero => exact hPlain
  | succ n ih =>
      rw [List.replicate_succ, after_cons]
      exact ih (peeked_next lexer)

/- From then on all calls give it. -/
theorem answer_of_isLast
    (hPlain : lexer.peeked = none)
    {calls : List Call}
    {call : Call}
    (hLast : IsLast (lexer.answer calls call))
    (more : List Call)
    (call' : Call) :
    lexer.answer (calls ++ call :: more) call' =
      lexer.answer calls call := by
  rw [answer_eq] at hLast ⊢
  rw [answer_eq, List.count_append, List.replicate_add,
    after_append, next_after_of_isLast
      (peeked_after_next hPlain _) hLast]

------------------------------------------------------------
-- Where A Fault Lies
------------------------------------------------------------

/- A place in a text. -/
def Within
    (cs : List Char)
    (lexer : Lexer) : Prop :=
  lexer.total = cs.length ∧ lexer.rest <:+ cs

theorem within_ofChars
    (cs : List Char) : Within cs (ofChars cs) :=
  ⟨rfl, List.suffix_rfl⟩

/- What is left after a token is left of the same text. -/
theorem nextToken_suffix
    (total : Nat)
    (cs : List Char) : (nextToken total cs).2 <:+ cs := by
  rcases blank_or_exists_char cs with
    hBlank | ⟨blanks, c, rest, rfl, hBlanks, hc⟩
  · rw [nextToken_blanks hBlank]
    exact List.nil_suffix
  · cases hTake : Token.take? c rest with
    | none =>
        rw [nextToken_of_take?_eq_none hBlanks hc hTake]
        exact List.suffix_append _ _
    | some taken =>
        rw [nextToken_of_take? hBlanks hc hTake]
        exact ((Token.suffix_of_take? hTake).trans
          (List.suffix_cons _ _)).trans
            (List.suffix_append _ _)

theorem Within.next
    {cs : List Char}
    (h : Within cs lexer) : Within cs lexer.next.2 := by
  unfold Lexer.next
  split
  · exact h
  · exact ⟨h.1, (nextToken_suffix _ _).trans h.2⟩

theorem Within.after_next
    {cs : List Char}
    (h : Within cs lexer)
    (n : Nat) :
    Within cs (lexer.after (List.replicate n .next)) := by
  induction n generalizing lexer with
  | zero => exact h
  | succ n ih =>
      rw [List.replicate_succ, after_cons]
      exact ih h.next

/- A fault counts the characters in front of its own. -/
theorem Within.position_eq
    {cs : List Char}
    {fault : LexicalFault}
    (h : Within cs lexer)
    (hFault : lexer.next.1 = .error fault) :
    ∃ before after, cs = before ++ fault.char :: after
      ∧ fault.position = before.length
      ∧ Token.take? fault.char after = none := by
  rcases lexer with ⟨total, rest, - | token⟩
  · rcases h with ⟨hTotal, before, hBefore⟩
    change total = _ at hTotal
    change before ++ rest = _ at hBefore
    subst hTotal hBefore
    rcases blank_or_exists_char rest with
      hBlank | ⟨blanks, c, rest, rfl, hBlanks, hc⟩
    · simp only [Lexer.next, nextToken_blanks hBlank]
        at hFault
      cases hFault
    · cases hTake : Token.take? c rest with
      | some taken =>
          simp only [Lexer.next,
            nextToken_of_take? hBlanks hc hTake] at hFault
          cases hFault
      | none =>
          simp only [Lexer.next,
            nextToken_of_take?_eq_none hBlanks hc hTake]
            at hFault
          cases hFault
          refine ⟨before ++ blanks, rest,
            (List.append_assoc _ _ _).symm, ?_, hTake⟩
          simp only [List.length_append, List.length_cons]
          omega
  · cases hFault

------------------------------------------------------------
-- Lists Of Tokens
------------------------------------------------------------

/-
  The stream of a text holds the tokens that are taken one
  after another up to the last answer. The induction is on
  what is left of the text.
-/
theorem exists_taken
    (total : Nat)
    (cs : List Char) :
    ∃ tokens : List Token,
      (∀ i token, tokens[i]? = some token →
        token ≠ .endOfInput
          ∧ (after ⟨total, cs, none⟩
            (List.replicate i .next)).next.1 = .ok token)
      ∧ ((after ⟨total, cs, none⟩
            (List.replicate tokens.length .next)).next.1 =
          .ok .endOfInput
        ∧ Tokens.ofRest total cs =
          Tokens.prepend tokens .done
        ∨ ∃ fault,
          (after ⟨total, cs, none⟩
            (List.replicate tokens.length .next)).next.1 =
              .error fault
          ∧ Tokens.ofRest total cs =
            Tokens.prepend tokens (.stuck fault)) := by
  induction hLength : cs.length using Nat.strong_induction_on
    generalizing cs with
  | _ n ih =>
      rcases blank_or_exists_char cs with
        hBlank | ⟨blanks, c, rest, rfl, hBlanks, hc⟩
      · refine ⟨[], nofun, Or.inl ⟨?_, ?_⟩⟩
        · simp [next, nextToken_blanks hBlank]
        · exact Tokens.ofRest_blanks hBlank
      · cases hTake : Token.take? c rest with
        | none =>
            refine ⟨[], nofun, Or.inr ⟨_, ?_,
              Tokens.ofRest_of_take?_eq_none hBlanks hc
                hTake⟩⟩
            simp [next,
              nextToken_of_take?_eq_none hBlanks hc hTake]
        | some taken =>
            rcases taken with ⟨token, left⟩
            have hShorter := Token.length_of_take? hTake
            have hFirst :
                next ⟨total, blanks ++ c :: rest, none⟩ =
                  (.ok token, ⟨total, left, none⟩) := by
              simp [next, nextToken_of_take? hBlanks hc hTake]
            have hStep (n : Nat) :
                after ⟨total, blanks ++ c :: rest, none⟩
                    (List.replicate (n + 1) .next) =
                  after ⟨total, left, none⟩
                    (List.replicate n .next) := by
              rw [List.replicate_succ, after_cons, ask, hFirst]
            rcases ih left.length
                (by
                  rw [← hLength, List.length_append,
                    List.length_cons]
                  omega) left rfl with
              ⟨tokens, hTokens, hEnd⟩
            refine ⟨token :: tokens, ?_, ?_⟩
            · rintro (- | i) other hOther
              · cases hOther
                rw [List.replicate_zero, after_nil, hFirst]
                exact ⟨Token.ne_endOfInput_of_take? hTake,
                  rfl⟩
              · rw [hStep]
                exact hTokens i other hOther
            · rw [List.length_cons, hStep,
                Tokens.ofRest_of_take? hBlanks hc hTake]
              rcases hEnd with
                ⟨hLast, hRest⟩ | ⟨fault, hLast, hRest⟩
              · exact Or.inl ⟨hLast, by rw [hRest]; rfl⟩
              · exact Or.inr ⟨fault, hLast, by rw [hRest]; rfl⟩

end Lexer

/- A stream that gets stuck is no list. -/
theorem Tokens.toList_prepend_stuck
    (tokens : List Token)
    (fault : LexicalFault) :
    (prepend tokens (.stuck fault)).toList =
      .error fault := by
  induction tokens with
  | nil => rfl
  | cons token tokens ih =>
      rw [prepend_cons, toList, ih]
      rfl

------------------------------------------------------------
-- Look-Ahead
------------------------------------------------------------

namespace Lexer

/-
  Looking ahead does not disturb what is read. In whatever
  order a text is looked at and taken from, taking answers
  what it answers if nothing is looked at, and a look
  answers what is taken next, however often one looks in
  between. The end of the input is answered again by every
  call, and so is a fault, which counts the characters of
  the text before the one it names. And the tokens of a text
  are those taken one after another until its only end, or
  until the fault which then stands for all of them.
-/
theorem lookahead_transparent
    (text : String) :
    (∀ calls,
      (ofChars text.toList).answer calls .next =
        (ofChars text.toList).answer
          (calls.filter (· == .next)) .next)
    ∧ (∀ calls n,
      (ofChars text.toList).answer calls .peek =
        (ofChars text.toList).answer
          (calls ++ List.replicate (n + 1) .peek) .next)
    ∧ (∀ calls call more call',
      (ofChars text.toList).answer calls call =
          .ok .endOfInput →
        (ofChars text.toList).answer
          (calls ++ call :: more) call' = .ok .endOfInput)
    ∧ (∀ calls call fault,
      (ofChars text.toList).answer calls call =
          .error fault →
        (∀ more call',
          (ofChars text.toList).answer
            (calls ++ call :: more) call' = .error fault)
        ∧ ∃ before after,
          text.toList = before ++ fault.char :: after
            ∧ fault.position = before.length
            ∧ Token.take? fault.char after = none)
    ∧ ∃ tokens : List Token,
      (∀ i token, tokens[i]? = some token →
        token ≠ .endOfInput
          ∧ (ofChars text.toList).answer
            (List.replicate i .next) .next = .ok token)
      ∧ ((ofChars text.toList).answer
            (List.replicate tokens.length .next) .next =
          .ok .endOfInput
        ∧ tokenize text = .ok (tokens ++ [.endOfInput])
        ∨ ∃ fault,
          (ofChars text.toList).answer
            (List.replicate tokens.length .next) .next =
              .error fault
          ∧ tokenize text = .error fault) := by
  have hPlain : (ofChars text.toList).peeked = none := rfl
  refine ⟨fun calls => ?_, fun calls n => ?_,
    fun calls call more call' hEnd => ?_,
    fun calls call fault hFault => ⟨fun more call' => ?_, ?_⟩,
    ?_⟩
  · apply answer_congr
    rw [List.count_filter (by decide)]
  · apply answer_congr
    rw [List.count_append,
      List.count_replicate, if_neg (by decide), Nat.add_zero]
  · rw [answer_of_isLast hPlain, hEnd]
    rintro token hToken
    rw [hEnd] at hToken
    cases hToken
    rfl
  · rw [answer_of_isLast hPlain, hFault]
    rintro token hToken
    rw [hFault] at hToken
    cases hToken
  · rw [answer_eq] at hFault
    exact ((within_ofChars _).after_next _).position_eq hFault
  · rcases exists_taken text.toList.length text.toList with
      ⟨tokens, hTokens, hEnd⟩
    refine ⟨tokens, hTokens, ?_⟩
    rcases hEnd with ⟨hLast, hStream⟩ | ⟨fault, hLast, hStream⟩
    · refine Or.inl ⟨hLast, ?_⟩
      rw [tokenize, Tokens.ofChars, hStream]
      exact Tokens.toList_eq_ok_iff.mpr ⟨tokens, rfl, rfl⟩
    · refine Or.inr ⟨fault, hLast, ?_⟩
      rw [tokenize, Tokens.ofChars, hStream,
        Tokens.toList_prepend_stuck]

/-
  A text whose end is looked at before it is taken, and one
  with a character beyond ASCII before the fault.
-/
theorem lookahead_transparent_bothEnds :
    (ofChars "A1 ".toList).answer [.next, .peek, .next] .peek
        = .ok .endOfInput
      ∧ (ofChars "\"\u00e9\" #".toList).answer [.peek, .next]
          .peek = .error ⟨'#', 4⟩
      ∧ (ofChars "\"\u00e9\" #".toList).answer
          [.peek, .next, .peek, .peek] .next =
        .error ⟨'#', 4⟩ := by
  have hEnd :
      (ofChars "A1 ".toList).answer [.next] .peek =
        .ok .endOfInput := by
    decide
  have hFault :
      (ofChars "\"\u00e9\" #".toList).answer [.peek, .next]
        .peek = .error ⟨'#', 4⟩ := by
    decide
  rcases lookahead_transparent "A1 " with ⟨-, -, hEnds, -⟩
  rcases lookahead_transparent "\"\u00e9\" #" with
    ⟨-, -, -, hFaults, -⟩
  exact ⟨hEnds _ _ [.next] .peek hEnd, hFault,
    (hFaults _ _ _ hFault).1 [.peek] .next⟩

end Lexer

end Spreadsheet
