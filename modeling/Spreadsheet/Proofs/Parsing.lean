import Spreadsheet.Formula.Parser

/-
  What the readers of expressions take off the front of
  their tokens if they do not fail, each by the readers that
  it calls. Later proofs about reading start from these
  equations.

  Main declarations:
    * `Tokens.prepend` and `Tokens.toList_eq_ok_iff`
    * `Parser.expression?` and `Parser.expression?_eq`
    * `Parser.operators?_operator`
    * `Parser.operand?_next`
    * `Parser.arguments?_eq` and `Parser.moreArguments?_eq`
-/

namespace Spreadsheet

------------------------------------------------------------
-- Tokens In Front Of Others
------------------------------------------------------------

namespace Tokens

/- Tokens in front of what is left of a stream. -/
def prepend
    (tokens : List Token)
    (rest : Tokens) : Tokens :=
  tokens.foldr next rest

@[simp]
theorem prepend_nil
    (rest : Tokens) : prepend [] rest = rest :=
  rfl

@[simp]
theorem prepend_cons
    (token : Token)
    (tokens : List Token)
    (rest : Tokens) :
    prepend (token :: tokens) rest =
      next token (prepend tokens rest) :=
  rfl

@[simp]
theorem prepend_append
    (first second : List Token)
    (rest : Tokens) :
    prepend (first ++ second) rest =
      prepend first (prepend second rest) :=
  List.foldr_append

/- A fault further on does not show at the front. -/
theorem fault?_prepend
    {rest : Tokens}
    (h : rest.fault? = none)
    (tokens : List Token) :
    (prepend tokens rest).fault? = none := by
  cases tokens with
  | nil => exact h
  | cons token tokens => rfl

/- Tokens without a fault are a list before the end. -/
theorem toList_eq_ok_iff
    {tokens : Tokens}
    {list : List Token} :
    tokens.toList = .ok list ↔
      ∃ before, list = before ++ [.endOfInput]
        ∧ tokens = prepend before done := by
  constructor
  · intro h
    induction tokens generalizing list with
    | done =>
        cases h
        exact ⟨[], rfl, rfl⟩
    | stuck fault => cases h
    | next token rest ih =>
        unfold toList at h
        cases hRest : rest.toList with
        | error fault =>
            rw [hRest] at h
            cases h
        | ok after =>
            rw [hRest] at h
            cases h
            rcases ih hRest with ⟨before, rfl, rfl⟩
            exact ⟨token :: before, rfl, rfl⟩
  · rintro ⟨before, rfl, rfl⟩
    induction before with
    | nil => rfl
    | cons token before ih =>
        simp only [prepend_cons, toList, ih]
        rfl

theorem prepend_done_inj
    {first second : List Token}
    (h : prepend first done = prepend second done) :
    first = second := by
  have hFirst := toList_eq_ok_iff.mpr ⟨first, rfl, rfl⟩
  have hSecond := toList_eq_ok_iff.mpr ⟨second, rfl, rfl⟩
  rw [h, hSecond, Except.ok.injEq] at hFirst
  exact (List.append_cancel_right hFirst).symm

end Tokens

namespace Parser

------------------------------------------------------------
-- What Is Taken
------------------------------------------------------------

/- An expression and what is left, if reading succeeds. -/
def taken?
    {n : Nat} :
    Except FormulaError (Parsed n) → Option (Expr × Tokens)
  | .ok parsed => some (parsed.expr, parsed.rest)
  | .error _ => none

/- The same for a list of arguments. -/
def takenList?
    {n : Nat} :
    Except FormulaError (ParsedList n) →
      Option (List Expr × Tokens)
  | .ok parsed => some (parsed.args, parsed.rest)
  | .error _ => none

def expression?
    (least : Nat)
    (tokens : Tokens) : Option (Expr × Tokens) :=
  taken? (expression least tokens)

def operators?
    (least : Nat)
    (left : Expr)
    (tokens : Tokens) : Option (Expr × Tokens) :=
  taken? (operators least left tokens)

def operand?
    (tokens : Tokens) : Option (Expr × Tokens) :=
  taken? (operand tokens)

def arguments?
    (tokens : Tokens) : Option (List Expr × Tokens) :=
  takenList? (arguments tokens)

def moreArguments?
    (tokens : Tokens) : Option (List Expr × Tokens) :=
  takenList? (moreArguments tokens)

def rangeAfter?
    (first : Address)
    (tokens : Tokens) : Option (Expr × Tokens) :=
  taken? (rangeAfter first tokens)

/- Fewer tokens are left than there were. -/
theorem length_of_taken?
    {n : Nat}
    {result : Except FormulaError (Parsed n)}
    {e : Expr}
    {rest : Tokens}
    (h : taken? result = some (e, rest)) :
    rest.length < n := by
  cases result with
  | error err => cases h
  | ok parsed =>
      cases h
      exact parsed.fewer

theorem length_of_expression?
    {least : Nat}
    {tokens rest : Tokens}
    {e : Expr}
    (h : expression? least tokens = some (e, rest)) :
    rest.length < tokens.length :=
  length_of_taken? h

------------------------------------------------------------
-- Expressions
------------------------------------------------------------

/- An expression is an operand with operators after it. -/
theorem expression?_eq
    (least : Nat)
    (tokens : Tokens) :
    expression? least tokens =
      (operand? tokens).bind fun p =>
        operators? least p.1 p.2 := by
  unfold expression? operand? operators?
  rw [expression]
  cases operand tokens with
  | error e => rfl
  | ok parsed =>
      obtain ⟨left, rest, h⟩ := parsed
      dsimp only [taken?, Option.bind_some]
      cases operators least left rest with
      | error e => rfl
      | ok parsed => rfl

/- Operators that bind too loosely are left alone. -/
theorem operators?_loose
    {least : Nat}
    {left : Expr}
    {op : BinaryOperator}
    {rest : Tokens}
    (h : op.precedence < least) :
    operators? least left (.next (.operator op) rest) =
      some (left, .next (.operator op) rest) := by
  unfold operators?
  rw [operators.eq_def]
  simp only [h, ↓reduceIte, taken?]

/- Other operators are taken with their right operand. -/
theorem operators?_operator
    {least : Nat}
    {left : Expr}
    {op : BinaryOperator}
    {rest : Tokens}
    (hTight : least ≤ op.precedence)
    (hRest : rest.fault? = none) :
    operators? least left (.next (.operator op) rest) =
      (expression? op.rightPrecedence rest).bind fun p =>
        operators? least (.binary op left p.1) p.2 := by
  have hNot : ¬ op.precedence < least := by omega
  unfold operators? expression?
  rw [operators.eq_def]
  simp only [hNot, ↓reduceIte, hRest]
  cases expression op.rightPrecedence rest with
  | error e => rfl
  | ok parsed =>
      obtain ⟨right, after, h⟩ := parsed
      dsimp only [taken?, Option.bind_some]
      cases operators least (.binary op left right) after with
      | error e => rfl
      | ok parsed => rfl

/- An operator is not taken right before a fault. -/
theorem operators?_fault
    {least : Nat}
    {left : Expr}
    {op : BinaryOperator}
    {fault : LexicalFault}
    (hTight : least ≤ op.precedence) :
    operators? least left
      (.next (.operator op) (.stuck fault)) = none := by
  have hNot : ¬ op.precedence < least := by omega
  unfold operators?
  rw [operators.eq_def]
  simp only [hNot, ↓reduceIte, Tokens.fault?, taken?]

/- Anything else ends the operators. -/
theorem operators?_other
    {least : Nat}
    {left : Expr}
    {tokens : Tokens}
    (h : ∀ op rest, tokens ≠ .next (.operator op) rest) :
    operators? least left tokens = some (left, tokens) := by
  unfold operators?
  rw [operators.eq_def]
  split
  · next op rest => exact absurd rfl (h op rest)
  · rfl

------------------------------------------------------------
-- Single Tokens
------------------------------------------------------------

/- What is left after a closing parenthesis. -/
def closing?
    (tokens : Tokens) : Option Tokens :=
  match closing tokens with
  | .ok rest => some rest.1
  | .error _ => none

/- The token that a separator is. -/
def Separator.token : Separator → Token
  | comma => .comma
  | last => .rightParenthesis

/- A separator after an argument, and what is left. -/
def separator?
    (tokens : Tokens) : Option (Separator × Tokens) :=
  match separator tokens with
  | .ok (kind, rest) => some (kind, rest.1)
  | .error _ => none

theorem closing?_eq_some_iff
    {tokens rest : Tokens} :
    closing? tokens = some rest ↔
      tokens = .next .rightParenthesis rest
        ∧ rest.fault? = none := by
  constructor
  · intro h
    unfold closing? closing at h
    split at h
    · next found hFound =>
        split at hFound
        · split at hFound
          · cases hFound
          · next hFault =>
              cases hFound
              cases h
              exact ⟨rfl, hFault⟩
        · cases hFound
    · cases h
  · rintro ⟨rfl, hFault⟩
    simp only [closing?, closing, hFault]

theorem separator?_eq_some_iff
    {tokens rest : Tokens}
    {kind : Separator} :
    separator? tokens = some (kind, rest) ↔
      tokens = .next kind.token rest
        ∧ rest.fault? = none := by
  constructor
  · intro h
    unfold separator? separator at h
    split at h
    · next found hFound =>
        split at hFound
        · split at hFound
          · cases hFound
          · next hFault =>
              cases hFound
              cases h
              exact ⟨rfl, hFault⟩
        · split at hFound
          · cases hFound
          · next hFault =>
              cases hFound
              cases h
              exact ⟨rfl, hFault⟩
        · cases hFound
    · cases h
  · rintro ⟨rfl, hFault⟩
    cases kind <;>
      simp only [separator?, separator, Separator.token,
        hFault]

theorem address_eq_ok_iff
    {name : String}
    {a : Address} :
    address name = .ok a ↔ Address.parse name = .ok a := by
  unfold address
  cases Address.parse name with
  | ok b => simp
  | error fault => simp

/- A reference is taken with the range that it starts. -/
theorem rangeAfter?_eq_some_iff
    {first : Address}
    {tokens rest : Tokens}
    {e : Expr} :
    rangeAfter? first tokens = some (e, rest) ↔
      (∃ name second,
        tokens = .next .colon (.next (.reference name) rest)
          ∧ rest.fault? = none
          ∧ Address.parse name = .ok second
          ∧ e = .range first second)
      ∨ ((∀ after, tokens ≠ .next .colon after)
          ∧ tokens = rest ∧ e = .cell first) := by
  constructor
  · intro h
    unfold rangeAfter? rangeAfter at h
    split at h
    · cases h
    · next token after =>
        left
        split at h
        · cases h
        · next hFault =>
            split at h
            · next name =>
                split at h
                · cases h
                · next second hSecond =>
                    cases h
                    exact ⟨name, second, rfl, hFault,
                      address_eq_ok_iff.mp hSecond, rfl⟩
            · cases h
    · cases h
    · next hStuck hNext hDone =>
        right
        cases h
        refine ⟨?_, rfl, rfl⟩
        rintro (_ | fault | ⟨token, after⟩) rfl
        · exact hDone rfl
        · exact hStuck fault rfl
        · exact hNext token after rfl
  · rintro (⟨name, second, rfl, hFault, hSecond, rfl⟩ |
      ⟨hColon, rfl, rfl⟩)
    · simp only [rangeAfter?, rangeAfter, hFault,
        address_eq_ok_iff.mpr hSecond, taken?]
    · unfold rangeAfter? rangeAfter
      split
      · exact absurd rfl (hColon _)
      · exact absurd rfl (hColon _)
      · exact absurd rfl (hColon _)
      · rfl

------------------------------------------------------------
-- Operands
------------------------------------------------------------

/-
  What an operand is that starts with a token, after which
  comes no fault.
-/
def operandFrom?
    (token : Token)
    (rest : Tokens) : Option (Expr × Tokens) :=
  match token with
  | .number x => some (.number x, rest)
  | .text s => some (.text s, rest)
  | .boolean b => some (.boolean b, rest)
  | .reference name =>
      match address name with
      | .error _ => none
      | .ok first => rangeAfter? first rest
  | .identifier name =>
      match rest with
      | .next .leftParenthesis inner =>
          (arguments? inner).map fun p =>
            (.call name p.1, p.2)
      | _ => none
  | .leftParenthesis =>
      (expression? 0 rest).bind fun p =>
        (closing? p.2).map fun after => (p.1, after)
  | .operator .subtract =>
      (operand? rest).map fun p => (.negate p.1, p.2)
  | _ => none

/- An operand starts with a token before no fault. -/
theorem operand?_next
    {token : Token}
    {rest : Tokens}
    (hRest : rest.fault? = none) :
    operand? (.next token rest) =
      operandFrom? token rest := by
  unfold operand?
  rw [operand.eq_def]
  simp only [hRest]
  cases token with
  | number x => rfl
  | text s => rfl
  | boolean b => rfl
  | reference name =>
      unfold operandFrom? rangeAfter?
      dsimp only
      cases address name <;> rfl
  | identifier name =>
      unfold operandFrom? arguments?
      cases rest with
      | done => rfl
      | stuck fault => rfl
      | next token inner =>
          cases token with
          | leftParenthesis =>
              dsimp only
              cases arguments inner <;> rfl
          | _ => rfl
  | leftParenthesis =>
      unfold operandFrom? expression? closing?
      cases expression 0 rest with
      | error e => rfl
      | ok parsed =>
          obtain ⟨e, after, h⟩ := parsed
          dsimp only [taken?, Option.bind_some]
          cases closing after <;> rfl
  | operator op =>
      unfold operandFrom?
      cases op with
      | subtract =>
          unfold operand?
          dsimp only
          cases operand rest <;> rfl
      | _ => rfl
  | colon => rfl
  | comma => rfl
  | rightParenthesis => rfl
  | endOfInput => rfl

theorem operand?_stuck
    (fault : LexicalFault) :
    operand? (.stuck fault) = none := by
  unfold operand?
  rw [operand.eq_def]
  rfl

theorem exists_of_operand?
    {tokens : Tokens}
    {p : Expr × Tokens}
    (h : operand? tokens = some p) :
    ∃ token rest, tokens = .next token rest
      ∧ rest.fault? = none
      ∧ operandFrom? token rest = some p := by
  cases tokens with
  | done =>
      unfold operand? at h
      rw [operand.eq_def] at h
      cases h
  | stuck fault =>
      rw [operand?_stuck] at h
      cases h
  | next token rest =>
      cases hRest : rest.fault? with
      | none =>
          rw [operand?_next hRest] at h
          exact ⟨token, rest, rfl, hRest, h⟩
      | some fault =>
          unfold operand? at h
          rw [operand.eq_def] at h
          simp only [hRest] at h
          cases h

------------------------------------------------------------
-- Arguments
------------------------------------------------------------

/- Arguments are an expression and what follows it. -/
theorem moreArguments?_eq
    (tokens : Tokens) :
    moreArguments? tokens =
      (expression? 0 tokens).bind fun p =>
        (separator? p.2).bind fun q =>
          match q.1 with
          | .last => some ([p.1], q.2)
          | .comma =>
              (moreArguments? q.2).map fun r =>
                (p.1 :: r.1, r.2) := by
  unfold moreArguments? expression? separator?
  rw [moreArguments]
  cases expression 0 tokens with
  | error e => rfl
  | ok parsed =>
      obtain ⟨e, after, h⟩ := parsed
      dsimp only [taken?, Option.bind_some]
      cases separator after with
      | error err => rfl
      | ok found =>
          obtain ⟨kind, rest, hRest⟩ := found
          cases kind with
          | last => rfl
          | comma =>
              dsimp only [Option.bind_some]
              cases moreArguments rest <;> rfl

/- A call has no arguments, or at least one. -/
theorem arguments?_eq_some_iff
    {tokens rest : Tokens}
    {args : List Expr} :
    arguments? tokens = some (args, rest) ↔
      (tokens = .next .rightParenthesis rest
        ∧ rest.fault? = none ∧ args = [])
      ∨ ((∀ after, tokens ≠ .next .rightParenthesis after)
        ∧ moreArguments? tokens = some (args, rest)) := by
  constructor
  · intro h
    unfold arguments? at h
    rw [arguments.eq_def] at h
    split at h
    · cases h
    · next after =>
        split at h
        · cases h
        · next hFault =>
            cases h
            exact Or.inl ⟨rfl, hFault, rfl⟩
    · next hStuck hClosed =>
        refine Or.inr ⟨fun after hEq => hClosed after hEq, ?_⟩
        unfold moreArguments?
        cases hMore : moreArguments tokens with
        | error e =>
            rw [hMore] at h
            cases h
        | ok parsed =>
            rw [hMore] at h
            exact h
  · rintro (⟨rfl, hFault, rfl⟩ | ⟨hClosed, hMore⟩)
    · unfold arguments?
      rw [arguments.eq_def]
      simp only [hFault, takenList?]
    · unfold arguments?
      unfold moreArguments? at hMore
      rw [arguments.eq_def]
      split
      · change moreArguments? (.stuck _) = _ at hMore
        rw [moreArguments?_eq, expression?_eq,
          operand?_stuck] at hMore
        cases hMore
      · exact absurd rfl (hClosed _)
      · cases hRead : moreArguments tokens with
        | error e =>
            rw [hRead] at hMore
            cases hMore
        | ok parsed =>
            rw [hRead] at hMore
            exact hMore

/- One argument or more are the arguments of a call. -/
theorem arguments?_of_moreArguments?
    {tokens : Tokens}
    {p : List Expr × Tokens}
    (h : moreArguments? tokens = some p) :
    arguments? tokens = some p := by
  refine arguments?_eq_some_iff.mpr (Or.inr ⟨?_, h⟩)
  rintro after rfl
  have hNone :
      operand? (.next .rightParenthesis after) = none := by
    cases hRead : operand? (.next .rightParenthesis after) with
    | none => rfl
    | some q =>
        rcases exists_of_operand? hRead with
          ⟨token, rest, hEq, -, hFrom⟩
        cases hEq
        cases hFrom
  rw [moreArguments?_eq, expression?_eq, hNone] at h
  cases h

end Parser

end Spreadsheet
