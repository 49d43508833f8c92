import Spreadsheet.Proofs.Grammar
import Spreadsheet.Proofs.Parsing

/-
  What the readers of expressions take is derived by the
  grammar, and what they leave starts with no operator that
  still belongs to it.

  The induction is on the number of tokens. For operators
  it is given an expression that has been taken already, of
  a level after which the next operator can stand.

  Main declarations:
    * `Parser.StopsAt` and `Parser.Continues`
    * `Parser.operators?_stops`
    * `Parser.expression_sound`
-/

namespace Spreadsheet

open Grammar

namespace Parser

------------------------------------------------------------
-- What Stands After An Expression
------------------------------------------------------------

/-
  What is left starts with no operator of at least a
  precedence.
-/
def StopsAt
    (least : Nat)
    (tokens : Tokens) : Prop :=
  ∀ op rest, tokens = .next (.operator op) rest →
    op.precedence < least

/-
  An operator at the start of what is left can stand after
  an expression of a level.
-/
def Continues
    (level : Level)
    (tokens : Tokens) : Prop :=
  ∀ op rest, tokens = .next (.operator op) rest →
    (leftLevel op).rank ≤ level.rank

theorem Continues.mono
    {level level' : Level}
    {tokens : Tokens}
    (h : Continues level tokens)
    (hRank : level.rank ≤ level'.rank) :
    Continues level' tokens :=
  fun op rest hOp => Nat.le_trans (h op rest hOp) hRank

/- After operators that bind tightly others can follow. -/
theorem StopsAt.continues
    {op : BinaryOperator}
    {tokens : Tokens}
    (h : StopsAt op.rightPrecedence tokens) :
    Continues (levelOf op) tokens :=
  fun next rest hNext =>
    rank_leftLevel_le (h next rest hNext)

theorem Continues.stopsAt
    {op : BinaryOperator}
    {tokens : Tokens}
    (h : Continues (levelOf op) tokens) :
    StopsAt op.rightPrecedence tokens :=
  fun next rest hNext =>
    precedence_lt_rightPrecedence (h next rest hNext)

/- Reading operators stops where none binds tightly. -/
theorem operators?_stops
    {least : Nat}
    {rest : Tokens}
    (h : StopsAt least rest)
    (e : Expr) :
    operators? least e rest = some (e, rest) := by
  by_cases hOp : ∃ op after, rest = .next (.operator op) after
  · rcases hOp with ⟨op, after, rfl⟩
    exact operators?_loose (h op after rfl)
  · exact operators?_other fun op after hEq =>
      hOp ⟨op, after, hEq⟩

------------------------------------------------------------
-- What Is Taken Is Derived
------------------------------------------------------------

mutual

/-
  An expression is taken up to the first operator that binds
  too loosely for it.
-/
theorem expression_sound
    {least : Nat}
    {tokens rest : Tokens}
    {e : Expr}
    (hLeast : least ≤ Level.primary.rank)
    (h : expression? least tokens = some (e, rest)) :
    ∃ before level, tokens = Tokens.prepend before rest
      ∧ least ≤ level.rank
      ∧ Derives level before e ∧ StopsAt least rest := by
  rw [expression?_eq] at h
  rcases Option.bind_eq_some_iff.mp h with
    ⟨⟨left, middle⟩, hOperand, hOperators⟩
  dsimp only at hOperators
  have hLess : middle.length < tokens.length :=
    length_of_taken? hOperand
  rcases operand_sound hOperand with
    ⟨before, hTokens, hLeft⟩
  rcases operators_sound hLeft hLeast
      (fun op _ _ => (leftLevel op).rank_le_primary)
      hOperators with
    ⟨more, level, hMiddle, hRank, hDerives, hStops⟩
  refine ⟨before ++ more, level, ?_, hRank, hDerives, hStops⟩
  rw [hTokens, hMiddle, Tokens.prepend_append]
termination_by 4 * tokens.length + 1

/- Operators are taken with what is derived before them. -/
theorem operators_sound
    {least : Nat}
    {tokens rest : Tokens}
    {left e : Expr}
    {level : Level}
    {before : List Token}
    (hLeft : Derives level before left)
    (hLeast : least ≤ level.rank)
    (hContinues : Continues level tokens)
    (h : operators? least left tokens = some (e, rest)) :
    ∃ more level', tokens = Tokens.prepend more rest
      ∧ least ≤ level'.rank
      ∧ Derives level' (before ++ more) e
      ∧ StopsAt least rest := by
  by_cases hOp :
      ∃ op after, tokens = .next (.operator op) after
        ∧ least ≤ op.precedence
  · rcases hOp with ⟨op, after, hTokens, hTight⟩
    rw [hTokens] at h
    have hLength : tokens.length = after.length + 1 := by
      rw [hTokens, Tokens.length]
    cases hFault : after.fault? with
    | some fault =>
        have hStuck : after = .stuck fault := by
          cases after <;> simp_all [Tokens.fault?]
        rw [hStuck, operators?_fault hTight] at h
        cases h
    | none =>
        rw [operators?_operator hTight hFault] at h
        rcases Option.bind_eq_some_iff.mp h with
          ⟨⟨right, middle⟩, hRight, hMore⟩
        have hLess := length_of_expression? hRight
        rcases expression_sound (rightPrecedence_le_primary op)
            hRight with
          ⟨second, rightRank, hAfter, hRightRank, hSecond,
            hStops⟩
        have hBinary :
            Derives (levelOf op)
              (before ++ .operator op :: second)
              (.binary op left right) :=
          .binary
            (hLeft.weaken (hContinues op after hTokens))
            (hSecond.weaken
              (by rw [rank_rightLevel]; exact hRightRank))
        rcases operators_sound hBinary
            (by rw [rank_levelOf]; exact hTight)
            hStops.continues hMore with
          ⟨more, level', hMiddle, hRank, hDerives, hEnd⟩
        refine ⟨.operator op :: second ++ more, level', ?_,
          hRank, ?_, hEnd⟩
        · rw [hTokens, hAfter, hMiddle, List.cons_append,
            Tokens.prepend_cons, Tokens.prepend_append]
        · rw [← List.append_assoc]
          exact hDerives
  · have hStops : StopsAt least tokens := by
      intro op after hTokens
      by_cases hTight : least ≤ op.precedence
      · exact absurd ⟨op, after, hTokens, hTight⟩ hOp
      · omega
    rw [operators?_stops hStops] at h
    cases h
    exact ⟨[], level, rfl, hLeast,
      by rwa [List.append_nil], hStops⟩
termination_by 4 * tokens.length

theorem operand_sound
    {tokens rest : Tokens}
    {e : Expr}
    (h : operand? tokens = some (e, rest)) :
    ∃ before, tokens = Tokens.prepend before rest
      ∧ Derives .primary before e := by
  rcases exists_of_operand? h with
    ⟨token, after, hTokens, -, hFrom⟩
  have hLength : tokens.length = after.length + 1 := by
    rw [hTokens, Tokens.length]
  rw [hTokens]
  cases token with
  | number x =>
      cases hFrom
      exact ⟨[.number x], rfl, .number x⟩
  | text s =>
      cases hFrom
      exact ⟨[.text s], rfl, .text s⟩
  | boolean b =>
      cases hFrom
      exact ⟨[.boolean b], rfl, .boolean b⟩
  | reference name =>
      unfold operandFrom? at hFrom
      dsimp only at hFrom
      split at hFrom
      · cases hFrom
      · next first hFirst =>
          have hCell := address_eq_ok_iff.mp hFirst
          rcases rangeAfter?_eq_some_iff.mp hFrom with
            ⟨last, second, rfl, -, hSecond, rfl⟩ |
            ⟨-, rfl, rfl⟩
          · exact ⟨[.reference name, .colon, .reference last],
              rfl, .range hCell hSecond⟩
          · exact ⟨[.reference name], rfl, .cell hCell⟩
  | identifier name =>
      unfold operandFrom? at hFrom
      dsimp only at hFrom
      split at hFrom
      · next inner =>
          rcases Option.map_eq_some_iff.mp hFrom with
            ⟨⟨args, last⟩, hArguments, hCall⟩
          cases hCall
          rw [Tokens.length] at hLength
          rcases arguments_sound hArguments with
            ⟨rfl, rfl⟩ | ⟨before, rfl, hBefore⟩
          · exact ⟨[.identifier name, .leftParenthesis,
              .rightParenthesis], rfl, .callEmpty name⟩
          · refine ⟨_, ?_, .call name hBefore⟩
            simp only [List.cons_append, Tokens.prepend_cons]
      · cases hFrom
  | leftParenthesis =>
      rcases Option.bind_eq_some_iff.mp hFrom with
        ⟨⟨inner, middle⟩, hInner, hMiddle⟩
      dsimp only at hMiddle
      rcases Option.map_eq_some_iff.mp hMiddle with
        ⟨last, hClosing, hLast⟩
      cases hLast
      rcases expression_sound (Nat.zero_le _) hInner with
        ⟨before, level, rfl, -, hBefore, -⟩
      rw [(closing?_eq_some_iff.mp hClosing).1]
      refine ⟨_, ?_,
        .parentheses (hBefore.weaken level.equality_le_rank)⟩
      simp only [List.cons_append, Tokens.prepend_cons,
        Tokens.prepend_append, Tokens.prepend_nil]
  | operator op =>
      cases op with
      | subtract =>
          rcases Option.map_eq_some_iff.mp hFrom with
            ⟨⟨inner, last⟩, hInner, hLast⟩
          cases hLast
          rcases operand_sound hInner with
            ⟨before, rfl, hBefore⟩
          exact ⟨_, rfl, .negate hBefore⟩
      | _ => cases hFrom
  | colon => cases hFrom
  | comma => cases hFrom
  | rightParenthesis => cases hFrom
  | endOfInput => cases hFrom
termination_by 4 * tokens.length

theorem arguments_sound
    {tokens rest : Tokens}
    {args : List Expr}
    (h : arguments? tokens = some (args, rest)) :
    (tokens = .next .rightParenthesis rest ∧ args = [])
    ∨ ∃ before,
      tokens =
        Tokens.prepend (before ++ [.rightParenthesis]) rest
        ∧ DerivesArguments before args := by
  rcases arguments?_eq_some_iff.mp h with
    ⟨hTokens, -, hArgs⟩ | ⟨-, hMore⟩
  · exact Or.inl ⟨hTokens, hArgs⟩
  · exact Or.inr (moreArguments_sound hMore)
termination_by 4 * tokens.length + 3

theorem moreArguments_sound
    {tokens rest : Tokens}
    {args : List Expr}
    (h : moreArguments? tokens = some (args, rest)) :
    ∃ before,
      tokens =
        Tokens.prepend (before ++ [.rightParenthesis]) rest
        ∧ DerivesArguments before args := by
  rw [moreArguments?_eq] at h
  rcases Option.bind_eq_some_iff.mp h with
    ⟨⟨arg, middle⟩, hArg, hSeparated⟩
  have hLess := length_of_expression? hArg
  rcases expression_sound (Nat.zero_le _) hArg with
    ⟨before, level, hTokens, -, hBefore, -⟩
  have hFirst := hBefore.weaken level.equality_le_rank
  dsimp only at hSeparated
  rcases Option.bind_eq_some_iff.mp hSeparated with
    ⟨⟨kind, after⟩, hSeparator, hRest⟩
  have hMiddle := (separator?_eq_some_iff.mp hSeparator).1
  have hLength : middle.length = after.length + 1 := by
    rw [hMiddle, Tokens.length]
  cases kind with
  | last =>
      cases hRest
      refine ⟨before, ?_, .last hFirst⟩
      rw [hTokens, hMiddle, Tokens.prepend_append]
      rfl
  | comma =>
      dsimp only at hRest
      rcases Option.map_eq_some_iff.mp hRest with
        ⟨⟨others, last⟩, hOthers, hLast⟩
      cases hLast
      rcases moreArguments_sound hOthers with
        ⟨more, hAfter, hMore⟩
      refine ⟨before ++ .comma :: more, ?_,
        .more hFirst hMore⟩
      simp only [hTokens, hMiddle, hAfter, Separator.token,
        List.append_assoc, List.cons_append,
        Tokens.prepend_append, Tokens.prepend_cons]
termination_by 4 * tokens.length + 2

end

end Parser

end Spreadsheet
