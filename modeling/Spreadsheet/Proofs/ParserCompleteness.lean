import Spreadsheet.Proofs.ParserSoundness

/-
  The readers of expressions take all that the grammar
  derives, by induction on the derivation. An expression is
  taken up to whatever stands after it, as long as that
  does not belong to it by its first token.

  Main declarations:
    * `Parser.AfterOperand`
    * `Parser.Completes`
    * `Parser.Completes.of_binary`
    * `Parser.completes_of_derives`
-/

namespace Spreadsheet

open Grammar

namespace Parser

------------------------------------------------------------
-- What Stands After An Operand
------------------------------------------------------------

/- What is left is neither a fault nor the end of a range. -/
structure AfterOperand
    (tokens : Tokens) : Prop where
  noFault : tokens.fault? = none
  noColon : ∀ after, tokens ≠ .next .colon after

theorem afterOperand_done : AfterOperand .done :=
  ⟨rfl, fun _ h => by cases h⟩

theorem afterOperand_next
    {token : Token}
    (h : token ≠ .colon)
    (rest : Tokens) : AfterOperand (.next token rest) :=
  ⟨rfl, fun _ hColon => h (Tokens.next.inj hColon).1⟩

/- Anything but an operator can stand after all levels. -/
theorem continues_of_ne_operator
    {token : Token}
    (h : ∀ op, token ≠ .operator op)
    (level : Level)
    (rest : Tokens) : Continues level (.next token rest) :=
  fun op _ hOp => absurd (Tokens.next.inj hOp).1 (h op)

theorem continues_done
    (level : Level) : Continues level .done :=
  fun _ _ h => by cases h

------------------------------------------------------------
-- What Is Derived Is Taken
------------------------------------------------------------

/-
  The tokens of an expression are taken whole, before all
  that can stand after an expression of its level.
-/
structure Completes
    (level : Level)
    (tokens : List Token)
    (e : Expr) : Prop where
  expression :
    ∀ least rest, least ≤ level.rank → AfterOperand rest →
      Continues level rest →
      expression? least (Tokens.prepend tokens rest) =
        operators? least e rest
  operand :
    level = .primary → ∀ rest, AfterOperand rest →
      operand? (Tokens.prepend tokens rest) = some (e, rest)

namespace Completes

theorem of_operand
    {tokens : List Token}
    {e : Expr}
    (h :
      ∀ rest, AfterOperand rest →
        operand? (Tokens.prepend tokens rest) =
          some (e, rest)) :
    Completes .primary tokens e := by
  refine ⟨?_, fun _ => h⟩
  intro least rest hLeast hRest hContinues
  rw [expression?_eq, h rest hRest, Option.bind_some]

/- A single token that is an operand by itself. -/
theorem of_token
    {token : Token}
    {e : Expr}
    (h :
      ∀ rest, AfterOperand rest →
        operandFrom? token rest = some (e, rest)) :
    Completes .primary [token] e :=
  of_operand fun rest hRest => by
    rw [Tokens.prepend_cons, Tokens.prepend_nil,
      operand?_next hRest.noFault, h rest hRest]

theorem of_tighter
    {level : Level}
    {tokens : List Token}
    {e : Expr}
    (hLevel : level ≠ .primary)
    (h : Completes level.tighter tokens e) :
    Completes level tokens e := by
  have hRank := level.rank_le_tighter
  refine ⟨?_, fun hPrimary => absurd hPrimary hLevel⟩
  intro least rest hLeast hRest hContinues
  exact h.expression least rest
    (Nat.le_trans hLeast hRank) hRest
    (hContinues.mono hRank)

/-
  The first operand is taken up to the operator, and the
  second one up to what stands after it.
-/
theorem of_binary
    {op : BinaryOperator}
    {first second : List Token}
    {x y : Expr}
    (hFirst : Completes (leftLevel op) first x)
    (hSecond : Completes (rightLevel op) second y) :
    Completes (levelOf op) (first ++ .operator op :: second)
      (.binary op x y) := by
  refine ⟨?_, fun hPrimary => by cases op <;> cases hPrimary⟩
  intro least rest hLeast hRest hContinues
  have hLeft :
      expression? least
          (Tokens.prepend (first ++ .operator op :: second)
            rest) =
        operators? least x
          (.next (.operator op)
            (Tokens.prepend second rest)) := by
    rw [Tokens.prepend_append]
    apply hFirst.expression
    · exact Nat.le_trans hLeast (levelOf_le_leftLevel op)
    · exact afterOperand_next (fun h => by cases h) _
    · intro next after hNext
      cases hNext
      exact Nat.le_refl _
  have hRight :
      expression? op.rightPrecedence
          (Tokens.prepend second rest) = some (y, rest) := by
    rw [hSecond.expression _ rest
      (Nat.le_of_eq (rank_rightLevel op).symm) hRest
      (hContinues.mono (levelOf_le_rightLevel op))]
    exact operators?_stops hContinues.stopsAt y
  rw [rank_levelOf] at hLeast
  rw [hLeft,
    operators?_operator hLeast
      (Tokens.fault?_prepend hRest.noFault second),
    hRight, Option.bind_some]

end Completes

/- An expression is taken up to a separator. -/
theorem Completes.before_separator
    {tokens : List Token}
    {e : Expr}
    (h : Completes .equality tokens e)
    (kind : Separator)
    (rest : Tokens) :
    expression? 0
        (Tokens.prepend tokens (.next kind.token rest)) =
      some (e, .next kind.token rest) := by
  have hColon : kind.token ≠ .colon := by
    cases kind <;> exact fun hEq => by cases hEq
  have hOperator : ∀ op, kind.token ≠ .operator op := by
    cases kind <;> exact fun op hEq => by cases hEq
  rw [h.expression 0 _ (Nat.zero_le _)
    (afterOperand_next hColon rest)
    (continues_of_ne_operator hOperator _ rest)]
  exact operators?_other fun op after hEq =>
    hOperator op (Tokens.next.inj hEq).1

/- An argument is taken with the separator after it. -/
theorem Completes.moreArguments?_eq
    {tokens : List Token}
    {e : Expr}
    (h : Completes .equality tokens e)
    (kind : Separator)
    {rest : Tokens}
    (hRest : rest.fault? = none) :
    moreArguments?
        (Tokens.prepend tokens (.next kind.token rest)) =
      match kind with
      | .last => some ([e], rest)
      | .comma =>
          (moreArguments? rest).map fun r =>
            (e :: r.1, r.2) := by
  have hSeparator :
      separator? (.next kind.token rest) =
        some (kind, rest) :=
    separator?_eq_some_iff.mpr ⟨rfl, hRest⟩
  have hRead :=
    Parser.moreArguments?_eq
      (Tokens.prepend tokens (.next kind.token rest))
  rw [h.before_separator kind rest, Option.bind_some,
    hSeparator, Option.bind_some] at hRead
  exact hRead.trans (by cases kind <;> rfl)

mutual

/- Every expression is taken whole. -/
theorem completes_of_derives :
    ∀ {level : Level} {tokens : List Token} {e : Expr},
      Derives level tokens e → Completes level tokens e
  | _, _, _, .tighter hLevel h =>
      .of_tighter hLevel (completes_of_derives h)
  | _, _, _, .left hLevel hOp hFirst hSecond => by
      have hFirst := completes_of_derives hFirst
      have hSecond := completes_of_derives hSecond
      have hOwn := levelOf_eq hOp
      have ⟨hLeft, hRight⟩ :=
        operandLevels_of_ne_power (hOwn ▸ hLevel)
      rw [← hOwn, ← hRight] at hSecond
      rw [← hOwn, ← hLeft] at hFirst
      rw [← hOwn]
      exact .of_binary hFirst hSecond
  | _, _, _, .right hFirst hSecond =>
      @Completes.of_binary .power _ _ _ _
        (completes_of_derives hFirst)
        (completes_of_derives hSecond)
  | _, _, _, .number x => .of_token fun rest _ => rfl
  | _, _, _, .text s => .of_token fun rest _ => rfl
  | _, _, _, .boolean b => .of_token fun rest _ => rfl
  | _, _, _, .cell h =>
      .of_token fun rest hRest => by
        unfold operandFrom?
        simp only [address_eq_ok_iff.mpr h]
        exact rangeAfter?_eq_some_iff.mpr
          (Or.inr ⟨hRest.noColon, rfl, rfl⟩)
  | _, _, _, .range hFirst hSecond =>
      .of_operand fun rest hRest => by
        rw [Tokens.prepend_cons, operand?_next rfl]
        unfold operandFrom?
        simp only [address_eq_ok_iff.mpr hFirst]
        exact rangeAfter?_eq_some_iff.mpr
          (Or.inl ⟨_, _, rfl, hRest.noFault, hSecond, rfl⟩)
  | _, _, _, .callEmpty name =>
      .of_operand fun rest hRest => by
        rw [Tokens.prepend_cons, operand?_next rfl]
        have hArguments :=
          arguments?_eq_some_iff.mpr
            (Or.inl ⟨rfl, hRest.noFault, rfl⟩)
        simp only [Tokens.prepend_cons, Tokens.prepend_nil,
          operandFrom?, hArguments, Option.map_some]
  | _, _, _, .call name h => by
      have hMore := moreArguments?_of_derives h
      refine .of_operand fun rest hRest => ?_
      rw [List.cons_append, List.cons_append,
        Tokens.prepend_cons, operand?_next rfl]
      have hArguments :=
        arguments?_of_moreArguments?
          (hMore rest hRest.noFault)
      simp only [Tokens.prepend_cons, operandFrom?,
        hArguments, Option.map_some]
  | _, _, _, .parentheses h => by
      have hInner := completes_of_derives h
      refine .of_operand fun rest hRest => ?_
      rw [List.cons_append, Tokens.prepend_cons,
        Tokens.prepend_append,
        operand?_next (Tokens.fault?_prepend rfl _)]
      have hExpression := hInner.before_separator .last rest
      have hClosing :=
        closing?_eq_some_iff.mpr ⟨rfl, hRest.noFault⟩
      simp only [Separator.token] at hExpression
      simp only [operandFrom?, Tokens.prepend_cons,
        Tokens.prepend_nil, hExpression, Option.bind_some,
        hClosing, Option.map_some]
  | _, _, _, .negate h => by
      have hInner := (completes_of_derives h).operand rfl
      refine .of_operand fun rest hRest => ?_
      have hFault := Tokens.fault?_prepend hRest.noFault
      rw [Tokens.prepend_cons, operand?_next (hFault _)]
      simp only [operandFrom?, hInner rest hRest,
        Option.map_some]

theorem moreArguments?_of_derives :
    ∀ {tokens : List Token} {args : List Expr},
      DerivesArguments tokens args →
      ∀ rest : Tokens, rest.fault? = none →
        moreArguments?
            (Tokens.prepend (tokens ++ [.rightParenthesis])
              rest) =
          some (args, rest)
  | _, _, .last h => by
      have hArg := completes_of_derives h
      intro rest hRest
      rw [Tokens.prepend_append]
      exact hArg.moreArguments?_eq .last hRest
  | _, _, .more h hMore => by
      have hArg := completes_of_derives h
      have hOthers := moreArguments?_of_derives hMore
      intro rest hRest
      have hFault := Tokens.fault?_prepend hRest
      rw [List.append_assoc, List.cons_append,
        Tokens.prepend_append, Tokens.prepend_cons]
      refine
        (hArg.moreArguments?_eq .comma (hFault _)).trans ?_
      simp only [hOthers rest hRest, Option.map_some]

end

end Parser

end Spreadsheet
