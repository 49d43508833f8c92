import Mathlib
import Spreadsheet.Proofs.ParserCompleteness

/-
  Reading a formula accepts exactly what the grammar derives
  and builds its tree, which is the only one.

  Main declarations:
    * `Parser.expression?_all_iff`
    * `Grammar.Derives.unique`
    * `parseFormula_eq_ok_iff`
-/

namespace Spreadsheet

open Grammar

namespace Parser

------------------------------------------------------------
-- All Tokens
------------------------------------------------------------

/- Exactly what is derived is read to its end. -/
theorem expression?_all_iff
    {tokens : List Token}
    {e : Expr} :
    expression? 0 (Tokens.prepend tokens .done) =
        some (e, .done) ↔
      Derives .equality tokens e := by
  constructor
  · intro h
    rcases expression_sound (Nat.zero_le _) h with
      ⟨before, level, hTokens, -, hBefore, -⟩
    rw [Tokens.prepend_done_inj hTokens]
    exact hBefore.weaken level.equality_le_rank
  · intro h
    have hCompletes := completes_of_derives h
    rw [hCompletes.expression 0 .done (Nat.zero_le _)
      afterOperand_done (continues_done _)]
    exact operators?_stops (fun _ _ hNext => by cases hNext) e

end Parser

namespace Grammar

/- Tokens have at most one tree. -/
theorem Derives.unique
    {level level' : Level}
    {tokens : List Token}
    {e e' : Expr}
    (h : Derives level tokens e)
    (h' : Derives level' tokens e') : e = e' := by
  have hRead :=
    Parser.expression?_all_iff.mpr
      (h.weaken level.equality_le_rank)
  have hRead' :=
    Parser.expression?_all_iff.mpr
      (h'.weaken level'.equality_le_rank)
  rw [hRead, Option.some.injEq, Prod.mk.injEq] at hRead'
  exact hRead'.1

theorem Derives.iff_eq
    {level : Level}
    {tokens : List Token}
    {e e' : Expr}
    (h : Derives level tokens e) :
    Derives .equality tokens e' ↔ e' = e := by
  constructor
  · exact fun h' => h'.unique h
  · rintro rfl
    exact h.weaken level.equality_le_rank

/- Operators of one level group to the left, if not powers. -/
theorem derives_left_iff
    {level : Level}
    {op op' : BinaryOperator}
    {first second third : List Token}
    {x y z e : Expr}
    (hLevel : level ≠ .power)
    (hOp : op ∈ level.operators)
    (hOp' : op' ∈ level.operators)
    (hFirst : Derives level first x)
    (hSecond : Derives level.tighter second y)
    (hThird : Derives level.tighter third z) :
    Derives .equality
        (first ++ .operator op ::
          (second ++ .operator op' :: third)) e ↔
      e = .binary op' (.binary op x y) z := by
  have hBoth :=
    Derives.left hLevel hOp' (.left hLevel hOp hFirst hSecond)
      hThird
  rw [List.append_assoc, List.cons_append] at hBoth
  exact hBoth.iff_eq

/- Powers group to the right. -/
theorem derives_right_iff
    {first second third : List Token}
    {x y z e : Expr}
    (hFirst : Derives .primary first x)
    (hSecond : Derives .primary second y)
    (hThird : Derives .power third z) :
    Derives .equality
        (first ++ .operator .power ::
          (second ++ .operator .power :: third)) e ↔
      e = .binary .power x (.binary .power y z) :=
  (Derives.right hFirst (.right hSecond hThird)).iff_eq

/-
  A minus sign in front belongs to the primary after it and
  not to what an operator makes of that primary.
-/
theorem derives_negate_iff
    {op : BinaryOperator}
    {first second : List Token}
    {x y e : Expr}
    (hFirst : Derives .primary first x)
    (hSecond : Derives (rightLevel op) second y) :
    Derives .equality
        (.operator .subtract ::
          (first ++ .operator op :: second)) e ↔
      e = .binary op (.negate x) y := by
  have hNegated :=
    (Derives.negate hFirst).weaken
      (leftLevel op).rank_le_primary
  exact (Derives.binary hNegated hSecond).iff_eq

end Grammar

------------------------------------------------------------
-- Formulas
------------------------------------------------------------

/- What all tokens of a formula stand for. -/
def Grammar.DerivesFormula
    (tokens : List Token)
    (e : Expr) : Prop :=
  (tokens = [] ∧ e = .number 0) ∨ Derives .equality tokens e

theorem parseTokens_eq_ok_iff
    {tokens : Tokens}
    {e : Expr} :
    parseTokens tokens = .ok e ↔
      (tokens = .done ∧ e = .number 0)
        ∨ Parser.expression? 0 tokens = some (e, .done) := by
  cases tokens with
  | done =>
      have hNone : Parser.expression? 0 .done = none := by
        rw [Parser.expression?_eq]
        cases hRead : Parser.operand? .done with
        | none => rfl
        | some p =>
            rcases Parser.exists_of_operand? hRead with
              ⟨token, rest, hEq, -⟩
            cases hEq
      simp only [parseTokens, hNone, Except.ok.injEq,
        true_and, reduceCtorEq, or_false, eq_comm]
  | stuck fault =>
      have hNone : Parser.expression? 0 (.stuck fault) = none := by
        rw [Parser.expression?_eq, Parser.operand?_stuck,
          Option.bind_none]
      simp only [parseTokens, hNone, reduceCtorEq,
        false_and, or_false]
  | next token rest =>
      unfold parseTokens Parser.expression?
      dsimp only
      cases Parser.expression 0 (.next token rest) with
      | error err =>
          simp only [Parser.taken?, reduceCtorEq, false_and,
            or_false]
      | ok parsed =>
          obtain ⟨read, left, h⟩ := parsed
          cases left <;>
            simp [Parser.taken?]

/-
  Formulas are read exactly as the grammar says. A formula's
  tokens have one tree at most, in which operators group to
  the left, except for powers, which group to the right, and
  a minus sign in front binds to its primary.
-/
theorem parseFormula_grammar :
    (∀ source e,
      parseFormula source = .ok e ↔
        ∃ tokens,
          tokenize (String.ofList (formulaBody source)) =
              .ok (tokens ++ [.endOfInput])
            ∧ DerivesFormula tokens e)
    ∧ (∀ level level' tokens e e',
      Derives level tokens e → Derives level' tokens e' →
        e = e')
    ∧ (∀ level op op' first second third x y z e,
      level ≠ .power →
      op ∈ level.operators → op' ∈ level.operators →
      Derives level first x →
      Derives level.tighter second y →
      Derives level.tighter third z →
      (Derives .equality
          (first ++ .operator op ::
            (second ++ .operator op' :: third)) e ↔
        e = .binary op' (.binary op x y) z))
    ∧ (∀ first second third x y z e,
      Derives .primary first x →
      Derives .primary second y →
      Derives .power third z →
      (Derives .equality
          (first ++ .operator .power ::
            (second ++ .operator .power :: third)) e ↔
        e = .binary .power x (.binary .power y z)))
    ∧ (∀ op first second x y e,
      Derives .primary first x →
      Derives (rightLevel op) second y →
      (Derives .equality
          (.operator .subtract ::
            (first ++ .operator op :: second)) e ↔
        e = .binary op (.negate x) y)) := by
  refine ⟨?_, ?_, ?_, ?_, ?_⟩
  · intro source e
    unfold parseFormula tokenize
    simp only [String.toList_ofList, Tokens.toList_eq_ok_iff,
      parseTokens_eq_ok_iff, List.append_cancel_right_eq]
    constructor
    · rintro (⟨hTokens, he⟩ | hRead)
      · exact ⟨[], ⟨[], rfl, hTokens⟩, Or.inl ⟨rfl, he⟩⟩
      · rcases Parser.expression_sound (Nat.zero_le _) hRead with
          ⟨before, -, hTokens, -⟩
        rw [hTokens] at hRead
        exact ⟨before, ⟨before, rfl, hTokens⟩,
          Or.inr (Parser.expression?_all_iff.mp hRead)⟩
    · rintro ⟨tokens, ⟨before, rfl, hTokens⟩, hFormula⟩
      rcases hFormula with ⟨rfl, he⟩ | hDerives
      · exact Or.inl ⟨hTokens, he⟩
      · rw [hTokens]
        exact Or.inr (Parser.expression?_all_iff.mpr hDerives)
  · intro level level' tokens e e' h h'
    exact h.unique h'
  · intro level op op' first second third x y z e
    exact derives_left_iff
  · intro first second third x y z e
    exact derives_right_iff
  · intro op first second x y e
    exact derives_negate_iff

/- Two subtractions in a row, of which the first is inner. -/
theorem parseFormula_subtractions :
    parseFormula "=A1-B1-C1" =
      .ok (.binary .subtract
        (.binary .subtract (.cell (.ofPosition 0 0))
          (.cell (.ofPosition 0 1)))
        (.cell (.ofPosition 0 2))) := by
  rcases parseFormula_grammar with ⟨hParse, -, hLeft, -⟩
  have hCell :
      ∀ {name : String} {a : Address},
        Address.parse name = .ok a →
          Derives .power [.reference name] (.cell a) :=
    fun h => .tighter (by decide) (.cell h)
  have hFactor :
      ∀ {name : String} {a : Address},
        Address.parse name = .ok a →
          Derives .product [.reference name] (.cell a) :=
    fun h => .tighter (by decide) (hCell h)
  apply (hParse _ _).mpr
  refine ⟨[.reference "A1", .operator .subtract,
    .reference "B1", .operator .subtract, .reference "C1"],
    by cbv, Or.inr ?_⟩
  exact (hLeft .sum .subtract .subtract [.reference "A1"]
    [.reference "B1"] [.reference "C1"] _ _ _ _ (by decide)
    (by decide) (by decide)
    (.tighter (by decide) (hFactor (by cbv)))
    (hFactor (by cbv)) (hFactor (by cbv))).mpr rfl

end Spreadsheet
