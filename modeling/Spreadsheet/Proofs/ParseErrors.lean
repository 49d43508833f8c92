import Spreadsheet.Formula.Parser
import Spreadsheet.Proofs.Content

/-
  Whatever goes wrong while a formula is read is reported
  under the code for formulas without meaning.

  Main declarations:
    * `Textual`
    * `Parser.expression_textual`
    * `parseFormula_textual`
    * `Sheet.code_of_unreadable`
-/

namespace Spreadsheet

/- Whether an error can only be one of a formula's text. -/
def Textual {α : Type}
    (result : Except FormulaError α) : Prop :=
  ∀ e, result = .error e → e.code = .parse

namespace Parser

------------------------------------------------------------
-- Single Tokens
------------------------------------------------------------

theorem address_textual
    (name : String) : Textual (address name) := by
  intro e h
  unfold address at h
  split at h
  · cases h
  · cases h
    rfl

theorem closing_textual
    (tokens : Tokens) : Textual (closing tokens) := by
  intro e h
  unfold closing at h
  split at h
  · split at h
    · cases h
      rfl
    · cases h
  · cases h
    rfl

theorem separator_textual
    (tokens : Tokens) : Textual (separator tokens) := by
  intro e h
  unfold separator at h
  split at h
  · split at h
    · cases h
      rfl
    · cases h
  · split at h
    · cases h
      rfl
    · cases h
  · cases h
    rfl

theorem rangeAfter_textual
    (first : Address)
    (tokens : Tokens) : Textual (rangeAfter first tokens) := by
  intro e h
  unfold rangeAfter at h
  split at h
  · cases h
    rfl
  · split at h
    · cases h
      rfl
    · split at h
      · split at h
        · next hAddress =>
            cases h
            exact address_textual _ _ hAddress
        · cases h
      · cases h
        rfl
  · cases h
    rfl
  · cases h

------------------------------------------------------------
-- Expressions
------------------------------------------------------------

mutual

theorem expression_textual
    (least : Nat)
    (tokens : Tokens) :
    Textual (expression least tokens) := by
  intro e h
  rw [expression] at h
  split at h
  · next hOperand =>
      cases h
      exact operand_textual tokens _ hOperand
  · next left rest hLess hOperand =>
      split at h
      · next hOperators =>
          cases h
          exact operators_textual least left rest _ hOperators
      · cases h
termination_by 4 * tokens.length + 1

theorem operators_textual
    (least : Nat)
    (left : Expr) :
    ∀ tokens, Textual (operators least left tokens)
  | .done => by
      intro e h
      rw [operators.eq_def] at h
      cases h
  | .stuck fault => by
      intro e h
      rw [operators.eq_def] at h
      cases h
  | .next token rest => by
      intro e h
      cases token with
      | operator op =>
          rw [operators.eq_def] at h
          dsimp only at h
          split at h
          · cases h
          · split at h
            · cases h
              rfl
            · split at h
              · next hRight =>
                  cases h
                  exact expression_textual _ rest _ hRight
              · next right after hAfter hRight =>
                  split at h
                  · next hMore =>
                      cases h
                      exact operators_textual least _ after _
                        hMore
                  · cases h
      | _ =>
          rw [operators.eq_def] at h
          cases h
termination_by tokens => 4 * tokens.length
decreasing_by
  all_goals simp only [Tokens.length]
  all_goals omega

theorem operand_textual :
    ∀ tokens, Textual (operand tokens)
  | .done => by
      intro e h
      rw [operand.eq_def] at h
      cases h
      rfl
  | .stuck fault => by
      intro e h
      rw [operand.eq_def] at h
      cases h
      rfl
  | .next token rest => by
      intro e h
      rw [operand.eq_def] at h
      dsimp only at h
      split at h
      · cases h
        rfl
      · split at h
        · cases h
        · cases h
        · cases h
        · split at h
          · next hAddress =>
              cases h
              exact address_textual _ _ hAddress
          · exact rangeAfter_textual _ _ e h
        · generalize hRest : rest = inner at h
          split at h
          · next inner =>
              have hLess : inner.length < rest.length := by
                rw [hRest]
                exact Nat.lt_succ_self _
              split at h
              · next hArguments =>
                  cases h
                  exact arguments_textual inner _ hArguments
              · cases h
          · cases h
            rfl
        · split at h
          · next hInner =>
              cases h
              exact expression_textual 0 rest _ hInner
          · split at h
            · next hClosing =>
                cases h
                exact closing_textual _ _ hClosing
            · cases h
        · split at h
          · next hInner =>
              cases h
              exact operand_textual rest _ hInner
          · cases h
        · cases h
          rfl
        · cases h
          rfl
termination_by tokens => 4 * tokens.length
decreasing_by
  all_goals simp only [Tokens.length]
  all_goals omega

theorem arguments_textual
    (tokens : Tokens) : Textual (arguments tokens) := by
  intro e h
  rw [arguments.eq_def] at h
  split at h
  · cases h
    rfl
  · split at h
    · cases h
      rfl
    · cases h
  · split at h
    · next hMore =>
        cases h
        exact moreArguments_textual tokens _ hMore
    · cases h
termination_by 4 * tokens.length + 3

theorem moreArguments_textual
    (tokens : Tokens) : Textual (moreArguments tokens) := by
  intro e h
  rw [moreArguments] at h
  split at h
  · next hFirst =>
      cases h
      exact expression_textual 0 tokens _ hFirst
  · next arg after hAfter hFirst =>
      split at h
      · next hSeparator =>
          cases h
          exact separator_textual after _ hSeparator
      · cases h
      · next rest hRest hSeparator =>
          split at h
          · next hMore =>
              cases h
              exact moreArguments_textual rest _ hMore
          · cases h
termination_by 4 * tokens.length + 2

end

end Parser

------------------------------------------------------------
-- Formulas
------------------------------------------------------------

theorem parseTokens_textual
    (tokens : Tokens) : Textual (parseTokens tokens) := by
  intro e h
  unfold parseTokens at h
  split at h
  · cases h
  · cases h
    rfl
  · split at h
    · next hExpression =>
        cases h
        exact Parser.expression_textual _ _ _ hExpression
    · split at h
      · cases h
      · cases h
        rfl

/- A formula that cannot be read has a fault in its text. -/
theorem parseFormula_textual
    (source : String) : Textual (parseFormula source) :=
  parseTokens_textual _

theorem Cell.expr_textual
    (source : String)
    (parsed : Option Expr) : Textual (expr source parsed) := by
  cases parsed with
  | none => exact parseFormula_textual source
  | some e =>
      intro err h
      cases h

namespace Sheet

/- The error of a formula in a sheet that cannot be read. -/
theorem code_of_unreadable
    {sheet : Sheet}
    {a : Address}
    {source : String}
    {e : FormulaError}
    (h :
      sheet.content? a = some (.formula source (.error e))) :
    e.code = .parse := by
  rcases Option.map_eq_some_iff.mp h with ⟨cell, -, hCell⟩
  cases cell with
  | literal value => cases hCell
  | error code message => cases hCell
  | formula source' parsed =>
      simp only [Cell.content, Content.formula.injEq]
        at hCell
      exact Cell.expr_textual source' parsed e hCell.2

end Sheet

end Spreadsheet
