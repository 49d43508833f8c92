import Mathlib
import Spreadsheet.Proofs.Pass

/-
  Evaluating a sheet agrees with plain evaluation wherever
  no cycle is involved. What is known of a cell that reaches
  no cycle is its plain outcome at all times, in whatever
  order cells are evaluated, so such outcomes solve the
  equations that the formulas state.

  Main declarations:
    * `Sheet.SolvedAt`
    * `Engine.soundOn_kept`
    * `Engine.evaluateSheet_of_not_reachesCycle`
-/

namespace Spreadsheet

open Relation

------------------------------------------------------------
-- Equations
------------------------------------------------------------

namespace Sheet

variable {sheet : Sheet} {a : Address}

/-
  What a formula reads if formulas stand for the outcomes
  that are reported of them. A formula that nothing is
  reported of is a bad reference.
-/
def readFrom
    (sheet : Sheet)
    (results : Results)
    (t : Address) : Except FormulaError Value :=
  match sheet.content? t with
  | none => .error (.badReference t.relative)
  | some (.literal value) => .ok value
  | some (.error code message) =>
      .error (.propagated code message)
  | some (.formula _ _) =>
      match results.get? t with
      | none => .error (.badReference t.relative)
      | some outcome => outcome.toResult

/-
  What is reported of a formula is what it evaluates to if
  it reads what is reported of others.
-/
def SolvedAt
    (sheet : Sheet)
    (results : Results)
    (a : Address) : Prop :=
  ∀ source reading,
    sheet.content? a = some (.formula source reading) →
    results.get? a =
      some (Outcome.ofResult
        (reading.bind fun e =>
          (e.evaluate (sheet.readFrom results)).outcome))

/-
  The plain outcome of a formula that reaches no cycle is
  what it evaluates to with nothing under evaluation.
-/
theorem outcome_evaluateCell_of_not_reachesCycle
    {source : String}
    {reading : Except FormulaError Expr}
    (hContent :
      sheet.content? a = some (.formula source reading))
    (hCycle : ¬ sheet.ReachesCycle Expr.targets a)
    (explain : Bool) :
    (sheet.evaluateCell explain a).outcome =
      Outcome.ofResult
        (reading.bind fun e =>
          (e.evaluate
            (sheet.readReference .empty [])).outcome) := by
  unfold evaluateCell
  rw [outcome_evaluateCellWith, evaluateCellWith_eq, hContent]
  cases reading with
  | error e => rfl
  | ok e =>
      have hReads :=
        evaluate_eq_plain (expr?_of_content? hContent) hCycle
      dsimp only
      rw [hReads]
      change _ = Outcome.ofResult
        (e.evaluate (sheet.readReference .empty [])).outcome
      split
      · next hOutcome => rw [hOutcome]
      · next hOutcome =>
          rw [hOutcome]
          rfl

/-
  Plain outcomes solve the equation of a cell that reaches
  no cycle.
-/
theorem solvedAt_of_plain
    {results : Results}
    (hPlain :
      ∀ x, Engine.holdsFormula sheet x = true →
        ¬ sheet.ReachesCycle Expr.targets x →
        results.get? x =
          some (sheet.evaluateCell false x).outcome)
    (hCycle : ¬ sheet.ReachesCycle Expr.targets a) :
    sheet.SolvedAt results a := by
  intro source reading hContent
  have hFormula := holdsFormula_of_content? hContent
  rw [hPlain a hFormula hCycle,
    outcome_evaluateCell_of_not_reachesCycle hContent hCycle]
  cases reading with
  | error e => rfl
  | ok e =>
      have hExpr := expr?_of_content? hContent
      change some (Outcome.ofResult
          (e.evaluate
            (sheet.readReference .empty [])).outcome) =
        some (Outcome.ofResult
          (e.evaluate (sheet.readFrom results)).outcome)
      rw [Expr.evaluate_congr e]
      intro y hy
      have hBelow : ¬ sheet.ReachesCycle Expr.targets y :=
        fun h => hCycle (h.of_refers ⟨e, hExpr, hy⟩)
      unfold readFrom
      cases hTarget : sheet.content? y with
      | none =>
          rw [readReference_eq, hTarget,
            if_neg List.not_mem_nil]
      | some content =>
          cases content with
          | literal value =>
              rw [readReference_eq, hTarget,
                if_neg List.not_mem_nil]
          | error code message =>
              rw [readReference_eq, hTarget,
                if_neg List.not_mem_nil]
          | formula source' reading' =>
              have hFormula' :=
                holdsFormula_of_content? hTarget
              rw [readReference_nil _ hTarget,
                CellMap.get?_empty, Option.getD_none]
              dsimp only
              rw [hPlain y hFormula' hBelow]
              rfl

/-
  If what is known is right wherever no cycle is involved,
  it is right below a cell that reaches none.
-/
theorem SoundOn.below
    {known : CellMap Outcome}
    (hSound :
      sheet.SoundOn
        (fun x => ¬ sheet.ReachesCycle Expr.targets x) known)
    (hCycle : ¬ sheet.ReachesCycle Expr.targets a) :
    sheet.SoundOn
      (TransGen (sheet.Refers Expr.targets) a) known := by
  apply hSound.mono
  intro x hx h
  exact hCycle
    (ReachesCycle.of_leads hx.to_reflTransGen h)

end Sheet

------------------------------------------------------------
-- Evaluating A Sheet
------------------------------------------------------------

namespace Engine

variable {engine : Engine} {sheet : Sheet} {a : Address}

/-
  Evaluating a cell keeps what is known of cells that reach
  no cycle right: such a cell only leads to such cells.
-/
theorem soundOn_kept
    (explain : Bool)
    (among : Address → Prop) :
    KeptBy
      (sheet.SoundOn
        fun x => ¬ sheet.ReachesCycle Expr.targets x)
      explain sheet among := by
  intro known b hb hSound _ x source reading outcome hx
    hContent hGet
  rcases CellMap.get?_insert_eq_some hGet with
    ⟨hxb, rfl⟩ | hBefore
  · have hPlain :
        sheet.evaluateCellWith known explain x =
          sheet.evaluateCell explain x := by
      apply Sheet.evaluateCellWith_eq_plain hx
      exact hSound.below hx
    rw [← Sheet.evaluateCellWith_congr_relative hxb, hPlain]
    exact Sheet.outcome_evaluateCellWith _ _ _ _
  · exact hSound x source reading outcome hx hContent hBefore

/-
  Evaluating a sheet reports the plain outcome of every
  formula that reaches no cycle, whatever the engine has
  seen before, and these outcomes solve the equations of
  such formulas.
-/
theorem evaluateSheet_of_not_reachesCycle
    (hFormula : holdsFormula sheet a = true)
    (hCycle : ¬ sheet.ReachesCycle Expr.targets a) :
    (∀ explain,
      (engine.evaluateSheet sheet).1.get? a =
        some (sheet.evaluateCell explain a).outcome)
      ∧ sheet.SolvedAt (engine.evaluateSheet sheet).1 a := by
  have hPass := evaluateSheet_pass engine
    (Sheet.soundOn_empty _)
    (soundOn_kept engine.explain
      fun x => holdsFormula sheet x = true)
  have hPlain :
      ∀ x, holdsFormula sheet x = true →
        ¬ sheet.ReachesCycle Expr.targets x →
        (engine.evaluateSheet sheet).1.get? x =
          some (sheet.evaluateCell false x).outcome := by
    intro x hx hNone
    rcases hPass.covers x hx with ⟨known, hSound, hGet, -⟩
    rw [hGet, Sheet.evaluateCellWith_eq_plain hNone]
    · exact congrArg some
        (Sheet.outcome_evaluateCellWith _ _ _ _)
    · exact hSound.below hNone
  refine ⟨?_, Sheet.solvedAt_of_plain hPlain hCycle⟩
  intro explain
  rw [hPlain a hFormula hCycle]
  exact congrArg some
    (Sheet.outcome_evaluateCellWith _ _ _ _).symm

/-
  A sheet on which one formula reads a truth value and
  another one reads itself.
-/
def mixedSheet : Sheet :=
  { Sheet.blank "Mixed" 3 1 .epoch with
    cells := CellMap.ofList
      [(.ofPosition 0 0,
          .formula "=A2" (some (.cell (.ofPosition 1 0)))),
        (.ofPosition 1 0, .literal (.boolean true)),
        (.ofPosition 2 0,
          .formula "=A3"
            (some (.cell (.ofPosition 2 0))))] }

theorem not_reachesCycle_mixedSheet :
    ¬ mixedSheet.ReachesCycle Expr.targets
      (.ofPosition 0 0) :=
  Sheet.not_reachesCycle_of_targets rfl
    (List.forall_mem_singleton.mpr
      (Sheet.not_reachesCycle_of_expr? rfl))

theorem get?_evaluateSheet_mixedSheet :
    ((Engine.new false).evaluateSheet mixedSheet).1.get?
        (.ofPosition 0 0) =
      some (.value (.boolean true)) := by
  have hPlain := (@evaluateSheet_of_not_reachesCycle
    (Engine.new false) mixedSheet (.ofPosition 0 0)
    (by decide) not_reachesCycle_mixedSheet).1 false
  have hValue :
      (mixedSheet.evaluateCell false
        (.ofPosition 0 0)).outcome =
          .value (.boolean true) := by
    cbv
  rw [hPlain, hValue]

end Engine

end Spreadsheet
