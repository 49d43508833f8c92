import Spreadsheet.Proofs.ParseErrors
import Spreadsheet.Proofs.Pass

/-
  Circular references are detected. The error for them is
  only reported above a cycle of references, or above a cell
  in which that error is stored. And no value is reported
  above a cycle of strict references, because what is known
  of a cell above such a cycle is never a value.

  Main declarations:
    * `Sheet.CycleCause`
    * `Sheet.cycleCause_of_readReference`
    * `Sheet.readReference_error_of_reachesCycle`
    * `Sheet.Cautious` and `Sheet.DetectsCycles`
    * `Engine.cycles_detected`
-/

namespace Spreadsheet

open Relation

namespace Sheet

variable {sheet : Sheet}
variable {known : CellMap Outcome}
variable {kind : Expr → List Address}
variable {a b t : Address}

------------------------------------------------------------
-- Where Circular References Come From
------------------------------------------------------------

/-
  What can make a cell report a circular reference: a cycle
  of references that it leads to, or a stored error of that
  kind in a cell that it leads to.
-/
def CycleCause
    (sheet : Sheet)
    (a : Address) : Prop :=
  sheet.ReachesCycle Expr.targets a ∨
    ∃ b message, sheet.Leads Expr.targets a b ∧
      sheet.content? b = some (.error .cycle message)

theorem CycleCause.of_refers
    (hRefers : sheet.Refers Expr.targets a b)
    (h : sheet.CycleCause b) : sheet.CycleCause a := by
  rcases h with hCycle | ⟨c, message, hLeads, hContent⟩
  · exact Or.inl (hCycle.of_refers hRefers)
  · exact Or.inr
      ⟨c, message, hLeads.head hRefers, hContent⟩

/- Nothing known is a circular reference. -/
def NoneCircular
    (known : CellMap Outcome) : Prop :=
  ∀ x outcome, known.get? x = some outcome →
    outcome.hasCode .cycle = false

/- Expressions raise no such error by themselves. -/
theorem code_ne_cycle_of_raisedHere
    {err : FormulaError}
    (h : Expr.RaisedHere err) : err.code ≠ .cycle := by
  rcases h with rfl | ⟨name, rfl⟩
  · decide
  · exact fun h => ErrorCode.noConfusion h

/- An error keeps its code when it is read by a formula. -/
theorem code_of_toResult
    {outcome : Outcome}
    {err : FormulaError}
    (h : outcome.toResult = .error err) :
    outcome.hasCode err.code = true := by
  cases outcome with
  | value v => cases h
  | error e =>
      cases h
      exact beq_self_eq_true e.code

/- The outcome of a formula has the code of its error. -/
theorem hasCode_ofResult
    {result : Except FormulaError Value}
    {code : ErrorCode}
    (h : (Outcome.ofResult result).hasCode code = true) :
    ∃ err, result = .error err ∧ err.code = code := by
  cases result with
  | ok v => cases h
  | error err => exact ⟨err, rfl, eq_of_beq h⟩

/-
  A circular reference that an expression comes to has a
  cause, if those that it reads do.
-/
theorem cycleCause_of_evaluate
    {read : Reader}
    {e : Expr}
    {err : FormulaError}
    (hExpr : sheet.expr? a = some e)
    (hTargets :
      ∀ y ∈ e.targets, ∀ err, read y = .error err →
        err.code = .cycle → sheet.CycleCause y)
    (hResult : (e.evaluate read).outcome = .error err)
    (hCode : err.code = .cycle) : sheet.CycleCause a := by
  rcases e.error_source hResult with
    hRaised | ⟨y, hy, hError⟩
  · exact absurd hCode (code_ne_cycle_of_raisedHere hRaised)
  · have hRefers : sheet.Refers Expr.targets a y :=
      ⟨e, hExpr, hy⟩
    apply CycleCause.of_refers hRefers
    exact hTargets y hy err hError hCode

/-
  A circular reference that is read has a cause. The cells
  under evaluation all lead to the one that is read, so if
  it is one of them it is on a cycle.
-/
theorem cycleCause_of_readReference
    (hKnown : NoneCircular known)
    (visited : List Address)
    (t : Address)
    (hPath : sheet.UnderWay visited t)
    (err : FormulaError)
    (hRead : sheet.readReference known visited t = .error err)
    (hCode : err.code = .cycle) : sheet.CycleCause t := by
  induction visited, t using reading_induction sheet
      generalizing err with
  | step visited t ih =>
      rw [readReference_eq] at hRead
      split at hRead
      · next hMem =>
          exact Or.inl (hPath.reachesCycle hMem)
      · next hVisited =>
          split at hRead
          · cases hRead
            cases hCode
          · cases hRead
          · next code message hContent =>
              cases hRead
              rcases hCode with rfl
              exact Or.inr ⟨t, message, .refl, hContent⟩
          · next source reading hContent =>
              split at hRead
              · next outcome hGet =>
                  have hSame := code_of_toResult hRead
                  rw [hCode, hKnown t outcome hGet] at hSame
                  cases hSame
              · have hSame := code_of_toResult hRead
                rw [hCode] at hSame
                rcases hasCode_ofResult hSame with
                  ⟨err', hResult, hCode'⟩
                cases reading with
                | error e =>
                    cases hResult
                    rw [code_of_unreadable hContent] at hCode'
                    cases hCode'
                | ok e =>
                    have hExpr := expr?_of_content? hContent
                    refine cycleCause_of_evaluate hExpr ?_
                      hResult hCode'
                    intro y hy
                    apply ih hVisited e hExpr y hy
                    exact hPath.cons ⟨e, hExpr, hy⟩

/- A circular reference that is reported has a cause. -/
theorem cycleCause_of_evaluateCellWith
    {explain : Bool}
    (hKnown : NoneCircular known)
    (hCode :
      (sheet.evaluateCellWith known explain a).outcome.hasCode
        .cycle = true) : sheet.CycleCause a := by
  rw [outcome_evaluateCellWith, evaluateCellWith_eq] at hCode
  split at hCode
  · cases hCode
  · cases hCode
  · next code message hContent =>
      have hCycle : code = .cycle := eq_of_beq hCode
      rw [hCycle] at hContent
      exact Or.inr ⟨a, message, .refl, hContent⟩
  · next source e hContent =>
      have hParse : e.code = .cycle := eq_of_beq hCode
      rw [code_of_unreadable hContent] at hParse
      cases hParse
  · next source e hContent =>
      have hExpr := expr?_of_content? hContent
      dsimp only at hCode
      split at hCode
      · next err hResult =>
          refine cycleCause_of_evaluate hExpr ?_ hResult
            (eq_of_beq hCode)
          intro y hy
          apply cycleCause_of_readReference hKnown _ y
          exact UnderWay.nil.cons ⟨e, hExpr, hy⟩
      · cases hCode

------------------------------------------------------------
-- Strict Cycles
------------------------------------------------------------

/- No value is known of a cell that reaches a cycle. -/
def NoValueAbove
    (sheet : Sheet)
    (kind : Expr → List Address)
    (known : CellMap Outcome) : Prop :=
  ∀ x outcome, known.get? x = some outcome →
    sheet.ReachesCycle kind x → outcome.isError = true

/-
  A reference to a cell above a cycle of strict references
  is an error. Following these references, reading comes to
  a cell under evaluation or to one known to be an error.
-/
theorem readReference_error_of_reachesCycle
    (hStrict : ∀ e : Expr, kind e ⊆ e.strictTargets)
    (hKnown : sheet.NoValueAbove kind known)
    (visited : List Address)
    (t : Address)
    (hCycle : sheet.ReachesCycle kind t) :
    ∃ err,
      sheet.readReference known visited t = .error err := by
  induction visited, t using reading_induction sheet with
  | step visited t ih =>
      rw [readReference_eq]
      split
      · exact ⟨_, rfl⟩
      · next hVisited =>
          rcases hCycle.exists_refers with
            ⟨y, ⟨e, hExpr, hy⟩, hBelow⟩
          rcases content?_of_expr? hExpr with
            ⟨source, hContent⟩
          rw [hContent]
          dsimp only
          split
          · next outcome hGet =>
              have hError := hKnown t outcome hGet hCycle
              cases outcome with
              | value v => cases hError
              | error e => exact ⟨_, rfl⟩
          · have hy' := hStrict e hy
            rcases ih hVisited e hExpr y
                (e.strictTargets_subset_targets hy') hBelow
              with ⟨err, hRead⟩
            rcases Expr.error_of_strictTarget hy' hRead with
              ⟨err', hResult⟩
            rw [hResult]
            exact ⟨_, rfl⟩

/- A cell above a cycle of strict references is an error. -/
theorem isError_of_reachesCycle
    (hStrict : ∀ e : Expr, kind e ⊆ e.strictTargets)
    (hKnown : sheet.NoValueAbove kind known)
    (hCycle : sheet.ReachesCycle kind a)
    (explain : Bool) :
    (sheet.evaluateCellWith known explain a).outcome.isError
      = true := by
  rcases hCycle.exists_refers with
    ⟨y, ⟨e, hExpr, hy⟩, hBelow⟩
  rcases content?_of_expr? hExpr with ⟨source, hContent⟩
  rcases readReference_error_of_reachesCycle hStrict hKnown
      [a.relative] y hBelow with ⟨err, hRead⟩
  rcases Expr.error_of_strictTarget (hStrict e hy) hRead with
    ⟨err', hResult⟩
  rw [evaluateCellWith_eq, hContent]
  dsimp only
  rw [hResult]
  rfl

------------------------------------------------------------
-- Detection
------------------------------------------------------------

/-
  Whether the outcome of a cell tells circular references
  from others: it is the error for them only with a cause,
  and no value above a cycle of strict references.
-/
structure DetectsCycles
    (sheet : Sheet)
    (a : Address)
    (outcome : Outcome) : Prop where
  sound :
    outcome.hasCode .cycle = true → sheet.CycleCause a
  complete :
    sheet.ReachesCycle Expr.strictTargets a →
      outcome.isError = true

/- What is known does not hide a circular reference. -/
structure Cautious
    (sheet : Sheet)
    (known : CellMap Outcome) : Prop where
  circular : NoneCircular known
  value : sheet.NoValueAbove Expr.strictTargets known

theorem cautious_empty
    (sheet : Sheet) : sheet.Cautious CellMap.empty := by
  constructor
  · intro x outcome hGet
    simp at hGet
  · intro x outcome hGet
    simp at hGet

theorem detectsCycles_evaluateCellWith
    (hKnown : sheet.Cautious known)
    (explain : Bool)
    (a : Address) :
    sheet.DetectsCycles a
      (sheet.evaluateCellWith known explain a).outcome where
  sound := cycleCause_of_evaluateCellWith hKnown.circular
  complete := fun hCycle =>
    isError_of_reachesCycle (fun _ _ h => h) hKnown.value
      hCycle explain

end Sheet

namespace Engine

variable {engine : Engine} {sheet : Sheet} {a : Address}

/- Evaluating a cell above a cycle finds no value of it. -/
theorem noValueAbove_kept
    {kind : Expr → List Address}
    (hStrict : ∀ e : Expr, kind e ⊆ e.strictTargets)
    (explain : Bool)
    (among : Address → Prop) :
    KeptBy (sheet.NoValueAbove kind) explain sheet among := by
  intro known b _ hKnown _ x outcome hGet hCycle
  rcases CellMap.get?_insert_eq_some hGet with
    ⟨hxb, rfl⟩ | hBefore
  · rw [← Sheet.evaluateCellWith_congr_relative hxb]
    exact Sheet.isError_of_reachesCycle hStrict hKnown
      hCycle explain
  · exact hKnown x outcome hBefore hCycle

/-
  Evaluating a cell keeps what is known cautious, because
  circular references are not kept.
-/
theorem cautious_kept
    (explain : Bool)
    (among : Address → Prop) :
    KeptBy sheet.Cautious explain sheet among := by
  intro known b hb hKnown hCode
  constructor
  · intro x outcome hGet
    rcases CellMap.get?_insert_eq_some hGet with
      ⟨-, rfl⟩ | hBefore
    · exact hCode
    · exact hKnown.circular x outcome hBefore
  · exact noValueAbove_kept (fun _ _ h => h) explain among
      known b hb hKnown.value hCode

/-
  Circular references are detected when a cell is evaluated
  by itself and when a whole sheet is evaluated, which
  reports every formula.
-/
theorem cycles_detected
    (hFormula : holdsFormula sheet a = true) :
    (∀ explain,
      sheet.DetectsCycles a
        (sheet.evaluateCell explain a).outcome)
      ∧ ∃ outcome,
        (engine.evaluateSheet sheet).1.get? a = some outcome
          ∧ sheet.DetectsCycles a outcome := by
  constructor
  · intro explain
    exact Sheet.detectsCycles_evaluateCellWith
      sheet.cautious_empty explain a
  · have hPass := evaluateSheet_pass engine
      sheet.cautious_empty (cautious_kept engine.explain
        fun x => holdsFormula sheet x = true)
    rcases hPass.covers a hFormula with
      ⟨known, hKnown, hGet, -⟩
    exact ⟨_, hGet, Sheet.detectsCycles_evaluateCellWith
      hKnown engine.explain a⟩

/-
  Two formulas that read each other, one of them under a
  condition that reads the other one first.
-/
def ringSheet : Sheet :=
  { Sheet.blank "Ring" 2 1 .epoch with
    cells := CellMap.ofList
      [(.ofPosition 0 0,
          .formula "=IF(A2,1)"
            (some (.call "IF"
              [.cell (.ofPosition 1 0), .number 1]))),
        (.ofPosition 1 0,
          .formula "=-A1"
            (some (.negate
              (.cell (.ofPosition 0 0)))))] }

/- No value is reported of a formula on the ring. -/
theorem isError_evaluateSheet_ringSheet :
    ∃ outcome,
      ((Engine.new true).evaluateSheet ringSheet).1.get?
          (.ofPosition 0 0) = some outcome
        ∧ outcome.isError = true := by
  rcases (@cycles_detected (Engine.new true) ringSheet
    (.ofPosition 0 0) (by decide)).2 with
    ⟨outcome, hGet, hDetects⟩
  refine ⟨outcome, hGet, hDetects.complete ?_⟩
  have hDown :
      ringSheet.Refers Expr.strictTargets
        (.ofPosition 0 0) (.ofPosition 1 0) :=
    ⟨_, rfl, by decide⟩
  have hUp :
      ringSheet.Refers Expr.strictTargets
        (.ofPosition 1 0) (.ofPosition 0 0) :=
    ⟨_, rfl, by decide⟩
  exact Sheet.reachesCycle_of_leads_back hDown (.single hUp)

end Engine

end Spreadsheet
