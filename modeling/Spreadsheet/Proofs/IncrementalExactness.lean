import Mathlib
import Spreadsheet.Proofs.Session
import Spreadsheet.Proofs.SheetGraph

/-
  On orderly sheets incremental recalculation is exact: in
  every session of a run the graph draws the references of
  the sheet, and what is known of a formula is its plain
  outcome. An edit drops what it affects, and a cell that it
  does not affect leads to none that has changed.

  Main declarations:
    * `Sheet.KnownExactly`
    * `Session.Exact`
    * `Session.exact_evaluated` and `Session.exact_edited`
    * `Session.incremental_exact`
-/

namespace Spreadsheet

open Relation DependencyGraph

------------------------------------------------------------
-- Exact Knowledge
------------------------------------------------------------

namespace Sheet

variable {sheet : Sheet}
variable {known : CellMap Outcome}
variable {a : Address}

/-
  What is known is known of formulas, and is their plain
  outcome.
-/
structure KnownExactly
    (sheet : Sheet)
    (known : CellMap Outcome) : Prop where
  formulas : Engine.KnowsFormulas sheet known
  plain :
    ∀ x outcome, known.get? x = some outcome →
      outcome = (sheet.evaluateCell false x).outcome

theorem knownExactly_empty
    (sheet : Sheet) : sheet.KnownExactly CellMap.empty := by
  refine ⟨Engine.knowsFormulas_empty sheet, ?_⟩
  intro x outcome hGet
  cases hGet

/- Without cycles exact knowledge changes no evaluation. -/
theorem evaluateCellWith_of_knownExactly
    (hAcyclic : ∀ b, ¬ sheet.OnCycle Expr.targets b)
    (hKnown : sheet.KnownExactly known)
    (explain : Bool)
    (a : Address) :
    sheet.evaluateCellWith known explain a =
      sheet.evaluateCell explain a := by
  apply evaluateCellWith_eq_plain
  · rintro ⟨b, -, hCycle⟩
    exact hAcyclic b hCycle
  · intro x source reading outcome _ _ hGet
    exact hKnown.plain x outcome hGet

/- Evaluating formulas keeps knowledge exact. -/
theorem knownExactly_kept
    (hAcyclic : ∀ b, ¬ sheet.OnCycle Expr.targets b)
    (explain : Bool)
    {among : Address → Prop}
    (hAmong :
      ∀ b, among b → Engine.holdsFormula sheet b = true) :
    Engine.KeptBy sheet.KnownExactly explain sheet among := by
  intro known b hb hKnown hCode
  refine ⟨Engine.knowsFormulas_kept explain hAmong known b hb
    hKnown.formulas hCode, ?_⟩
  intro x outcome hGet
  rcases CellMap.get?_insert_eq_some hGet with
    ⟨hxb, rfl⟩ | hBefore
  · rw [← evaluateCellWith_congr_relative hxb,
      evaluateCellWith_of_knownExactly hAcyclic hKnown]
    exact outcome_evaluateCellWith _ _ _ _
  · exact hKnown.plain x outcome hBefore

/-
  The plain evaluation of a cell that does not lead to an
  edited one is the same before and after the edit.
-/
theorem evaluateCell_of_not_leads
    {sheet' : Sheet}
    {x : Address}
    (hOther :
      ∀ y : Address, y.relative ≠ a.relative →
        sheet.content? y = sheet'.content? y)
    (hLeads :
      ¬ sheet'.Leads Expr.targets x.relative a.relative)
    (explain : Bool) :
    sheet.evaluateCell explain x =
      sheet'.evaluateCell explain x := by
  have hInside :
      ∀ y : Address,
        ¬ sheet'.Leads Expr.targets y.relative a.relative →
          y.relative ≠ a.relative := by
    intro y hy heq
    exact hy (heq ▸ ReflTransGen.refl)
  apply evaluateCellWith_local fun y =>
    ¬ sheet'.Leads Expr.targets y.relative a.relative
  · intro y z hy hRefers hz
    have hRefers' := hRefers.congr (hOther y (hInside y hy))
    have hKey : z.relative = z := by
      rcases hRefers with ⟨e, -, hMem⟩
      exact Expr.relative_of_mem_targets e hMem
    rw [hKey] at hz
    exact hy (hz.head (refers_relative_iff.mpr hRefers'))
  · intro y hy
    exact hOther y (hInside y hy)
  · exact hLeads

end Sheet

------------------------------------------------------------
-- Exact Sessions
------------------------------------------------------------

namespace Session

variable {s : Session}

/- What holds in every session of a run on orderly sheets. -/
structure Exact
    (s : Session) : Prop where
  read : s.sheet.AllRead
  mirrored : s.engine.graph.Mirrored
  draws : Engine.Draws Expr.targets s.engine.graph s.sheet
  known : s.sheet.KnownExactly s.engine.known

/- A session is exact after its sheet was evaluated. -/
theorem exact_evaluated
    (hOrderly : s.evaluated.sheet.Orderly) :
    Exact s.evaluated := by
  have hPass := s.evaluated_pass
    s.evaluated.sheet.knownExactly_empty
    (Sheet.knownExactly_kept hOrderly.acyclic _
      fun _ => id)
  have hGraph :
      s.evaluated.engine.graph =
        Engine.graphOf s.evaluated.sheet := by
    rw [sheet_evaluated]
    exact hPass.graph
  refine ⟨s.allRead_evaluated, ?_, ?_, hPass.known⟩
  · rw [hGraph]
    exact Engine.mirrored_graphOf _
  · rw [hGraph]
    exact Engine.draws_graphOf s.allRead_evaluated
      hOrderly.linkable

variable {a : Address}
variable {cell : Option Cell}
variable {now : Timestamp}

/- The graph that an edit works with draws the new sheet. -/
theorem draws_afterEdit
    (hExact : Exact s)
    (hOrderly : (s.edited a cell now).sheet.Orderly) :
    Engine.Draws Expr.targets
      (s.engine.afterEdit s.sheet a cell).graph
      (s.edited a cell now).sheet := by
  have hRead := allRead_edited hExact.read a cell now
  have hRelink := Engine.draws_relink hExact.mirrored
    hExact.draws
    (fun _ hne => (content?_edited_of_ne hne).symm) hRead
    hOrderly.linkable
  rw [sheet_edited] at hRelink ⊢
  exact hRelink

/-
  What an edit does not drop stays exact: a cell that does
  not depend on the edited one does not lead to it.
-/
theorem knownExactly_afterEdit
    (hExact : Exact s)
    (hOrderly : (s.edited a cell now).sheet.Orderly) :
    (s.edited a cell now).sheet.KnownExactly
      (s.engine.afterEdit s.sheet a cell).known := by
  refine ⟨knowsFormulas_afterEdit hExact.known.formulas, ?_⟩
  intro x outcome hGet
  have ⟨hStays, hKnown⟩ := kept_of_get?_afterEdit hGet
  have hLeads :
      ¬ (s.edited a cell now).sheet.Leads Expr.targets
        x.relative a.relative := by
    intro hLeads
    apply hStays
    rw [mem_dependents_iff]
    exact Engine.readBy_of_leads
      (draws_afterEdit hExact hOrderly)
      (Address.relative_relative x) hLeads
  rw [hExact.known.plain x outcome hKnown]
  exact congrArg CellEvaluation.outcome
    (Sheet.evaluateCell_of_not_leads
      (fun _ hne => (content?_edited_of_ne hne).symm) hLeads
      false)

/- An edit is a pass that keeps knowledge exact. -/
theorem edited_pass_exact
    (hExact : Exact s)
    (hOrderly : (s.edited a cell now).sheet.Orderly) :
    Engine.Pass (s.edited a cell now).sheet.KnownExactly
      (s.engine.afterEdit s.sheet a cell)
      (s.edited a cell now).sheet
      (s.engine.Affected s.sheet a cell)
      (s.edited a cell now).engine
      (s.recalculation a cell now).results := by
  apply s.edited_pass _ a cell now
  · exact knownExactly_afterEdit hExact hOrderly
  · apply Sheet.knownExactly_kept hOrderly.acyclic
    exact fun _ => holdsFormula_of_affected

/- An exact session is exact after an edit. -/
theorem exact_edited
    (hExact : Exact s)
    (hOrderly : (s.edited a cell now).sheet.Orderly) :
    Exact (s.edited a cell now) := by
  have hPass := edited_pass_exact hExact hOrderly
  have hGraph :
      (s.edited a cell now).engine.graph =
        (s.engine.afterEdit s.sheet a cell).graph :=
    hPass.graph
  refine ⟨allRead_edited hExact.read a cell now, ?_, ?_,
    hPass.known⟩
  · rw [hGraph]
    exact Engine.mirrored_relink hExact.mirrored _ _
  · rw [hGraph]
    exact draws_afterEdit hExact hOrderly

/- Every session of a run on orderly sheets is exact. -/
theorem exact_of_run
    (hRun : Run JustEvaluated Sheet.Orderly s) :
    Exact s ∧ s.sheet.Orderly := by
  induction hRun with
  | start hStart hSheet =>
      rcases hStart with ⟨before, rfl⟩
      exact ⟨exact_evaluated hSheet, hSheet⟩
  | evaluated hRun hSheet ih =>
      exact ⟨exact_evaluated hSheet, hSheet⟩
  | edited hRun a cell now hSheet ih =>
      exact ⟨exact_edited ih.1 hSheet, hSheet⟩

end Session

------------------------------------------------------------
-- Agreement With Fresh Evaluation
------------------------------------------------------------

/-
  Reports that a new engine makes of the sheet as well, when
  it evaluates the cell and when it evaluates the sheet.
-/
structure Results.MatchFresh
    (explain : Bool)
    (sheet : Sheet)
    (results : Results) : Prop where
  outcomes :
    ∀ a outcome, results.get? a = some outcome →
      (sheet.evaluateCell explain a).outcome = outcome ∧
        ((Engine.new explain).evaluateSheet sheet).1.get? a =
          some outcome
  steps :
    ∀ a steps, results.steps.get? a = some steps →
      (sheet.evaluateCell explain a).steps = some steps ∧
        ((Engine.new explain).evaluateSheet
          sheet).1.steps.get? a = some steps

/- A new engine reports plain outcomes of orderly sheets. -/
theorem Sheet.Orderly.fresh_reports
    {sheet : Sheet}
    (hOrderly : sheet.Orderly)
    (explain : Bool)
    {a : Address}
    (hFormula : Engine.holdsFormula sheet a = true) :
    ((Engine.new explain).evaluateSheet sheet).1.get? a =
        some (sheet.evaluateCell explain a).outcome ∧
      ∀ steps,
        (sheet.evaluateCell explain a).steps = some steps →
        ((Engine.new explain).evaluateSheet
          sheet).1.steps.get? a = some steps := by
  have hPass := Engine.evaluateSheet_pass (Engine.new explain)
    sheet.knownExactly_empty
    (Sheet.knownExactly_kept hOrderly.acyclic explain
      fun _ => id)
  rcases hPass.covers a hFormula with
    ⟨known, hKnown, hReport⟩
  rw [Sheet.evaluateCellWith_of_knownExactly hOrderly.acyclic
    hKnown] at hReport
  exact hReport

namespace Session

variable {s : Session}

/-
  What is known is right, cells evaluate as they do without
  anything known, and edits report what a new engine does.
-/
structure UpToDate
    (s : Session) : Prop where
  known :
    ∀ x outcome, s.engine.known.get? x = some outcome →
      Engine.holdsFormula s.sheet x = true ∧
        outcome =
          (s.sheet.evaluateCell s.engine.explain x).outcome
  cells :
    ∀ a, s.engine.evaluateCell s.sheet a =
      s.sheet.evaluateCell s.engine.explain a
  formulas :
    ∀ a, Engine.holdsFormula s.sheet a = true →
      ((Engine.new s.engine.explain).evaluateSheet
          s.sheet).1.get? a =
        some (s.engine.evaluateCell s.sheet a).outcome
  edits :
    ∀ a cell now, (s.edited a cell now).sheet.Orderly →
      (s.recalculation a cell now).results.MatchFresh
        s.engine.explain (s.edited a cell now).sheet

/- An edit of an exact session reports what is fresh. -/
theorem recalculation_matchFresh
    (hExact : Exact s)
    {a : Address}
    {cell : Option Cell}
    {now : Timestamp}
    (hOrderly : (s.edited a cell now).sheet.Orderly) :
    (s.recalculation a cell now).results.MatchFresh
      s.engine.explain (s.edited a cell now).sheet := by
  have hPass := edited_pass_exact hExact hOrderly
  constructor
  · intro b outcome hGet
    rcases hPass.outcomes b outcome hGet with
      ⟨hb, known, hKnown, hOutcome⟩
    rw [Sheet.evaluateCellWith_of_knownExactly
      hOrderly.acyclic hKnown] at hOutcome
    have hFresh := hOrderly.fresh_reports s.engine.explain
      (holdsFormula_of_affected hb)
    exact ⟨hOutcome, hFresh.1.trans (congrArg some hOutcome)⟩
  · intro b steps hGet
    rcases hPass.steps b steps hGet with
      ⟨hb, known, hKnown, hSteps⟩
    rw [Sheet.evaluateCellWith_of_knownExactly
      hOrderly.acyclic hKnown] at hSteps
    have hFresh := hOrderly.fresh_reports s.engine.explain
      (holdsFormula_of_affected hb)
    exact ⟨hSteps, hFresh.2 steps hSteps⟩

/-
  In a run that starts by evaluating a sheet and whose
  sheets are all orderly, every session is up to date.
-/
theorem incremental_exact
    (hRun : Run JustEvaluated Sheet.Orderly s) :
    UpToDate s := by
  have ⟨hExact, hOrderly⟩ := exact_of_run hRun
  have hCells :
      ∀ a, s.engine.evaluateCell s.sheet a =
        s.sheet.evaluateCell s.engine.explain a :=
    fun a => Sheet.evaluateCellWith_of_knownExactly
      hOrderly.acyclic hExact.known s.engine.explain a
  refine ⟨?_, hCells, ?_, ?_⟩
  · intro x outcome hGet
    refine ⟨hExact.known.formulas x outcome hGet, ?_⟩
    rw [hExact.known.plain x outcome hGet]
    exact (Sheet.outcome_evaluateCellWith _ _ _ _).symm
  · intro a hFormula
    rw [hCells]
    exact (hOrderly.fresh_reports s.engine.explain
      hFormula).1
  · intro a cell now hEdited
    exact recalculation_matchFresh hExact hEdited

/-
  A sheet with one formula, which reads the cell below it
  for a truth value.
-/
def switchSheet : Sheet :=
  { Sheet.blank "Switch" 2 1 .epoch with
    cells := CellMap.ofList
      [(.ofPosition 0 0,
          .formula "=A2" (some (.cell (.ofPosition 1 0)))),
        (.ofPosition 1 0, .literal (.boolean true))] }

/- The session on that sheet after the switch is turned. -/
def switched : Session :=
  (evaluated ⟨Engine.new true, switchSheet⟩).edited
    (.ofPosition 1 0) (some (.literal (.boolean false)))
    .epoch

/- A sheet whose only formula is that one is orderly. -/
theorem orderly_of_switch
    {sheet : Sheet}
    (hOther :
      ∀ a : Address, a.relative ≠ .ofPosition 0 0 →
        sheet.expr? a = none)
    (hFormula :
      sheet.expr? (.ofPosition 0 0) =
        some (.cell (.ofPosition 1 0))) :
    sheet.Orderly := by
  have hExpr :
      ∀ a e, sheet.expr? a = some e →
        a.relative = .ofPosition 0 0 ∧
          e = .cell (.ofPosition 1 0) := by
    intro a e hSome
    by_cases ha : a.relative = .ofPosition 0 0
    · rw [← Sheet.expr?_relative, ha, hFormula] at hSome
      exact ⟨ha, (Option.some.inj hSome).symm⟩
    · rw [hOther a ha] at hSome
      cases hSome
  constructor
  · intro a hCycle
    rcases TransGen.head'_iff.mp hCycle with
      ⟨b, ⟨e, hSome, hMem⟩, hBack⟩
    rcases hExpr a e hSome with ⟨ha, rfl⟩
    rcases List.mem_singleton.mp hMem with rfl
    rcases ReflTransGen.cases_head hBack with
      heq | ⟨c, ⟨e', hSome', -⟩, -⟩
    · rw [← heq] at ha
      exact absurd ha (by decide)
    · exact absurd (hExpr _ e' hSome').1 (by decide)
  · intro a e hSome p hp
    rcases hExpr a e hSome with ⟨-, rfl⟩
    cases hp

theorem expr?_switchSheet
    {a : Address}
    (ha : a.relative ≠ .ofPosition 0 0) :
    switchSheet.expr? a = none := by
  unfold Sheet.expr? Sheet.content? Sheet.get? switchSheet
  simp only [CellMap.ofList, List.foldl_cons, List.foldl_nil,
    CellMap.get?_insert, Address.relative_ofPosition, ha,
    ↓reduceIte]
  split
  · rfl
  · rfl

/- That session is reached by a run on orderly sheets. -/
theorem run_switched :
    Run JustEvaluated Sheet.Orderly switched := by
  apply Run.edited
  · apply Run.start ⟨_, rfl⟩
    rw [sheet_evaluated]
    apply orderly_of_switch
    · intro a ha
      unfold Sheet.expr?
      rw [Sheet.content?_parseFormulas]
      exact expr?_switchSheet ha
    · rfl
  · apply orderly_of_switch
    · intro a ha
      unfold Sheet.expr?
      rw [content?_edited, sheet_evaluated,
        Sheet.content?_parseFormulas]
      split
      · rfl
      · exact expr?_switchSheet ha
    · unfold Sheet.expr?
      rw [content?_edited, sheet_evaluated,
        Sheet.content?_parseFormulas]
      rfl

/- There the formula reads what the switch was turned to. -/
theorem evaluateCell_switched :
    (switched.engine.evaluateCell switched.sheet
        (.ofPosition 0 0)).outcome =
      .value (.boolean false) := by
  rw [(incremental_exact run_switched).cells]
  cbv

end Session

end Spreadsheet
