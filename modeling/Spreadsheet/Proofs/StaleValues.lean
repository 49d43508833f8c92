import Mathlib
import Spreadsheet.Proofs.CycleDetection
import Spreadsheet.Proofs.Session
import Spreadsheet.Proofs.SheetGraph

/-
  When edits report circular references. An edge that would
  close a cycle is left out of the graph and stays left out
  when the cycle is broken, so a value can outlast an edit
  that it depends on. Edits report circular references just
  in case no value that is known hides one in this way.

  Main declarations:
    * `Session.ReportsCircular`
    * `Session.HidesNone`
    * `Session.reportsCircular_iff`
    * `Session.not_reportsCircular_stale`
-/

namespace Spreadsheet

open Relation DependencyGraph

------------------------------------------------------------
-- References Around An Edited Cell
------------------------------------------------------------

namespace Sheet

variable {sheet sheet' : Sheet}
variable {kind : Expr → List Address}
variable {a x y : Address}

/- References of a kind that evaluation may read. -/
theorem relative_of_refers
    (hKind : ∀ e : Expr, kind e ⊆ e.targets)
    (h : sheet.Refers kind x y) : y.relative = y := by
  rcases h with ⟨e, -, hMem⟩
  exact Expr.relative_of_mem_targets e (hKind e hMem)

/-
  References that lead to an edited cell do so before and
  after the edit: up to that cell they are the same.
-/
theorem Leads.of_edit
    (hKind : ∀ e : Expr, kind e ⊆ e.targets)
    (hOther :
      ∀ b : Address, b.relative ≠ a.relative →
        sheet.content? b = sheet'.content? b)
    (hx : x.relative = x)
    (h : sheet.Leads kind x a.relative) :
    sheet'.Leads kind x a.relative := by
  induction h using ReflTransGen.head_induction_on with
  | refl => exact .refl
  | head hRefers hRest ih =>
      rename_i y z
      by_cases hy : y = a.relative
      · rw [hy]
        exact .refl
      · have hSame := hOther y (by rw [hx]; exact hy)
        have hz := relative_of_refers hKind hRefers
        exact (ih hz).head (hRefers.congr hSame)

/-
  A cell that does not lead to the edited one reaches the
  same cycles before and after the edit.
-/
theorem ReachesCycle.of_edit
    (hKind : ∀ e : Expr, kind e ⊆ e.targets)
    (hOther :
      ∀ b : Address, b.relative ≠ a.relative →
        sheet.content? b = sheet'.content? b)
    (hx : x.relative = x)
    (hLeads : ¬ sheet.Leads kind x a.relative)
    (h : sheet.ReachesCycle kind x) :
    sheet'.ReachesCycle kind x := by
  have hClosed :
      ∀ y z, (y.relative = y
          ∧ ¬ sheet.Leads kind y a.relative) →
        sheet.Refers kind y z →
        (z.relative = z
          ∧ ¬ sheet.Leads kind z a.relative) := by
    intro y z hy hRefers
    refine ⟨relative_of_refers hKind hRefers, ?_⟩
    exact fun hz => hy.2 (hz.head hRefers)
  apply ReachesCycle.congr hClosed ?_ ⟨hx, hLeads⟩ h
  intro y hy
  apply hOther
  intro heq
  rw [hy.1] at heq
  exact hy.2 (heq ▸ ReflTransGen.refl)

end Sheet

namespace Session

variable {s : Session}
variable {a : Address}
variable {cell : Option Cell}
variable {now : Timestamp}

------------------------------------------------------------
-- Reporting Circular References
------------------------------------------------------------

/-
  No edit reports a value of a formula from which references
  under operators lead to a cycle of such references.
-/
def ReportsCircular
    (s : Session) : Prop :=
  ∀ a cell now x outcome,
    (s.recalculation a cell now).results.get? x
      = some outcome →
    (s.edited a cell now).sheet.ReachesCycle
      Expr.operandTargets x →
    outcome.isError = true

/-
  No value is known of a formula from which such references
  lead to a cycle, or to a cell that the graph does not have
  the formula depend on.
-/
def HidesNone
    (s : Session) : Prop :=
  ∀ y v, s.engine.known.get? y = some (.value v) →
    ∀ f : Address,
      y.relative ∉ s.engine.graph.dependents f →
      ¬ s.sheet.Leads Expr.operandTargets y.relative
          f.relative
        ∧ ¬ s.sheet.ReachesCycle Expr.operandTargets y

theorem operandTargets_subset_targets
    (e : Expr) : e.operandTargets ⊆ e.targets :=
  fun _ h =>
    e.strictTargets_subset_targets (e.operandTargets_subset h)

/-
  If no value hides a circular reference, none does so after
  an edit has dropped what it affects.
-/
theorem noValueAbove_afterEdit
    (hHides : HidesNone s) :
    (s.edited a cell now).sheet.NoValueAbove
      Expr.operandTargets
      (s.engine.afterEdit s.sheet a cell).known := by
  intro y outcome hGet hCycle
  cases outcome with
  | error e => rfl
  | value v =>
      have ⟨hStays, hKnown⟩ := kept_of_get?_afterEdit hGet
      have ⟨hLeads, hNone⟩ := hHides y v hKnown a
        fun hMem => hStays (Engine.dependents_relink.mpr hMem)
      have hOther :
          ∀ b : Address, b.relative ≠ a.relative →
            (s.edited a cell now).sheet.content? b =
              s.sheet.content? b :=
        fun _ => content?_edited_of_ne
      have hKey := Address.relative_relative y
      have hLeads' :
          ¬ (s.edited a cell now).sheet.Leads
            Expr.operandTargets y.relative a.relative := by
        intro hEdited
        exact hLeads (hEdited.of_edit
          operandTargets_subset_targets hOther hKey)
      exfalso
      apply hNone
      apply Sheet.reachesCycle_relative_iff.mp
      apply Sheet.ReachesCycle.of_edit
        operandTargets_subset_targets hOther hKey hLeads'
      exact Sheet.reachesCycle_relative_iff.mpr hCycle

/- Then edits report circular references. -/
theorem reportsCircular_of_hidesNone
    (hHides : HidesNone s) : ReportsCircular s := by
  intro a cell now x outcome hGet hCycle
  have hPass := s.edited_pass _ a cell now
    (noValueAbove_afterEdit hHides)
    (Engine.noValueAbove_kept Expr.operandTargets_subset _ _)
  rcases hPass.outcomes x outcome hGet with
    ⟨-, known, hKnown, hOutcome⟩
  rw [← hOutcome]
  exact Sheet.isError_of_reachesCycle
    Expr.operandTargets_subset hKnown hCycle _

------------------------------------------------------------
-- Edits That Uncover A Hidden Reference
------------------------------------------------------------

/- In every session of a run only formulas are known. -/
theorem knowsFormulas_of_run
    (hRun : Run Untouched (fun _ => True) s) :
    Engine.KnowsFormulas s.sheet s.engine.known := by
  induction hRun with
  | start hStart hSheet =>
      rw [hStart]
      exact Engine.knowsFormulas_empty _
  | evaluated hRun hSheet ih =>
      rename_i s
      have hPass := s.evaluated_pass
        (Engine.knowsFormulas_empty _)
        (Engine.knowsFormulas_kept _ fun _ => id)
      exact hPass.known
  | edited hRun a cell now hSheet ih =>
      rename_i s
      have hPass := s.edited_pass _ a cell now
        (knowsFormulas_afterEdit ih)
        (Engine.knowsFormulas_kept _
          fun _ => holdsFormula_of_affected)
      exact hPass.known

/- A formula that only reads one cell. -/
def readerOf
    (y : Address) : Cell :=
  .formula "" (some (.cell y))

/- It has the value that is known of that cell. -/
theorem outcome_readerOf
    {sheet : Sheet}
    {known : CellMap Outcome}
    {f y : Address}
    {v : Value}
    {explain : Bool}
    (hReader :
      sheet.content? f = some (readerOf y).content)
    (hFormula : Engine.holdsFormula sheet y = true)
    (hKnown : known.get? y = some (.value v))
    (hne : y.relative ≠ f.relative) :
    (sheet.evaluateCellWith known explain f).outcome =
      .value v := by
  have hRead :
      sheet.readReference known [f.relative] y.relative =
        .ok v := by
    rw [Sheet.holdsFormula_eq] at hFormula
    rw [Sheet.readReference_eq, Sheet.content?_relative,
      CellMap.get?_relative, Address.relative_relative,
      if_neg (by simpa using hne)]
    cases hContent : sheet.content? y with
    | none =>
        rw [hContent] at hFormula
        cases hFormula
    | some content =>
        rw [hContent] at hFormula
        cases content with
        | literal value => cases hFormula
        | error code message => cases hFormula
        | formula source reading =>
            rw [hKnown]
            rfl
  have hReads :
      ((Expr.cell y).evaluate
          (sheet.readReference known [f.relative])).outcome =
        .ok v := by
    rw [Expr.evaluate, Reader.outcome_cell, hRead]
  rw [Sheet.outcome_evaluateCellWith,
    Sheet.evaluateCellWith_eq, hReader]
  simp only [readerOf, Cell.content, Cell.expr, hReads]

/-
  A formula that is made to read a known value is reported
  to have it, if that value outlasts the edit.
-/
theorem recalculation_readerOf
    {y f : Address}
    {v : Value}
    (hFormulas :
      Engine.KnowsFormulas s.sheet s.engine.known)
    (hKnown : s.engine.known.get? y = some (.value v))
    (hStays : y.relative ∉ s.engine.graph.dependents f)
    (now : Timestamp) :
    (s.recalculation f (some (readerOf y)) now).results.get? f
      = some (.value v) := by
  have hStays' :
      y.relative ∉ (s.engine.afterEdit s.sheet f
        (some (readerOf y))).graph.dependents f :=
    fun hMem => hStays (Engine.dependents_relink.mp hMem)
  have hGet :
      (s.engine.afterEdit s.sheet f
          (some (readerOf y))).known.get? y =
        some (.value v) := by
    rw [Engine.get?_known_afterEdit, if_neg hStays']
    exact hKnown
  have hne := ne_of_get?_afterEdit hGet
  have hReader :
      (s.edited f (some (readerOf y)) now).sheet.content? f =
        some (readerOf y).content := by
    rw [content?_edited, if_pos rfl]
    rfl
  have hFormula :
      Engine.holdsFormula
        (s.edited f (some (readerOf y)) now).sheet y
          = true := by
    rw [Sheet.holdsFormula_congr (content?_edited_of_ne hne)]
    exact hFormulas y _ hKnown
  have hPass := s.edited_pass
    (fun known => known.get? y = some (.value v)) f
    (some (readerOf y)) now hGet ?_
  · have hAffected :
        s.engine.Affected s.sheet f (some (readerOf y)) f := by
      refine ⟨relative_mem_dependents _ f, ?_⟩
      rw [Sheet.holdsFormula_eq, Sheet.content?_storeCell,
        if_pos rfl]
      rfl
    rcases hPass.covers f hAffected with
      ⟨known, hSame, hReport, -⟩
    rw [hReport, outcome_readerOf hReader hFormula hSame hne]
  · intro known b hb hSame _
    rw [CellMap.get?_insert, if_neg]
    · exact hSame
    · intro heq
      exact hStays' (heq ▸ hb.1)

/-
  After that edit the formula reaches a cycle, if the cell
  that it reads led to it or reached one before.
-/
theorem reachesCycle_readerOf
    {y f : Address}
    (now : Timestamp)
    (h :
      s.sheet.Leads Expr.operandTargets y.relative f.relative
        ∨ s.sheet.ReachesCycle Expr.operandTargets y) :
    (s.edited f (some (readerOf y)) now).sheet.ReachesCycle
      Expr.operandTargets f := by
  have hOther :
      ∀ b : Address, b.relative ≠ f.relative →
        s.sheet.content? b =
          (s.edited f (some (readerOf y))
            now).sheet.content? b :=
    fun _ hb => (content?_edited_of_ne hb).symm
  have hKey := Address.relative_relative y
  have hRefers :
      (s.edited f (some (readerOf y)) now).sheet.Refers
        Expr.operandTargets f.relative y.relative := by
    refine ⟨.cell y, ?_, List.mem_cons_self⟩
    unfold Sheet.expr?
    rw [Sheet.content?_relative, content?_edited,
      if_pos rfl]
    rfl
  apply Sheet.reachesCycle_relative_iff.mp
  by_cases hLeads :
      s.sheet.Leads Expr.operandTargets y.relative f.relative
  · exact Sheet.reachesCycle_of_leads_back hRefers
      (hLeads.of_edit operandTargets_subset_targets hOther
        hKey)
  · apply Sheet.ReachesCycle.of_refers hRefers
    apply Sheet.ReachesCycle.of_edit
      operandTargets_subset_targets hOther hKey hLeads
    exact Sheet.reachesCycle_relative_iff.mpr
      (h.resolve_left hLeads)

/- An edit uncovers each value that hides a reference. -/
theorem hidesNone_of_reportsCircular
    (hFormulas :
      Engine.KnowsFormulas s.sheet s.engine.known)
    (hReports : ReportsCircular s) : HidesNone s := by
  intro y v hKnown f hStays
  have hNot :
      ¬ (s.sheet.Leads Expr.operandTargets y.relative
            f.relative
          ∨ s.sheet.ReachesCycle Expr.operandTargets y) := by
    intro h
    have hError := hReports f (some (readerOf y)) .epoch f _
      (recalculation_readerOf hFormulas hKnown hStays .epoch)
      (reachesCycle_readerOf .epoch h)
    cases hError
  exact not_or.mp hNot

/-
  In every session of a run edits report circular references
  just in case no value that is known hides one.
-/
theorem reportsCircular_iff
    (hRun : Run Untouched (fun _ => True) s) :
    ReportsCircular s ↔ HidesNone s :=
  ⟨hidesNone_of_reportsCircular (knowsFormulas_of_run hRun),
    reportsCircular_of_hidesNone⟩

------------------------------------------------------------
-- A Hidden Reference
------------------------------------------------------------

/- Two formulas that read each other. -/
def loopSheet : Sheet :=
  { Sheet.blank "Loop" 1 3 .epoch with
    cells := CellMap.ofList
      [(.ofPosition 0 0, .ofSource "=B1"),
        (.ofPosition 0 1, .ofSource "=A1")] }

def loop : Session :=
  evaluated ⟨Engine.new false, loopSheet⟩

theorem run_loop :
    Run Untouched (fun _ => True) loop :=
  .evaluated (.start rfl trivial) trivial

/- Both are circular, so nothing is known of them. -/
theorem known_loop :
    loop.engine.known = CellMap.empty := by
  cbv

/- At first, edits of the loop report what is circular. -/
theorem reportsCircular_loop : ReportsCircular loop := by
  apply (reportsCircular_iff run_loop).mpr
  intro y v hKnown
  rw [known_loop] at hKnown
  cases hKnown

/-
  The loop is broken by a literal, and a third formula reads
  the formula that is left of it.
-/
def stale : Session :=
  (loop.edited (.ofPosition 0 0)
      (some (.literal (.boolean true))) .epoch).edited
    (.ofPosition 0 2) (some (.ofSource "=B1")) .epoch

theorem run_stale :
    Run Untouched (fun _ => True) stale :=
  .edited (.edited run_loop _ _ _ trivial) _ _ _ trivial

/- Then a longer loop is closed through all three. -/
theorem recalculation_stale :
    (stale.recalculation (.ofPosition 0 0)
        (some (.ofSource "=C1")) .epoch).results.get?
        (.ofPosition 0 0) =
      some (.value (.boolean true)) := by
  cbv

theorem reachesCycle_stale :
    (stale.edited (.ofPosition 0 0) (some (.ofSource "=C1"))
        .epoch).sheet.ReachesCycle Expr.operandTargets
      (.ofPosition 0 0) := by
  generalize hSheet :
    (stale.edited (.ofPosition 0 0) (some (.ofSource "=C1"))
      .epoch).sheet = sheet
  have hFirst :
      sheet.Refers Expr.operandTargets (.ofPosition 0 0)
        (.ofPosition 0 2) := by
    refine ⟨.cell (.ofPosition 0 2), ?_, List.mem_cons_self⟩
    rw [← hSheet]
    cbv
  have hSecond :
      sheet.Refers Expr.operandTargets (.ofPosition 0 2)
        (.ofPosition 0 1) := by
    refine ⟨.cell (.ofPosition 0 1), ?_, List.mem_cons_self⟩
    rw [← hSheet]
    cbv
  have hThird :
      sheet.Refers Expr.operandTargets (.ofPosition 0 1)
        (.ofPosition 0 0) := by
    refine ⟨.cell (.ofPosition 0 0), ?_, List.mem_cons_self⟩
    rw [← hSheet]
    cbv
  exact Sheet.reachesCycle_of_leads_back hFirst
    (.head hSecond (.single hThird))

/-
  The edge that closed the first loop was left out, so what
  is known of the third formula outlasts the edit that makes
  it circular, and is read by the edited formula.
-/
theorem not_reportsCircular_stale :
    Run Untouched (fun _ => True) stale
      ∧ ¬ ReportsCircular stale := by
  refine ⟨run_stale, fun hReports => ?_⟩
  have hError := hReports _ _ _ _ _ recalculation_stale
    reachesCycle_stale
  cases hError

end Session

end Spreadsheet
