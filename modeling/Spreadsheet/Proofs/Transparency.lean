import Spreadsheet.Proofs.SheetEvaluation

/-
  What makes no difference to evaluation. A whole sheet is
  evaluated by what is written in its cells alone: neither
  what an engine has seen before nor which formulas have
  been read already shows in what is reported. And a cell
  that reaches no cycle evaluates alike with and without
  outcomes of other formulas at hand, as long as those of
  the formulas that it leads to are right. By itself a cell
  evaluates alike in all sheets that hold the same where
  references from it lead to.

  Main declarations:
    * `Sheet.Faithful` and `Sheet.FilledIn`
    * `Engine.evaluateSheet_by_contents`
    * `Sheet.evaluateCellWith_transparent`
    * `Sheet.evaluateCell_local`
-/

namespace Spreadsheet

open Relation

------------------------------------------------------------
-- Faithful Readings
------------------------------------------------------------

namespace Cell

/-
  What has been read of a formula is what its source says.
-/
def IsFaithful : Cell → Prop
  | formula source (some e) => parseFormula source = .ok e
  | _ => True

/-
  Reading a faithful cell comes to the same as reading it
  from its source.
-/
theorem tryParse_withoutParsed
    {cell : Cell}
    (h : cell.IsFaithful) :
    cell.withoutParsed.tryParse = cell.tryParse := by
  cases cell with
  | literal value => rfl
  | error code message => rfl
  | formula source parsed =>
      cases parsed with
      | none => rfl
      | some e =>
          have hParse : parseFormula source = .ok e := h
          simp only [withoutParsed, ofSource, tryParse,
            ensureParsed, expr, hParse, Except.map]

/- A formula that was read is not read again. -/
theorem tryParse_tryParse
    (cell : Cell) :
    cell.tryParse.tryParse = cell.tryParse := by
  cases cell with
  | literal value => rfl
  | error code message => rfl
  | formula source parsed =>
      cases hExpr : expr source parsed with
      | error e =>
          simp only [tryParse, ensureParsed, hExpr,
            Except.map]
      | ok e =>
          simp only [tryParse, ensureParsed, hExpr,
            Except.map]
          rfl

/-
  Reading changes a formula that has not been read before,
  if it can be read, and no other cell.
-/
theorem tryParse_eq
    (cell : Cell) :
    cell.tryParse =
      match cell with
      | formula source none =>
          match parseFormula source with
          | .ok e => formula source (some e)
          | .error _ => formula source none
      | cell => cell := by
  cases cell with
  | literal value => rfl
  | error code message => rfl
  | formula source parsed =>
      cases parsed with
      | some e => rfl
      | none =>
          cases hParse : parseFormula source with
          | error e =>
              simp only [tryParse, ensureParsed, expr,
                hParse, Except.map]
          | ok e =>
              simp only [tryParse, ensureParsed, expr,
                hParse, Except.map]

end Cell

namespace Sheet

variable {sheet sheet' : Sheet}

/- What has been read of every formula is what it says. -/
def Faithful
    (sheet : Sheet) : Prop :=
  ∀ p ∈ sheet.cells.entries, p.2.IsFaithful

/-
  Reading the formulas of a faithful sheet comes to the same
  as reading all of them from their sources.
-/
theorem cells_parseFormulas_withoutParsed
    (h : sheet.Faithful) :
    sheet.withoutParsed.parseFormulas.cells =
      sheet.parseFormulas.cells := by
  simp only [parseFormulas, withoutParsed, CellMap.map_map]
  exact CellMap.map_eq_map_iff.mpr fun p hp =>
    Cell.tryParse_withoutParsed (h p hp)

/- So it does not matter which of them were read before. -/
theorem cells_parseFormulas_congr
    (h : sheet.Faithful)
    (h' : sheet'.Faithful)
    (hWritten :
      sheet'.withoutParsed.cells =
        sheet.withoutParsed.cells) :
    sheet'.parseFormulas.cells =
      sheet.parseFormulas.cells := by
  rw [← cells_parseFormulas_withoutParsed h,
    ← cells_parseFormulas_withoutParsed h']
  unfold parseFormulas
  rw [hWritten]

theorem parseFormulas_parseFormulas
    (sheet : Sheet) :
    sheet.parseFormulas.parseFormulas =
      sheet.parseFormulas := by
  simp only [parseFormulas, CellMap.map_map,
    Cell.tryParse_tryParse]

/-
  The second sheet is the first one with the expressions of
  all formulas filled in that had none and can be read.
-/
structure FilledIn
    (before after : Sheet) : Prop where
  rows : after.rows = before.rows
  cols : after.cols = before.cols
  name : after.name = before.name
  updatedAt : after.updatedAt = before.updatedAt
  filled :
    ∀ a source e,
      before.get? a = some (.formula source none) →
      parseFormula source = .ok e →
      after.get? a = some (.formula source (some e))
  others :
    ∀ a, after.get? a ≠ before.get? a →
      ∃ source e,
        before.get? a = some (.formula source none)
          ∧ parseFormula source = .ok e

theorem filledIn_parseFormulas
    (sheet : Sheet) :
    sheet.FilledIn sheet.parseFormulas where
  rows := rfl
  cols := rfl
  name := rfl
  updatedAt := rfl
  filled := by
    intro a source e hCell hParse
    unfold get? at hCell ⊢
    unfold parseFormulas
    rw [CellMap.get?_map, hCell, Option.map_some,
      Cell.tryParse_eq]
    simp only [hParse]
  others := by
    intro a hChanged
    unfold get? parseFormulas at hChanged
    rw [CellMap.get?_map] at hChanged
    unfold get?
    cases hCell : sheet.cells.get? a with
    | none => simp [hCell] at hChanged
    | some cell =>
        rw [hCell, Option.map_some, Cell.tryParse_eq]
          at hChanged
        split at hChanged
        · next source =>
            cases hParse : parseFormula source with
            | error e => simp [hParse] at hChanged
            | ok e => exact ⟨source, e, rfl, hParse⟩
        · exact absurd rfl hChanged

end Sheet

------------------------------------------------------------
-- Evaluation By Contents
------------------------------------------------------------

namespace Engine

variable {engine engine' : Engine}
variable {sheet sheet' : Sheet}

/- A pass does not look past the cells of a sheet. -/
theorem evaluateCells_of_cells
    (hCells : sheet'.cells = sheet.cells)
    (start : Engine)
    (cells : List Address) :
    start.evaluateCells sheet' cells =
      start.evaluateCells sheet cells := by
  have hContent :
      ∀ a, sheet'.content? a = sheet.content? a := by
    intro a
    unfold Sheet.content? Sheet.get?
    rw [hCells]
  have hNext : evaluateNext sheet' = evaluateNext sheet := by
    funext state a
    unfold evaluateNext evaluateCell
    simp only [Sheet.evaluateCellWith_of_content hContent]
  unfold evaluateCells
  rw [hNext]

/-
  Neither an engine's past nor anything of a sheet but the
  cells that are there once formulas have been read shows in
  the reports, nor in the engine afterwards.
-/
theorem evaluateSheet_congr
    (hExplain : engine'.explain = engine.explain)
    (hCells :
      sheet'.parseFormulas.cells =
        sheet.parseFormulas.cells) :
    (engine'.evaluateSheet sheet').1 =
        (engine.evaluateSheet sheet).1
      ∧ (engine'.evaluateSheet sheet').2.1 =
        (engine.evaluateSheet sheet).2.1 := by
  have hGraph :
      graphOf sheet'.parseFormulas =
        graphOf sheet.parseFormulas := by
    unfold graphOf parsedFormulas
    rw [hCells]
  have hOrder :
      sheetPassOf sheet' = sheetPassOf sheet := by
    unfold sheetPassOf
    rw [hGraph]
    unfold sheetOrder parsedFormulas Sheet.parseFailures
    rw [hCells]
  have hFresh : engine'.fresh sheet' = engine.fresh sheet := by
    unfold fresh
    rw [hGraph, hExplain]
  rw [evaluateSheet_eq, evaluateSheet_eq]
  dsimp only
  rw [hOrder, hFresh, evaluateCells_of_cells hCells]
  exact ⟨rfl, rfl⟩

theorem sheet_evaluateSheet
    (engine : Engine)
    (sheet : Sheet) :
    (engine.evaluateSheet sheet).2.2 =
      sheet.parseFormulas := by
  rw [evaluateSheet_eq]

theorem explain_evaluateSheet
    (engine : Engine)
    (sheet : Sheet) :
    (engine.evaluateSheet sheet).2.1.explain =
      engine.explain := by
  have hPass := @evaluateSheet_pass (fun _ => True) sheet
    engine trivial fun _ _ _ _ _ => trivial
  exact hPass.explain

/-
  Evaluating a faithful sheet, with or without cycles. All
  engines with the same options report the same outcomes and
  steps, and know the same afterwards, for all faithful
  sheets in whose cells the same is written. Doing so once
  more changes nothing. The sheet comes back with missing
  expressions filled in, and this shows in no cell that is
  evaluated by itself.
-/
theorem evaluateSheet_by_contents
    (hFaithful : sheet.Faithful) :
    (∀ (engine engine' : Engine) (sheet' : Sheet),
      engine'.explain = engine.explain →
      sheet'.Faithful →
      sheet'.withoutParsed.cells =
        sheet.withoutParsed.cells →
      (engine'.evaluateSheet sheet').1 =
          (engine.evaluateSheet sheet).1
        ∧ (engine'.evaluateSheet sheet').2.1 =
          (engine.evaluateSheet sheet).2.1)
    ∧ ∀ engine : Engine,
        let after := (engine.evaluateSheet sheet).2
        after.1.evaluateSheet after.2 =
            engine.evaluateSheet sheet
          ∧ sheet.FilledIn after.2
          ∧ ∀ explain a,
            after.2.evaluateCell explain a =
              sheet.evaluateCell explain a := by
  constructor
  · intro engine engine' sheet' hExplain hFaithful' hWritten
    apply evaluateSheet_congr hExplain
    exact Sheet.cells_parseFormulas_congr hFaithful
      hFaithful' hWritten
  · intro engine
    dsimp only
    rw [sheet_evaluateSheet]
    refine ⟨?_, sheet.filledIn_parseFormulas, ?_⟩
    · have hAgain := sheet.parseFormulas_parseFormulas
      have hSame := evaluateSheet_congr
        (explain_evaluateSheet engine sheet)
        (congrArg Sheet.cells hAgain)
      refine Prod.ext hSame.1 (Prod.ext hSame.2 ?_)
      rw [sheet_evaluateSheet, sheet_evaluateSheet, hAgain]
    · intro explain a
      exact Sheet.evaluateCellWith_parseFormulas sheet _ _ a

/-
  Two formulas that read each other, of which one has been
  read before.
-/
def halfReadSheet : Sheet :=
  { Sheet.blank "Half" 2 1 .epoch with
    cells := CellMap.ofList
      [(.ofPosition 0 0,
          .formula "=A2" (some (.cell (.ofPosition 1 0)))),
        (.ofPosition 1 0, .formula "=A1" none)] }

theorem faithful_halfReadSheet : halfReadSheet.Faithful := by
  have hEntries :
      halfReadSheet.cells.entries =
        [(.ofPosition 0 0,
            .formula "=A2" (some (.cell (.ofPosition 1 0)))),
          (.ofPosition 1 0, .formula "=A1" none)] := by
    cbv
  intro p hp
  rw [hEntries] at hp
  rcases List.mem_pair.mp hp with rfl | rfl
  · change parseFormula "=A2" = .ok _
    cbv
  · trivial

/-
  An engine that has been used for another sheet reports the
  same for it, also with none of its formulas read.
-/
theorem evaluateSheet_halfReadSheet :
    ((((Engine.new true).evaluateSheet mixedSheet).2.1
        ).evaluateSheet halfReadSheet.withoutParsed).1 =
      ((Engine.new true).evaluateSheet halfReadSheet).1 :=
  ((evaluateSheet_by_contents faithful_halfReadSheet).1
    (Engine.new true) _ halfReadSheet.withoutParsed
    (explain_evaluateSheet _ _)
    (by
      intro p hp
      rcases List.mem_map.mp hp with ⟨⟨a, cell⟩, -, rfl⟩
      cases cell <;> trivial)
    (CellMap.eq_of_entries (by cbv))).1

end Engine

------------------------------------------------------------
-- Evaluation Of A Cell With Outcomes At Hand
------------------------------------------------------------

namespace Sheet

variable {sheet : Sheet}
variable {known : CellMap Outcome}
variable {a : Address}

/-
  A cell that reaches no cycle evaluates with the outcomes
  at hand just as it does without any, if those of the other
  formulas that it leads to are right. What is at hand of
  the cell itself, of cells without a formula and of cells
  that it does not lead to makes no difference.
-/
theorem evaluateCellWith_transparent
    (hCycle : ¬ sheet.ReachesCycle Expr.targets a)
    (hKnown :
      ∀ x outcome,
        sheet.Leads Expr.targets a x →
        x.relative ≠ a.relative →
        Engine.holdsFormula sheet x = true →
        known.get? x = some outcome →
        outcome = (sheet.evaluateCell false x).outcome)
    (explain : Bool) :
    sheet.evaluateCellWith known explain a =
      sheet.evaluateCell explain a := by
  apply evaluateCellWith_eq_plain hCycle
  intro x source reading outcome hBelow hContent hGet
  rcases TransGen.head'_iff.mp hBelow with
    ⟨y, hRefers, hLeads⟩
  have hOther : x.relative ≠ a.relative := by
    rcases TransGen.tail'_iff.mp hBelow with
      ⟨z, -, e, -, hMem⟩
    rw [Expr.relative_of_mem_targets e hMem]
    rintro rfl
    exact not_leads_back hCycle hRefers hLeads
  exact hKnown x outcome hBelow.to_reflTransGen hOther
    (holdsFormula_of_content? hContent) hGet

/-
  A formula that reads a formula that reads a truth value,
  and one that reads itself.
-/
def relaySheet : Sheet :=
  { blank "Relay" 4 1 .epoch with
    cells := CellMap.ofList
      [(.ofPosition 0 0,
          .formula "=A2" (some (.cell (.ofPosition 1 0)))),
        (.ofPosition 1 0,
          .formula "=A3" (some (.cell (.ofPosition 2 0)))),
        (.ofPosition 2 0, .literal (.boolean true)),
        (.ofPosition 3 0,
          .formula "=A4"
            (some (.cell (.ofPosition 3 0))))] }

/- The first formula leads to the cells of the first chain. -/
theorem leads_relaySheet
    {x : Address}
    (h : relaySheet.Leads Expr.targets (.ofPosition 0 0) x) :
    x = .ofPosition 0 0 ∨ x = .ofPosition 1 0
      ∨ x = .ofPosition 2 0 := by
  induction h with
  | refl => exact Or.inl rfl
  | tail _ hRefers ih =>
      rcases hRefers with ⟨e, hExpr, hMem⟩
      rcases ih with rfl | rfl | rfl
      · cases (hExpr : some _ = some e)
        exact Or.inr (Or.inl (List.mem_singleton.mp hMem))
      · cases (hExpr : some _ = some e)
        exact Or.inr (Or.inr (List.mem_singleton.mp hMem))
      · cases (hExpr : none = some e)

theorem not_reachesCycle_relaySheet :
    ¬ relaySheet.ReachesCycle Expr.targets
      (.ofPosition 0 0) :=
  not_reachesCycle_of_targets rfl
    (List.forall_mem_singleton.mpr
      (not_reachesCycle_of_targets rfl
        (List.forall_mem_singleton.mpr
          (not_reachesCycle_of_expr? rfl))))

/-
  What is at hand is right for the second formula only.
-/
def relayKnown : CellMap Outcome :=
  CellMap.ofList
    [(.ofPosition 0 0, .value (.boolean false)),
      (.ofPosition 1 0, .value (.boolean true)),
      (.ofPosition 2 0, .value (.boolean false)),
      (.ofPosition 3 0, .value (.boolean false))]

theorem evaluateCellWith_relaySheet :
    relaySheet.evaluateCellWith relayKnown true
        (.ofPosition 0 0) =
      relaySheet.evaluateCell true (.ofPosition 0 0) := by
  refine evaluateCellWith_transparent
    not_reachesCycle_relaySheet ?_ true
  intro x outcome hLeads hOther hFormula hGet
  rcases leads_relaySheet hLeads with rfl | rfl | rfl
  · exact absurd rfl hOther
  · have hValue :
        (relaySheet.evaluateCell false
            (.ofPosition 1 0)).outcome =
          .value (.boolean true) := by
      cbv
    rw [hValue]
    exact (Option.some.inj hGet).symm
  · cases (hFormula : false = true)

------------------------------------------------------------
-- Evaluation Of A Cell In Sheets That Agree Around It
------------------------------------------------------------

variable {sheet' : Sheet}

/-
  A cell evaluates to the same outcome, by the same steps,
  in two sheets that hold the same cell, or none, at it and
  wherever references in the first sheet lead to from it,
  whether or not they run in circles.
-/
theorem evaluateCell_local
    (hSame :
      ∀ x, sheet.Leads Expr.targets a x →
        sheet.get? x = sheet'.get? x)
    (explain : Bool) :
    sheet.evaluateCell explain a =
      sheet'.evaluateCell explain a := by
  apply evaluateCellWith_local (sheet.Leads Expr.targets a)
  · intro x y hx hRefers
    exact hx.tail hRefers
  · intro x hx
    unfold content?
    rw [hSame x hx]
  · exact .refl

/-
  A sheet that holds the same as the last one in the first
  three cells, and otherwise differs from it.
-/
def otherRelaySheet : Sheet :=
  { blank "Other" 90 30 .epoch with
    cells := CellMap.ofList
      [(.ofPosition 0 0,
          .formula "=A2" (some (.cell (.ofPosition 1 0)))),
        (.ofPosition 1 0,
          .formula "=A3" (some (.cell (.ofPosition 2 0)))),
        (.ofPosition 2 0, .literal (.boolean true)),
        (.ofPosition 7 2, .error .cycle "broken")] }

theorem evaluateCell_otherRelaySheet :
    relaySheet.evaluateCell true (.ofPosition 0 0) =
      otherRelaySheet.evaluateCell true
        (.ofPosition 0 0) := by
  refine evaluateCell_local ?_ true
  intro x hLeads
  rcases leads_relaySheet hLeads with rfl | rfl | rfl
  · cbv
  · cbv
  · cbv

end Sheet

end Spreadsheet
