import Spreadsheet.Proofs.EngineGraph
import Spreadsheet.Proofs.Respelling

/-
  How references are written does not matter to the engine.
  The formulas of a sheet stand in the same places, draw the
  same edges and are evaluated in the same order, cell by
  cell alike. The edges of a formula are tried in another
  order, but the guard against cycles refuses the same ones.

  Main declarations:
    * `Engine.graphOf_respelled`
    * `Engine.evaluateCells_respelled`
    * `Engine.respelled_alike`
-/

namespace Spreadsheet

------------------------------------------------------------
-- Formulas By Position
------------------------------------------------------------

namespace CellMap

variable {α β : Type}

/- What is made of the entries, made place by place. -/
theorem filterMap_entries
    (m : CellMap α)
    (f : Address → α → Option β) :
    m.entries.filterMap (fun p => f p.1 p.2) =
      m.keys.filterMap fun a => (m.get? a).bind (f a) := by
  unfold keys
  rw [List.filterMap_map]
  apply List.filterMap_congr
  intro p hp
  rw [Function.comp_apply, (get?_of_mem_entries hp).2,
    Option.bind_some]

end CellMap

namespace Sheet

variable {corners : Corners}
variable {sheet sheet' : Sheet}

/- The cells themselves hold respelled contents. -/
theorem Respelled.get?_rel
    (h : sheet.Respelled corners sheet')
    (a : Address) :
    Option.Rel
      (fun cell cell' =>
        Content.Respelled corners cell.content cell'.content)
      (sheet.cells.get? a) (sheet'.cells.get? a) := by
  have hRel := h a
  unfold content? get? at hRel
  generalize sheet.cells.get? a = found at hRel ⊢
  generalize sheet'.cells.get? a = found' at hRel ⊢
  match found, found', hRel with
  | none, none, _ => exact .none
  | some cell, some cell', .some hContent =>
      exact .some hContent

theorem Respelled.keys_eq
    (h : sheet.Respelled corners sheet') :
    sheet'.cells.keys = sheet.cells.keys := by
  apply CellMap.keys_congr
  intro a
  have hRel := h.get?_rel a
  generalize sheet.cells.get? a = found at hRel
  generalize sheet'.cells.get? a = found' at hRel
  cases hRel with
  | none => rfl
  | some hContent => rfl

/- The formulas of a sheet that was read, place by place. -/
theorem parsedFormulas_eq
    (hRead : sheet.AllRead) :
    Engine.parsedFormulas sheet =
      sheet.cells.keys.filterMap fun a =>
        (sheet.expr? a).map fun e => (a, e) := by
  unfold Engine.parsedFormulas
  rw [CellMap.filterMap_entries sheet.cells
    fun a cell => cell.parsed?.map fun e => (a, e)]
  apply List.filterMap_congr
  intro a _
  rw [← hRead a, Option.map_bind]
  rfl

/- Why a formula cannot be read, if so, is in its content. -/
theorem parseError?_eq
    (cell : Cell) :
    cell.parseError? =
      match cell.content with
      | .formula _ (.error e) => some e
      | _ => none := by
  cases hError : cell.parseError? with
  | some e =>
      rcases parseError?_eq_some_iff.mp hError with
        ⟨source, hContent⟩
      rw [hContent]
  | none =>
      split
      · next source e hContent =>
          rw [parseError?_eq_some_iff.mpr ⟨source, hContent⟩]
            at hError
          cases hError
      · rfl

/- The same formulas cannot be read, for the same reasons. -/
theorem Respelled.parseFailures_eq
    (h : sheet.Respelled corners sheet') :
    sheet'.parseFailures = sheet.parseFailures := by
  unfold parseFailures
  rw [CellMap.filterMap_entries sheet.cells
      fun a cell => cell.parseError?.map fun e => (a, e),
    CellMap.filterMap_entries sheet'.cells
      fun a cell => cell.parseError?.map fun e => (a, e),
    h.keys_eq]
  apply List.filterMap_congr
  intro a _
  have hRel := h.get?_rel a
  generalize sheet.cells.get? a = found at hRel
  generalize sheet'.cells.get? a = found' at hRel
  cases hRel with
  | none => rfl
  | some hContent =>
      rename_i cell cell'
      rw [Option.bind_some, Option.bind_some, parseError?_eq,
        parseError?_eq]
      generalize cell.content = content at hContent
      generalize cell'.content = content' at hContent
      cases hContent with
      | literal value => rfl
      | error code message => rfl
      | unreadable source source' error => rfl
      | formula source source' hExpr => rfl

end Sheet

------------------------------------------------------------
-- Evaluating Respelled Sheets
------------------------------------------------------------

namespace Engine

open DependencyGraph

variable {corners : Corners}
variable {sheet sheet' : Sheet}

/- The same edges are drawn, formula by formula. -/
theorem graphOf_respelled
    (h : sheet.Respelled Range.SameCorners sheet')
    (hRead : sheet.AllRead)
    (hRead' : sheet'.AllRead) :
    graphOf sheet' = graphOf sheet := by
  unfold graphOf
  rw [Sheet.parsedFormulas_eq hRead,
    Sheet.parsedFormulas_eq hRead', h.keys_eq]
  generalize sheet.cells.keys = places
  have hStart := WellFormed.empty
  generalize DependencyGraph.empty = g at hStart
  induction places generalizing g with
  | nil => rfl
  | cons a rest ih =>
      have hRel := h.expr?_rel a
      rw [List.filterMap_cons, List.filterMap_cons]
      generalize sheet.expr? a = found at hRel
      generalize sheet'.expr? a = found' at hRel
      cases hRel with
      | none => exact ih g hStart
      | some hExpr =>
          rename_i e e'
          have hLink := linkFormula_congr (a := a) hStart
            hExpr.mem_precedents_iff
          dsimp only [Option.map_some]
          -- The graph so far is the same for both sheets, so
          -- the guard refuses the same edges.
          rw [List.foldl_cons, List.foldl_cons, hLink]
          exact ih _ (hStart.linkFormula a e)

/- So formulas are evaluated in the same order. -/
theorem sheetOrder_respelled
    (h : sheet.Respelled Range.SameCorners sheet')
    (hRead : sheet.AllRead)
    (hRead' : sheet'.AllRead)
    (graph : DependencyGraph) :
    sheetOrder graph sheet' = sheetOrder graph sheet := by
  have hPlaces :
      (parsedFormulas sheet').map (·.1) =
        (parsedFormulas sheet).map (·.1) := by
    rw [Sheet.parsedFormulas_eq hRead,
      Sheet.parsedFormulas_eq hRead', h.keys_eq,
      List.map_filterMap, List.map_filterMap]
    apply List.filterMap_congr
    intro a _
    have hRel := h.expr?_rel a
    generalize sheet.expr? a = found at hRel
    generalize sheet'.expr? a = found' at hRel
    cases hRel with
    | none => rfl
    | some hExpr => rfl
  unfold sheetOrder
  rw [hPlaces, h.parseFailures_eq]

/-
  Two engines that know the same report the same outcomes,
  cell by cell, and know the same afterwards.
-/
theorem evaluateCells_respelled
    (hKeeps : Expr.KeepsCells corners)
    (h : sheet.Respelled corners sheet')
    {start start' : Engine}
    (hKnown : start'.known = start.known)
    (cells : List Address) :
    (start'.evaluateCells sheet' cells).1.known =
        (start.evaluateCells sheet cells).1.known
      ∧ (start'.evaluateCells sheet' cells).2.outcomes =
        (start.evaluateCells sheet cells).2.outcomes := by
  unfold evaluateCells
  induction cells using List.reverseRecOn with
  | nil => exact ⟨hKnown, rfl⟩
  | append_singleton cells a ih =>
      rw [List.foldl_append, List.foldl_cons, List.foldl_nil,
        List.foldl_append, List.foldl_cons, List.foldl_nil]
      generalize cells.foldl (evaluateNext sheet)
        (start, Results.empty) = state at ih
      generalize cells.foldl (evaluateNext sheet')
        (start', Results.empty) = state' at ih
      have hOutcome :
          (state'.1.evaluateCell sheet' a).outcome =
            (state.1.evaluateCell sheet a).outcome := by
        unfold evaluateCell Sheet.evaluateCellWith
        rw [ih.1]
        exact h.outcome_evaluateCellIn hKeeps _ _ _ _ a
      constructor
      · simp only [evaluateNext, hOutcome, ih.1]
      · simp only [evaluateNext, Results.insert, hOutcome,
          ih.2]

/-
  The way that references are written does not matter, with
  or without cycles. If markers are changed and corners of
  ranges swapped, then engines report the same outcome for
  every formula of the sheet and keep the same graph. If the
  other two corners are written for a range, then still each
  cell that is evaluated by itself has the same outcome.
-/
theorem respelled_alike
    (sheet sheet' : Sheet) :
    (sheet.Respelled Range.SameCorners sheet' →
      ∀ engine engine' : Engine,
        (engine'.evaluateSheet sheet').1.outcomes =
            (engine.evaluateSheet sheet).1.outcomes
          ∧ (engine'.evaluateSheet sheet').2.1.graph =
            (engine.evaluateSheet sheet).2.1.graph)
    ∧ (sheet.Respelled Range.SameRectangle sheet' →
      ∀ explain a,
        (sheet'.evaluateCell explain a).outcome =
          (sheet.evaluateCell explain a).outcome) := by
  constructor
  · intro h engine engine'
    have hParsed := h.parseFormulas
    have hRead := sheet.allRead_parseFormulas
    have hRead' := sheet'.allRead_parseFormulas
    have hGraph := graphOf_respelled hParsed hRead hRead'
    have hOrder :=
      sheetOrder_respelled hParsed hRead hRead'
    have hKeeps : Expr.KeepsCells Range.SameCorners :=
      fun _ _ hCorners => hCorners.cellsBetween_eq
    have hStart :
        (engine'.fresh sheet').known =
          (engine.fresh sheet).known := by
      unfold fresh
      rfl
    have hCells :=
      evaluateCells_respelled hKeeps hParsed hStart
    constructor
    · rw [evaluateSheet_eq, evaluateSheet_eq]
      dsimp only
      unfold sheetPassOf
      rw [hGraph, hOrder]
      exact (hCells _).2
    · rw [graph_evaluateSheet, graph_evaluateSheet, hGraph]
  · intro h explain a
    have hKeeps : Expr.KeepsCells Range.SameRectangle :=
      fun _ _ hCorners => hCorners.cellsBetween_eq
    exact h.outcome_evaluateCellIn hKeeps _ _ _ _ a

/-
  A sheet with a formula that reads a range, and one that
  reads this formula, which is in the range. The first one
  is written as given.
-/
def spelledSheet
    (first second : Address) : Sheet :=
  { Sheet.blank "Spelled" 2 2 .epoch with
    cells := CellMap.ofList
      [(.ofPosition 0 0,
          .formula "=A2:B1" (some (.range first second))),
        (.ofPosition 0 1,
          .formula "=A1" (some (.cell (.ofPosition 0 0))))] }

/- Its contents follow the way the range is written. -/
theorem respelled_spelledSheet
    {corners : Corners}
    {first second first' second' : Address}
    (h : corners (first, second) (first', second')) :
    (spelledSheet first second).Respelled corners
      (spelledSheet first' second') := by
  intro a
  unfold Sheet.content? Sheet.get? spelledSheet
  simp only [CellMap.ofList, List.foldl_cons, List.foldl_nil,
    CellMap.get?_insert]
  split
  · exact .some (.formula _ _ (.cell rfl))
  · split
    · exact .some (.formula _ _ (.range h))
    · exact .none

/- The range is written by two of its corners. -/
def spelled : Sheet :=
  spelledSheet (.ofPosition 1 0) (.ofPosition 0 1)

/- The range is written the other way round with markers. -/
def swapped : Sheet :=
  spelledSheet ⟨0, 1, true, true⟩ (.ofPosition 1 0)

/- The range is written by its other two corners. -/
def crossed : Sheet :=
  spelledSheet (.ofPosition 0 0) (.ofPosition 1 1)

theorem spelled_alike :
    ((Engine.new true).evaluateSheet swapped).1.outcomes =
        ((Engine.new false).evaluateSheet spelled).1.outcomes
      ∧ (crossed.evaluateCell true
          (.ofPosition 0 0)).outcome =
        (spelled.evaluateCell true
          (.ofPosition 0 0)).outcome := by
  have hSwapped :
      spelled.Respelled Range.SameCorners swapped :=
    respelled_spelledSheet (Or.inr ⟨rfl, rfl⟩)
  have hCrossed :
      spelled.Respelled Range.SameRectangle crossed :=
    respelled_spelledSheet (Or.inr (Or.inr ⟨rfl, rfl⟩))
  exact
    ⟨((respelled_alike spelled swapped).1 hSwapped
        (Engine.new false) (Engine.new true)).1,
      (respelled_alike spelled crossed).2 hCrossed true
        (.ofPosition 0 0)⟩

end Engine

end Spreadsheet
