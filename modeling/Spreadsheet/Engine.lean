import Spreadsheet.DependencyGraph
import Spreadsheet.Evaluation.Cell

/-
  This file defines recalculation: evaluating all formulas
  of a sheet, and after an edit only those that the edit can
  affect. An engine keeps the graph of the sheet's formulas
  and the latest outcome of each, which later evaluations
  read.

  Key definitions include:
    * `Results`
    * `Engine`
    * `Engine.linkFormula`
    * `Engine.evaluateCells`
    * `Engine.evaluateSheet`
    * `Engine.update`
-/

namespace Spreadsheet

------------------------------------------------------------
-- Results
------------------------------------------------------------

/-
  The outcomes of the formulas that were evaluated, and the
  steps of those with a value if steps were asked for.
-/
structure Results where
  outcomes : CellMap Outcome
  steps : CellMap (List Step)
deriving DecidableEq

namespace Results

def empty : Results :=
  ⟨CellMap.empty, CellMap.empty⟩

/- The outcome of a cell, if it was evaluated. -/
def get?
    (results : Results)
    (a : Address) : Option Outcome :=
  results.outcomes.get? a

def insert
    (results : Results)
    (a : Address)
    (evaluation : CellEvaluation) : Results where
  outcomes := results.outcomes.insert a evaluation.outcome
  steps :=
    match evaluation.steps with
    | some steps => results.steps.insert a steps
    | none => results.steps

/- The number of outcomes that are errors. -/
def errorCount
    (results : Results) : Nat :=
  results.outcomes.entries.countP fun p => p.2.isError

end Results

/-
  What an edit led to: the edited cell and the cells that
  the edges of the graph lead to from it, in evaluation
  order, and the outcomes of the formulas among them. What
  is read without an edge, between the corners of a range or
  where an edge was left out, does not count.
-/
structure Recalculation where
  order : List Address
  results : Results
deriving DecidableEq

------------------------------------------------------------
-- Engines
------------------------------------------------------------

/-
  The state that recalculation keeps of one sheet: whether
  steps are recorded, the graph, and the latest outcomes.
-/
structure Engine where
  explain : Bool
  graph : DependencyGraph
  known : CellMap Outcome
deriving DecidableEq

namespace Engine

/- An engine that has seen no sheet. -/
def new
    (explain : Bool) : Engine :=
  ⟨explain, DependencyGraph.empty, CellMap.empty⟩

/- Evaluate one cell with the latest outcomes of others. -/
def evaluateCell
    (engine : Engine)
    (sheet : Sheet)
    (a : Address) : CellEvaluation :=
  sheet.evaluateCellWith engine.known engine.explain a

/-
  Add an edge from a formula to each of its precedents,
  except where that would close a cycle. An edit of a
  precedent that was left out does not lead to the formula,
  and while the outcome of that precedent is kept, a
  reference to it is answered with that outcome.
-/
def linkFormula
    (g : DependencyGraph)
    (a : Address)
    (e : Expr) : DependencyGraph :=
  e.precedents.foldl
    (fun g target =>
      if g.closesCycle a target then g else g.add a target)
    g

/-
  Evaluate a cell and keep its outcome. A circular reference
  is not kept, because whether a reference is circular
  depends on where it is read from.
-/
def evaluateNext
    (sheet : Sheet)
    (state : Engine × Results)
    (a : Address) : Engine × Results :=
  let (engine, results) := state
  let evaluation := engine.evaluateCell sheet a
  let known :=
    if evaluation.outcome.hasCode .cycle then engine.known
    else engine.known.insert a evaluation.outcome
  ({ engine with known := known },
    results.insert a evaluation)

/-
  Evaluate cells one after another, each with the outcomes
  of those before it.
-/
def evaluateCells
    (engine : Engine)
    (sheet : Sheet)
    (cells : List Address) : Engine × Results :=
  cells.foldl (evaluateNext sheet) (engine, Results.empty)

------------------------------------------------------------
-- Whole Sheets
------------------------------------------------------------

/- The formulas of a sheet that have been read. -/
def parsedFormulas
    (sheet : Sheet) : List (Address × Expr) :=
  sheet.cells.entries.filterMap fun p =>
    p.2.parsed?.map fun e => (p.1, e)

/- The graph of the formulas of a sheet. -/
def graphOf
    (sheet : Sheet) : DependencyGraph :=
  (parsedFormulas sheet).foldl
    (fun g p => linkFormula g p.1 p.2)
    DependencyGraph.empty

/-
  The formulas of a sheet in the order in which they are
  evaluated. Those that cannot be read come last.
-/
def sheetOrder
    (graph : DependencyGraph)
    (sheet : Sheet) : List Address :=
  graph.evaluationOrder ((parsedFormulas sheet).map (·.1))
    ++ sheet.parseFailures.map (·.1)

/-
  Read every formula, build the graph anew and evaluate
  every formula. The sheet comes back with its formulas
  read.
-/
def evaluateSheet
    (engine : Engine)
    (sheet : Sheet) : Results × Engine × Sheet :=
  let sheet := sheet.parseFormulas
  let graph := graphOf sheet
  let fresh : Engine :=
    ⟨engine.explain, graph, CellMap.empty⟩
  let (engine, results) :=
    fresh.evaluateCells sheet (sheetOrder graph sheet)
  (results, engine, sheet)

------------------------------------------------------------
-- Edits
------------------------------------------------------------

/- Store a cell with its formula read, or clear it. -/
def storeCell
    (sheet : Sheet)
    (a : Address)
    (cell : Option Cell) : Sheet :=
  match cell with
  | some cell => sheet.set a cell.tryParse
  | none => sheet.remove a

/- The graph after the formula of one cell has changed. -/
def relink
    (g : DependencyGraph)
    (sheet : Sheet)
    (a : Address) : DependencyGraph :=
  let g := g.removeReads a
  match (sheet.get? a).bind Cell.parsed? with
  | some e => linkFormula g a.relative e
  | none => g

/- Whether a cell of a sheet holds a formula. -/
def holdsFormula
    (sheet : Sheet)
    (a : Address) : Bool :=
  (sheet.get? a).any Cell.isFormula

/-
  Replace one cell, or clear it, and evaluate the formulas
  that depend on it. What was known of them is dropped
  first.
-/
def update
    (engine : Engine)
    (sheet : Sheet)
    (a : Address)
    (cell : Option Cell)
    (now : Timestamp) : Recalculation × Engine × Sheet :=
  let sheet := storeCell sheet a cell
  let graph := relink engine.graph sheet a
  let affected := graph.dependents a
  let known := affected.foldl CellMap.erase engine.known
  let order := graph.evaluationOrder affected
  let start : Engine := ⟨engine.explain, graph, known⟩
  let (engine, results) :=
    start.evaluateCells sheet
      (order.filter (holdsFormula sheet))
  (⟨order, results⟩, engine, sheet.touch now)

end Engine

end Spreadsheet
