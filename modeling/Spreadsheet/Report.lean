import Spreadsheet.Engine
import Spreadsheet.SheetFile

/-
  This file defines how outcomes are reported: as lines of
  text, and as JSON.

  Key definitions include:
    * `CellEvaluation.lines`, `CellEvaluation.toJson`
    * `Results.lines`, `Results.toJson`
    * `Recalculation.lines`
-/

namespace Spreadsheet

------------------------------------------------------------
-- Lines
------------------------------------------------------------

/- A cell and its outcome, with the message of an error. -/
def Outcome.line
    (a : Address)
    (outcome : Outcome) : String :=
  let line := a.text ++ "\t" ++ outcome.text
  match outcome with
  | .value _ => line
  | .error e => line ++ "\t" ++ e.message

/- What a formula has read, below the line of its cell. -/
def Step.line
    (step : Step) : String :=
  let cell := "  " ++ step.cell.text
  match step.reading with
  | .reference target value =>
      cell ++ " reads " ++ target.text ++ " = "
        ++ value.toText
  | .expansion range => cell ++ " expands " ++ range.text

/- A cell, its outcome, and the steps to it. -/
def CellEvaluation.lines
    (a : Address)
    (evaluation : CellEvaluation) : List String :=
  evaluation.outcome.line a
    :: (evaluation.steps.getD []).map Step.line

/- The evaluations of cells, in address order. -/
def Results.evaluations
    (results : Results) : List (Address × CellEvaluation) :=
  results.outcomes.entries.map fun p =>
    (p.1, ⟨p.2, results.steps.get? p.1⟩)

def Results.lines
    (results : Results) : List String :=
  results.evaluations.flatMap fun p => p.2.lines p.1

/- The outcomes in the order in which they were found. -/
def Recalculation.lines
    (recalculation : Recalculation) : List String :=
  recalculation.order.filterMap fun a =>
    (recalculation.results.get? a).map fun outcome =>
      outcome.line a

------------------------------------------------------------
-- JSON
------------------------------------------------------------

def CellError.toJson
    (e : CellError) : Json :=
  .object
    [("code", e.code.toJson), ("message", .text e.message)]

/- An error stands beside a value that is null. -/
def Outcome.fields : Outcome → List (String × Json)
  | .value v => [("value", v.toJson)]
  | .error e =>
      [("value", .null), ("error", e.toJson)]

def Range.toJson
    (range : Range) : Json :=
  .object
    [("start", .text range.start.text),
      ("end", .text range.stop.text)]

/- What was read, as lists of cells and of ranges. -/
def Reading.fields
    (reading : Reading) : List (String × Json) :=
  [("dependencies",
      .list (reading.dependencies.map (.text ·.text))),
    ("ranges", .list (reading.ranges.map Range.toJson)),
    ("value", reading.value.toJson)]

def Step.toJson
    (step : Step) : Json :=
  let source :=
    step.source.toList.map fun s => ("formula", .text s)
  .object
    (("cell", .text step.cell.text)
      :: source ++ step.reading.fields)

/- An outcome and its steps, if they were asked for. -/
def CellEvaluation.toJson
    (evaluation : CellEvaluation) : Json :=
  let steps :=
    evaluation.steps.toList.map fun steps =>
      ("explain", .list (steps.map Step.toJson))
  .object (evaluation.outcome.fields ++ steps)

def Results.toJson
    (results : Results) : Json :=
  .object
    (results.evaluations.map fun p =>
      (p.1.text, p.2.toJson))

end Spreadsheet
