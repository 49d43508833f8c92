import Spreadsheet.Evaluation.Reference

/-
  This file defines what surrounds the evaluation of an
  expression: the sheet, the cell whose formula it is, the
  cells under evaluation, the outcomes that are known, and
  the steps taken so far if they are recorded.

  Key definitions include:
    * `Step`
    * `Context`
    * `Context.evaluate`
    * `Context.readReference`
-/

namespace Spreadsheet

------------------------------------------------------------
-- Steps
------------------------------------------------------------

/-
  One thing read by a formula: the cell whose formula it is,
  its source, and what was read.
-/
structure Step where
  cell : Address
  source : Option String
  reading : Reading
deriving DecidableEq

------------------------------------------------------------
-- Contexts
------------------------------------------------------------

structure Context where
  sheet : Sheet
  current : Address
  visited : List Address
  known : CellMap Outcome
  trace : Option (List Step)

namespace Context

/-
  The context of the formula of a cell, before anything is
  recorded. The cell itself belongs to `visited` if the
  expression is its own formula.
-/
def ofCell
    (sheet : Sheet)
    (current : Address)
    (visited : List Address)
    (known : CellMap Outcome) : Context :=
  ⟨sheet, current.relative, visited, known, none⟩

/- Start recording steps. Recorded steps are kept. -/
def enableTrace
    (context : Context) : Context :=
  { context with trace := some (context.trace.getD []) }

/- Stop recording steps. -/
def disableTrace
    (context : Context) : Context :=
  { context with trace := none }

/- How references are read in a context. -/
def reader
    (context : Context) : Reader :=
  context.sheet.readReference context.known context.visited

/- The steps in which the current formula reads a log. -/
def stepsOf
    (context : Context)
    (log : List Reading) : List Step :=
  let cell := context.sheet.get? context.current
  let source := cell.bind Cell.source?
  log.map fun reading => ⟨context.current, source, reading⟩

/- Record what was read, if steps are recorded. -/
def record
    (context : Context)
    (log : List Reading) : Context :=
  { context with
    trace := context.trace.map (· ++ context.stepsOf log) }

/- Evaluate an expression and record what it reads. -/
def evaluate
    (context : Context)
    (e : Expr) : Except FormulaError Value × Context :=
  let reads := e.evaluate context.reader
  (reads.outcome, context.record reads.log)

/- Read one cell and record it. -/
def readReference
    (context : Context)
    (target : Address) :
    Except FormulaError Value × Context :=
  let reads := context.reader.cell target
  (reads.outcome, context.record reads.log)

end Context

end Spreadsheet
