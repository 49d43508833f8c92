import Spreadsheet.CellMap
import Spreadsheet.Formula.Parser
import Spreadsheet.Timestamp
import Spreadsheet.Value

/-
  This file defines the contents of cells and sheets of
  cells.

  Key definitions include:
    * `Cell`
    * `Cell.expr`
    * `Cell.ensureParsed`
    * `Sheet`
    * `Sheet.parseFormulas`
-/

namespace Spreadsheet

------------------------------------------------------------
-- Cells
------------------------------------------------------------

/-
  What a cell holds. A formula keeps its source and, once it
  has been read, the expression that was read.
-/
inductive Cell where
  | literal (value : Value)
  | formula (source : String) (parsed : Option Expr)
  | error (code : ErrorCode) (message : String)

namespace Cell

/- A formula that has not been read yet. -/
def ofSource
    (source : String) : Cell :=
  formula source none

def isFormula : Cell → Bool
  | formula _ _ => true
  | _ => false

/- The source, if the cell holds a formula. -/
def source? : Cell → Option String
  | formula source _ => some source
  | _ => none

/- The expression, if the cell holds a formula read before. -/
def parsed? : Cell → Option Expr
  | formula _ parsed => parsed
  | _ => none

/-
  The expression of a formula: the one read before, and
  otherwise what the source says.
-/
def expr
    (source : String)
    (parsed : Option Expr) : Except FormulaError Expr :=
  match parsed with
  | some e => .ok e
  | none => parseFormula source

/-
  Read a formula that has not been read before. Other cells
  stay as they are.
-/
def ensureParsed
    (cell : Cell) : Except FormulaError Cell :=
  match cell with
  | formula source parsed =>
      (expr source parsed).map fun e =>
        formula source (some e)
  | cell => .ok cell

/- The cell after an attempt to read its formula. -/
def tryParse
    (cell : Cell) : Cell :=
  match cell.ensureParsed with
  | .ok parsed => parsed
  | .error _ => cell

/- The error that an attempt to read the formula ends in. -/
def parseError?
    (cell : Cell) : Option FormulaError :=
  match cell.ensureParsed with
  | .ok _ => none
  | .error e => some e

end Cell

------------------------------------------------------------
-- Sheets
------------------------------------------------------------

/- A grid of cells. Positions without a cell are empty. -/
structure Sheet where
  cells : CellMap Cell
  rows : UInt32
  cols : UInt32
  name : String
  updatedAt : Timestamp

namespace Sheet

/- A sheet without cells. -/
def blank
    (name : String)
    (rows cols : UInt32)
    (now : Timestamp) : Sheet :=
  ⟨CellMap.empty, rows, cols, name, now⟩

def get?
    (sheet : Sheet)
    (a : Address) : Option Cell :=
  sheet.cells.get? a

/- Store a cell in place of any other. -/
def set
    (sheet : Sheet)
    (a : Address)
    (cell : Cell) : Sheet :=
  { sheet with cells := sheet.cells.insert a cell }

def remove
    (sheet : Sheet)
    (a : Address) : Sheet :=
  { sheet with cells := sheet.cells.erase a }

/- The cells that hold formulas, in address order. -/
def formulaCells
    (sheet : Sheet) : List Address :=
  (sheet.cells.filterValues Cell.isFormula).keys

/- Whether an address lies within the rows and columns. -/
def isInside
    (sheet : Sheet)
    (a : Address) : Bool :=
  a.row < sheet.rows && a.col < sheet.cols

/- Read every formula that has not been read before. -/
def parseFormulas
    (sheet : Sheet) : Sheet :=
  { sheet with cells := sheet.cells.map Cell.tryParse }

/- The formulas that cannot be read, in address order. -/
def parseFailures
    (sheet : Sheet) : List (Address × FormulaError) :=
  sheet.cells.entries.filterMap fun p =>
    p.2.parseError?.map fun e => (p.1, e)

/- Note that the sheet was changed. -/
def touch
    (sheet : Sheet)
    (now : Timestamp) : Sheet :=
  { sheet with updatedAt := now }

end Sheet

end Spreadsheet
