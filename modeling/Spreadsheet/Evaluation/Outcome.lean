import Spreadsheet.Formula.Error
import Spreadsheet.Value

/-
  This file defines what the evaluation of a cell ends in: a
  value, or an error with the code and message it is
  reported by.

  Key definitions include:
    * `CellError`
    * `Outcome`
    * `Outcome.ofResult`
    * `Outcome.toResult`
-/

namespace Spreadsheet

------------------------------------------------------------
-- Cell Errors
------------------------------------------------------------

/- An error as it is reported for a cell. -/
structure CellError where
  code : ErrorCode
  message : String
deriving DecidableEq

namespace CellError

/-
  A formula error as it is reported. Only errors of the
  formula's text keep their own message, so that the others
  read alike however far they have travelled.
-/
def ofFormulaError
    (e : FormulaError) : CellError where
  code := e.code
  message :=
    match e.code with
    | .parse => e.message
    | .reference => "Bad reference"
    | .cycle => "Circular reference"
    | .divisionByZero => "Division by zero"

/- The error as a formula that reads the cell meets it. -/
def toFormulaError
    (e : CellError) : FormulaError :=
  .propagated e.code e.message

def text
    (e : CellError) : String :=
  e.code.name ++ ": " ++ e.message

end CellError

------------------------------------------------------------
-- Outcomes
------------------------------------------------------------

inductive Outcome where
  | value (v : Value)
  | error (e : CellError)
deriving DecidableEq

namespace Outcome

/- The outcome of a formula that was evaluated. -/
def ofResult : Except FormulaError Value → Outcome
  | .ok v => value v
  | .error e => error (CellError.ofFormulaError e)

/- What a formula gets that reads a cell. -/
def toResult : Outcome → Except FormulaError Value
  | value v => .ok v
  | error e => .error e.toFormulaError

def value? : Outcome → Option Value
  | value v => some v
  | error _ => none

def error? : Outcome → Option CellError
  | value _ => none
  | error e => some e

def isError : Outcome → Bool
  | value _ => false
  | error _ => true

/- Whether the outcome is an error with a given code. -/
def hasCode
    (code : ErrorCode) : Outcome → Bool
  | value _ => false
  | error e => e.code == code

/- Errors show as their code, values as their text. -/
def text : Outcome → String
  | value v => v.toText
  | error e => "#" ++ e.code.name

end Outcome

end Spreadsheet
