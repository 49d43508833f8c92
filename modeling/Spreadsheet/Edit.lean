import Spreadsheet.Sheet

/-
  This file defines what typed input does to a cell.

  Key definitions include:
    * `Edit`
    * `Edit.classify`
    * `Edit.cell?`
-/

namespace Spreadsheet

/- What a piece of typed input does to a cell. -/
inductive Edit where
  | clear
  | formula (source : String)
  | literal (value : Value)
deriving DecidableEq

namespace Edit

/- Whether a text is a word in any mix of cases. -/
def isWord
    (word : String)
    (cs : List Char) : Bool :=
  cs.map Char.toLower = word.toList

/-
  Classify typed input without the blanks around it. No
  input clears the cell, an equals sign starts a formula,
  and then numbers, truth values and text are tried.
-/
def classify
    (raw : String) : Edit :=
  let cs := Blank.trim raw.toList
  match cs with
  | [] => clear
  | '=' :: _ => formula (String.ofList cs)
  | cs =>
      match parseNumber (String.ofList cs) with
      | some x => literal (.number x)
      | none =>
          if isWord "true" cs then literal (.boolean true)
          else if isWord "false" cs then
            literal (.boolean false)
          else literal (.text (String.ofList cs))

/- The cell to store, if the input does not clear it. -/
def cell? : Edit → Option Cell
  | clear => none
  | formula source => some (Cell.ofSource source)
  | literal value => some (.literal value)

end Edit

end Spreadsheet
