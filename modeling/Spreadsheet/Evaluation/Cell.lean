import Spreadsheet.Evaluation.Context

/-
  This file defines how a cell of a sheet is evaluated.

  Key definitions include:
    * `CellEvaluation`
    * `Sheet.evaluateCellIn`
    * `Sheet.evaluateCellWith`
    * `Sheet.evaluateCell`
-/

namespace Spreadsheet

/-
  An outcome, and the steps to a value if they were asked
  for.
-/
structure CellEvaluation where
  outcome : Outcome
  steps : Option (List Step)
deriving DecidableEq

namespace Sheet

/-
  Evaluate a cell while the cells in `visited` are being
  evaluated. An empty position has the empty value. What is
  known of the cell itself is not used.
-/
def evaluateCellIn
    (sheet : Sheet)
    (known : CellMap Outcome)
    (visited : List Address)
    (explain : Bool)
    (target : Address) : CellEvaluation :=
  match sheet.get? target with
  | none => ⟨.value .empty, none⟩
  | some (.literal value) => ⟨.value value, none⟩
  | some (.error code message) =>
      ⟨.error ⟨code, message⟩, none⟩
  | some (.formula source parsed) =>
      match Cell.expr source parsed with
      | .error e => ⟨Outcome.ofResult (.error e), none⟩
      | .ok e =>
          let a := target.relative
          if a ∈ visited then
            ⟨Outcome.ofResult (.error (.circular a)), none⟩
          else
            let inside :=
              Context.ofCell sheet a (a :: visited) known
            let start :=
              if explain then inside.enableTrace else inside
            let (result, after) := start.evaluate e
            match result with
            | .error e => ⟨Outcome.ofResult (.error e), none⟩
            | .ok value => ⟨.value value, after.trace⟩

/- Evaluate a cell with what is known of other cells. -/
def evaluateCellWith
    (sheet : Sheet)
    (known : CellMap Outcome)
    (explain : Bool)
    (target : Address) : CellEvaluation :=
  sheet.evaluateCellIn known [] explain target

/- Evaluate a cell and whatever it refers to. -/
def evaluateCell
    (sheet : Sheet)
    (explain : Bool)
    (target : Address) : CellEvaluation :=
  sheet.evaluateCellWith CellMap.empty explain target

end Sheet

end Spreadsheet
