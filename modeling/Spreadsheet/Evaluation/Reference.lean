import Spreadsheet.Evaluation.Outcome
import Spreadsheet.Evaluation.Reading
import Spreadsheet.Sheet

/-
  This file defines how a formula reads the cells it refers
  to. A reference to another formula is answered from
  earlier outcomes if there is one, and by evaluating that
  formula otherwise. The cells under evaluation are
  remembered along the way, so a reference back to one of
  them is an error and reading ends.

  Key definitions include:
    * `Sheet.unvisited`
    * `Sheet.unvisited_cons_lt`
    * `Sheet.readReference`
-/

namespace Spreadsheet

------------------------------------------------------------
-- Cells Left To Visit
------------------------------------------------------------

namespace Sheet

/- The number of formula cells not yet under evaluation. -/
def unvisited
    (sheet : Sheet)
    (visited : List Address) : Nat :=
  sheet.cells.entries.countP fun p =>
    p.2.isFormula && !visited.contains p.1

/- A found entry is one of the entries. -/
theorem mem_of_get?
    {sheet : Sheet}
    {a : Address}
    {cell : Cell}
    (h : sheet.get? a = some cell) :
    (a.relative, cell) ∈ sheet.cells.entries := by
  simp only [get?, CellMap.get?] at h
  generalize sheet.cells.entries = entries at h
  induction entries with
  | nil => simp at h
  | cons p rest ih =>
      obtain ⟨key, value⟩ := p
      simp only [List.lookup_cons] at h
      split at h
      · next heq =>
          have hKey : a.relative = key := by simpa using heq
          simp_all
      · exact List.mem_cons_of_mem _ (ih h)

/- Starting on a formula leaves one fewer to visit. -/
theorem unvisited_cons_lt
    {sheet : Sheet}
    {visited : List Address}
    {a : Address}
    {cell : Cell}
    (hVisited : a.relative ∉ visited)
    (hCell : sheet.get? a = some cell)
    (hFormula : cell.isFormula = true) :
    sheet.unvisited (a.relative :: visited)
      < sheet.unvisited visited := by
  have hMem := mem_of_get? hCell
  simp only [unvisited]
  generalize sheet.cells.entries = entries at hMem
  let before : Address × Cell → Bool := fun p =>
    p.2.isFormula && !visited.contains p.1
  let after : Address × Cell → Bool := fun p =>
    p.2.isFormula
      && !(a.relative :: visited).contains p.1
  have hImp : ∀ p, after p = true → before p = true := by
    intro p hp
    simp only [after, before, List.contains_cons] at *
    simp_all
  have hAfter : after (a.relative, cell) = false := by
    simp [after]
  have hBefore : before (a.relative, cell) = true := by
    simp [before, hFormula, hVisited]
  change entries.countP after < entries.countP before
  induction entries with
  | nil => simp at hMem
  | cons p rest ih =>
      have hRest : rest.countP after ≤ rest.countP before :=
        List.countP_mono_left fun q _ hq => hImp q hq
      simp only [List.countP_cons]
      rcases List.mem_cons.mp hMem with h | h
      · subst h
        simp only [hAfter, hBefore, Bool.false_eq_true,
          ↓reduceIte]
        omega
      · have hTail := ih h
        by_cases hp : after p = true
        · simp only [hp, hImp p hp, ↓reduceIte]
          omega
        · simp only [hp, Bool.false_eq_true, ↓reduceIte]
          split <;> omega

------------------------------------------------------------
-- Reading References
------------------------------------------------------------

/-
  The value of a cell as a formula reads it while the cells
  in `visited` are being evaluated. A cell that is missing,
  has an error or is under evaluation itself has none.
-/
def readReference
    (sheet : Sheet)
    (known : CellMap Outcome)
    (visited : List Address)
    (target : Address) : Except FormulaError Value :=
  if _hVisited : target.relative ∈ visited then
    .error (.circular target.relative)
  else
    match _hCell : sheet.get? target with
    | none => .error (.badReference target.relative)
    | some (.literal value) => .ok value
    | some (.error code message) =>
        .error (.propagated code message)
    | some (.formula source parsed) =>
        match known.get? target with
        | some outcome => outcome.toResult
        | none =>
            let result :=
              match Cell.expr source parsed with
              | .error e => .error e
              | .ok e =>
                  (e.evaluate fun a =>
                    sheet.readReference known
                      (target.relative :: visited)
                      a).outcome
            (Outcome.ofResult result).toResult
termination_by sheet.unvisited visited
decreasing_by
  exact unvisited_cons_lt _hVisited _hCell rfl

end Sheet

end Spreadsheet
