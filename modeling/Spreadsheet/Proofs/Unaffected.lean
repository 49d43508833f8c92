import Spreadsheet.Proofs.EvaluationOrder
import Spreadsheet.Proofs.IncrementalExactness

/-
  An edit recalculates every formula that it can affect. The
  cells that it recalculates are those that depend on the
  edited cell in the graph, which on orderly sheets draws
  all references; any other formula leads to no cell that
  has changed.

  Main declarations:
    * `Session.mem_order_iff`
    * `Session.mem_order_of_leads`
    * `Session.unaffected_of_not_mem_order`
-/

namespace Spreadsheet

open DependencyGraph

namespace Session

variable {s : Session}
variable {a b : Address}
variable {cell : Option Cell}
variable {now : Timestamp}

/-
  What an edit recalculates depends on the edited cell. As
  this does not depend on what the cell itself reads, it is
  the same in the graph before the edit.
-/
theorem mem_order_iff :
    b ∈ (s.recalculation a cell now).order ↔
      b ∈ s.engine.graph.dependents a := by
  have hDependents :
      b ∈ (s.engine.afterEdit s.sheet a cell).graph.dependents a
        ↔ b ∈ s.engine.graph.dependents a :=
    Engine.dependents_relink
  unfold recalculation
  rw [Engine.update_eq]
  dsimp only
  rw [mem_evaluationOrder_iff, ← hDependents]
  constructor
  · intro hb
    rcases List.mem_map.mp hb with ⟨x, hx, rfl⟩
    rw [relative_of_mem_dependents hx]
    exact hx
  · intro hb
    exact List.mem_map.mpr
      ⟨b, hb, relative_of_mem_dependents hb⟩

/- The edited cell itself is recalculated. -/
theorem relative_mem_order :
    a.relative ∈ (s.recalculation a cell now).order :=
  mem_order_iff.mpr (relative_mem_dependents _ a)

/- So is every cell from which references lead to it. -/
theorem mem_order_of_leads
    (hExact : Exact s)
    (h : s.sheet.Leads Expr.targets b.relative a.relative) :
    b.relative ∈ (s.recalculation a cell now).order := by
  rw [mem_order_iff, mem_dependents_iff]
  exact Engine.readBy_of_leads hExact.draws
    (Address.relative_relative b) h

/-
  In a run on orderly sheets, a formula that an edit does
  not recalculate was there before, and its plain evaluation
  is the same before and after.
-/
theorem unaffected_of_not_mem_order
    (hRun : Run JustEvaluated Sheet.Orderly s)
    (hFormula :
      Engine.holdsFormula (s.edited a cell now).sheet b = true)
    (hOrder :
      b.relative ∉ (s.recalculation a cell now).order) :
    Engine.holdsFormula s.sheet b = true ∧
      ∀ explain,
        s.sheet.evaluateCell explain b =
          (s.edited a cell now).sheet.evaluateCell
            explain b := by
  have hExact := (exact_of_run hRun).1
  have hNe : b.relative ≠ a.relative := by
    intro hEq
    apply hOrder
    rw [hEq]
    exact relative_mem_order
  have hLeads :
      ¬ s.sheet.Leads Expr.targets b.relative a.relative :=
    fun h => hOrder (mem_order_of_leads hExact h)
  constructor
  · rw [← Sheet.holdsFormula_congr (content?_edited_of_ne hNe)]
    exact hFormula
  · intro explain
    exact (Sheet.evaluateCell_of_not_leads
      (fun _ hOther => content?_edited_of_ne hOther) hLeads
      explain).symm

/- A new reader of a formula does not affect the formula. -/
theorem evaluateCell_switched_of_reader :
    switched.sheet.evaluateCell true (.ofPosition 0 0) =
      (switched.edited (.ofPosition 0 1)
          (some (.ofSource "=A1")) .epoch).sheet.evaluateCell
        true (.ofPosition 0 0) :=
  (unaffected_of_not_mem_order run_switched (by cbv)
    (by decide +kernel)).2 true

end Session

end Spreadsheet
