import Mathlib.Logic.Relation
import Spreadsheet.Proofs.Content
import Spreadsheet.Proofs.References

/-
  Which cells of a sheet refer to which, for any kind of
  references, and the two ways of arguing along them: by the
  cells that reading has not visited yet, and by the finite
  depth of what lies below a cell that reaches no cycle.

  Main declarations:
    * `Sheet.Refers`, `Sheet.Leads` and `Sheet.ReachesCycle`
    * `Sheet.reading_induction`
    * `Sheet.acc_of_not_reachesCycle`
-/

namespace Spreadsheet

namespace Sheet

open Relation

variable {sheet sheet' : Sheet}
variable {kind kind' : Expr → List Address}
variable {a b c : Address}

------------------------------------------------------------
-- References Between Cells
------------------------------------------------------------

/-
  The formula of one cell refers to another cell, by the
  kind of references given.
-/
def Refers
    (sheet : Sheet)
    (kind : Expr → List Address)
    (a b : Address) : Prop :=
  ∃ e, sheet.expr? a = some e ∧ b ∈ kind e

/- References lead from one cell to another, or none do and
  the cells are the same. -/
def Leads
    (sheet : Sheet)
    (kind : Expr → List Address) :
    Address → Address → Prop :=
  ReflTransGen (sheet.Refers kind)

/- References lead from a cell back to it. -/
def OnCycle
    (sheet : Sheet)
    (kind : Expr → List Address)
    (a : Address) : Prop :=
  TransGen (sheet.Refers kind) a a

/- References lead from a cell to a cycle of references. -/
def ReachesCycle
    (sheet : Sheet)
    (kind : Expr → List Address)
    (a : Address) : Prop :=
  ∃ b, sheet.Leads kind a b ∧ sheet.OnCycle kind b

/- Markers of the referring cell do not matter. -/
theorem refers_relative_iff :
    sheet.Refers kind a.relative b ↔
      sheet.Refers kind a b :=
  Iff.rfl

theorem Refers.mono
    (h : ∀ e : Expr, kind e ⊆ kind' e)
    (hRefers : sheet.Refers kind a b) :
    sheet.Refers kind' a b := by
  rcases hRefers with ⟨e, hExpr, hMem⟩
  exact ⟨e, hExpr, h e hMem⟩

/- Contents decide what a cell refers to. -/
theorem Refers.congr
    (h : sheet.content? a = sheet'.content? a)
    (hRefers : sheet.Refers kind a b) :
    sheet'.Refers kind a b := by
  rcases hRefers with ⟨e, hExpr, hMem⟩
  refine ⟨e, ?_, hMem⟩
  unfold expr? at *
  rw [← h]
  exact hExpr

------------------------------------------------------------
-- Cycles
------------------------------------------------------------

/- A cell that refers to one above a cycle is above it. -/
theorem ReachesCycle.of_refers
    (hRefers : sheet.Refers kind a b)
    (h : sheet.ReachesCycle kind b) :
    sheet.ReachesCycle kind a := by
  rcases h with ⟨c, hLeads, hCycle⟩
  exact ⟨c, hLeads.head hRefers, hCycle⟩

/- The same for a cell that leads to one above a cycle. -/
theorem ReachesCycle.of_leads
    (hLeads : sheet.Leads kind a b)
    (h : sheet.ReachesCycle kind b) :
    sheet.ReachesCycle kind a := by
  rcases h with ⟨c, hRest, hCycle⟩
  exact ⟨c, hLeads.trans hRest, hCycle⟩

/- Above a cycle there is always a next cell. -/
theorem ReachesCycle.exists_refers
    (h : sheet.ReachesCycle kind a) :
    ∃ b, sheet.Refers kind a b
      ∧ sheet.ReachesCycle kind b := by
  rcases h with ⟨c, hLeads, hCycle⟩
  rcases ReflTransGen.cases_head hLeads with
    rfl | ⟨b, hRefers, hRest⟩
  · rcases TransGen.head'_iff.mp hCycle with
      ⟨b, hRefers, hBack⟩
    exact ⟨b, hRefers, a, hBack, hCycle⟩
  · exact ⟨b, hRefers, c, hRest, hCycle⟩

/- Without a reference to follow no cycle is reached. -/
theorem not_reachesCycle_of_expr?
    (h : sheet.expr? a = none) :
    ¬ sheet.ReachesCycle kind a := by
  intro hCycle
  rcases hCycle.exists_refers with ⟨b, ⟨e, hExpr, -⟩, -⟩
  rw [h] at hExpr
  cases hExpr

/- Nor is one if none of the references leads to one. -/
theorem not_reachesCycle_of_targets
    {e : Expr}
    (hExpr : sheet.expr? a = some e)
    (h : ∀ b ∈ kind e, ¬ sheet.ReachesCycle kind b) :
    ¬ sheet.ReachesCycle kind a := by
  intro hCycle
  rcases hCycle.exists_refers with
    ⟨b, ⟨e', hExpr', hMem⟩, hBelow⟩
  rw [hExpr] at hExpr'
  cases hExpr'
  exact h b hMem hBelow

/- Reaching a cycle does not depend on markers. -/
theorem reachesCycle_relative_iff :
    sheet.ReachesCycle kind a.relative ↔
      sheet.ReachesCycle kind a := by
  constructor
  · intro h
    rcases h.exists_refers with ⟨b, hRefers, hRest⟩
    exact hRest.of_refers (refers_relative_iff.mp hRefers)
  · intro h
    rcases h.exists_refers with ⟨b, hRefers, hRest⟩
    exact hRest.of_refers (refers_relative_iff.mpr hRefers)

/-
  A cell is above a cycle if something that it refers to
  leads back to it.
-/
theorem reachesCycle_of_leads_back
    (hRefers : sheet.Refers kind a b)
    (hLeads : sheet.Leads kind b a) :
    sheet.ReachesCycle kind a :=
  ⟨a, .refl, TransGen.head'_iff.mpr ⟨b, hRefers, hLeads⟩⟩

/- Nothing leads back to a cell that reaches no cycle. -/
theorem not_leads_back
    (hCycle : ¬ sheet.ReachesCycle kind a)
    (hRefers : sheet.Refers kind a b) :
    ¬ sheet.Leads kind b a.relative := by
  intro hBack
  apply hCycle
  apply reachesCycle_relative_iff.mp
  exact reachesCycle_of_leads_back
    (refers_relative_iff.mpr hRefers) hBack

/-
  References followed inside a set of cells on which two
  sheets agree lead to the same cells in both.
-/
theorem Leads.congr
    {inside : Address → Prop}
    (hClosed :
      ∀ x y, inside x → sheet.Refers kind x y → inside y)
    (hSame :
      ∀ x, inside x → sheet.content? x = sheet'.content? x)
    (ha : inside a)
    (h : sheet.Leads kind a b) :
    inside b ∧ sheet'.Leads kind a b := by
  induction h with
  | refl => exact ⟨ha, .refl⟩
  | tail _ hRefers ih =>
      exact ⟨hClosed _ _ ih.1 hRefers,
        ih.2.tail (hRefers.congr (hSame _ ih.1))⟩

/- The same for reaching a cycle. -/
theorem ReachesCycle.congr
    {inside : Address → Prop}
    (hClosed :
      ∀ x y, inside x → sheet.Refers kind x y → inside y)
    (hSame :
      ∀ x, inside x → sheet.content? x = sheet'.content? x)
    (ha : inside a)
    (h : sheet.ReachesCycle kind a) :
    sheet'.ReachesCycle kind a := by
  rcases h with ⟨b, hLeads, hCycle⟩
  have ⟨hb, hLeads'⟩ := hLeads.congr hClosed hSame ha
  rcases TransGen.head'_iff.mp hCycle with
    ⟨c, hRefers, hBack⟩
  have hc := hClosed _ _ hb hRefers
  have hBack' : sheet.Leads kind c b := hBack
  refine ⟨b, hLeads', TransGen.head'_iff.mpr ⟨c, ?_, ?_⟩⟩
  · exact hRefers.congr (hSame _ hb)
  · exact (hBack'.congr hClosed hSame hc).2

------------------------------------------------------------
-- Arguing Along Reading
------------------------------------------------------------

/-
  What reading a cell needs, it needs of the targets of its
  formula with the cell added to those under evaluation. As
  fewer formulas are left to visit each time, this suffices.
-/
theorem reading_induction
    (sheet : Sheet)
    {motive : List Address → Address → Prop}
    (step :
      ∀ visited t,
        (t.relative ∉ visited →
          ∀ e, sheet.expr? t = some e →
            ∀ y ∈ e.targets,
              motive (t.relative :: visited) y) →
        motive visited t)
    (visited : List Address)
    (t : Address) : motive visited t := by
  generalize hn : sheet.unvisited visited = n
  induction n using Nat.strongRecOn
      generalizing visited t with
  | ind n ih =>
      apply step
      intro hVisited e hExpr y _
      rcases content?_of_expr? hExpr with ⟨source, hContent⟩
      rcases Option.map_eq_some_iff.mp hContent with
        ⟨cell, hCell, hEq⟩
      have hFormula : cell.isFormula = true := by
        rw [← Cell.isFormula_content, hEq]
        rfl
      have hLess :=
        unvisited_cons_lt hVisited hCell hFormula
      exact ih _ (hn ▸ hLess) _ _ rfl

/- All cells under evaluation lead to the cell read next. -/
def UnderWay
    (sheet : Sheet)
    (visited : List Address)
    (t : Address) : Prop :=
  ∀ v ∈ visited, TransGen (sheet.Refers Expr.targets) v t

variable {visited : List Address}
variable {t y : Address}

theorem UnderWay.nil : sheet.UnderWay [] t :=
  fun _ h => absurd h List.not_mem_nil

/- So do they when the targets of that cell are read. -/
theorem UnderWay.cons
    (h : sheet.UnderWay visited t)
    (hRefers : sheet.Refers Expr.targets t y) :
    sheet.UnderWay (t.relative :: visited) y := by
  intro v hv
  rcases List.mem_cons.mp hv with rfl | hv
  · exact .single (refers_relative_iff.mpr hRefers)
  · exact (h v hv).tail hRefers

/- If a cell under evaluation is read it is on a cycle. -/
theorem UnderWay.reachesCycle
    (h : sheet.UnderWay visited t)
    (hMem : t.relative ∈ visited) :
    sheet.ReachesCycle Expr.targets t := by
  rcases TransGen.head'_iff.mp (h _ hMem) with
    ⟨z, hRefers, hBack⟩
  exact reachesCycle_of_leads_back
    (refers_relative_iff.mp hRefers) hBack

/-
  Below a cell that reaches no cycle references have finite
  depth. The cells passed on the way are taken as visited:
  all of them lead on, so none of them comes up again.
-/
theorem acc_of_not_reachesCycle
    (h : ¬ sheet.ReachesCycle Expr.targets a) :
    Acc (fun y x => sheet.Refers Expr.targets x y) a := by
  have hStep :
      ∀ (visited : List Address) (t : Address),
        sheet.UnderWay visited t →
        ¬ sheet.ReachesCycle Expr.targets t →
        Acc (fun y x => sheet.Refers Expr.targets x y) t := by
    intro visited t
    induction visited, t using
        reading_induction sheet with
    | step visited t ih =>
        intro hPath hNot
        refine Acc.intro t fun y hRefers => ?_
        have hRefers' := hRefers
        rcases hRefers' with ⟨e, hExpr, hMem⟩
        have hVisited : t.relative ∉ visited :=
          fun hMem => hNot (hPath.reachesCycle hMem)
        apply ih hVisited e hExpr y hMem
        · exact hPath.cons hRefers
        · exact fun hCycle => hNot (hCycle.of_refers hRefers)
  exact hStep [] a .nil h

end Sheet

end Spreadsheet
