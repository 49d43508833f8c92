import Spreadsheet.Proofs.Expressions
import Spreadsheet.Proofs.Reachability

/-
  What the evaluation of a cell depends on. It is local: it
  only sees the contents of the cells that references lead
  to. And below a cell that reaches no cycle it depends
  neither on the cells under evaluation nor on what is known
  of other cells, as long as what is known is right.

  Main declarations:
    * `Sheet.readReference_congr`
    * `Sheet.evaluateCellWith_congr`
    * `Sheet.evaluateCellWith_parseFormulas`
    * `Sheet.SoundOn`
    * `Sheet.readReference_eq_plain`
    * `Sheet.evaluateCellWith_eq_plain`
    * `Sheet.readReference_of_refers`
    * `Sheet.evaluate_eq_plain`
-/

namespace Spreadsheet

namespace Sheet

open Relation

variable {sheet sheet' : Sheet}
variable {known known' : CellMap Outcome}
variable {a t : Address}

------------------------------------------------------------
-- Locality
------------------------------------------------------------

/-
  Two sheets give a reference the same value if they agree
  on a set of cells around it that references do not leave.
-/
theorem readReference_congr
    (inside : Address → Prop)
    (hClosed :
      ∀ x y, inside x →
        sheet.Refers Expr.targets x y → inside y)
    (hSame :
      ∀ x, inside x → sheet.content? x = sheet'.content? x)
    (hKnown :
      ∀ x, inside x → known.get? x = known'.get? x)
    (visited : List Address)
    (t : Address)
    (ht : inside t) :
    sheet.readReference known visited t =
      sheet'.readReference known' visited t := by
  induction visited, t using
      reading_induction sheet with
  | step visited t ih =>
      rw [readReference_eq, readReference_eq sheet',
        ← hSame t ht, ← hKnown t ht]
      split
      · rfl
      · next hVisited =>
          split
          · rfl
          · rfl
          · rfl
          · next source reading hContent =>
              cases reading with
              | error e => rfl
              | ok e =>
                  have hExpr := expr?_of_content? hContent
                  have hReads := Expr.evaluate_congr e
                    fun y hy => ih hVisited e hExpr y hy
                      (hClosed t y ht ⟨e, hExpr, hy⟩)
                  dsimp only
                  rw [hReads]

/- Evaluating a cell depends on its targets alone. -/
theorem evaluateCellWith_congr
    {explain : Bool}
    (hSame : sheet.content? a = sheet'.content? a)
    (hTargets :
      ∀ y, sheet.Refers Expr.targets a y →
        sheet.readReference known [a.relative] y =
          sheet'.readReference known' [a.relative] y) :
    sheet.evaluateCellWith known explain a =
      sheet'.evaluateCellWith known' explain a := by
  rw [evaluateCellWith_eq, evaluateCellWith_eq sheet',
    ← hSame]
  split
  · rfl
  · rfl
  · rfl
  · rfl
  · next source e hContent =>
      have hExpr := expr?_of_content? hContent
      rw [Expr.evaluate_congr e
        fun y hy => hTargets y ⟨e, hExpr, hy⟩]

/-
  A cell evaluates alike in two sheets that agree on a set
  of cells around it that references do not leave.
-/
theorem evaluateCellWith_local
    {explain : Bool}
    (inside : Address → Prop)
    (hClosed :
      ∀ x y, inside x →
        sheet.Refers Expr.targets x y → inside y)
    (hSame :
      ∀ x, inside x → sheet.content? x = sheet'.content? x)
    (ha : inside a) :
    sheet.evaluateCellWith known explain a =
      sheet'.evaluateCellWith known explain a :=
  evaluateCellWith_congr (hSame a ha) fun y hy =>
    readReference_congr inside hClosed hSame
      (fun _ _ => rfl) _ y (hClosed a y ha hy)

/- Sheets with the same contents evaluate alike. -/
theorem evaluateCellWith_of_content
    (h : ∀ x, sheet.content? x = sheet'.content? x)
    (known : CellMap Outcome)
    (explain : Bool)
    (a : Address) :
    sheet.evaluateCellWith known explain a =
      sheet'.evaluateCellWith known explain a :=
  evaluateCellWith_local (fun _ => True)
    (fun _ _ _ _ => trivial) (fun x _ => h x) trivial

/- Reading all formulas first changes no evaluation. -/
@[simp]
theorem evaluateCellWith_parseFormulas
    (sheet : Sheet)
    (known : CellMap Outcome)
    (explain : Bool)
    (a : Address) :
    sheet.parseFormulas.evaluateCellWith known explain a =
      sheet.evaluateCellWith known explain a :=
  evaluateCellWith_of_content
    (fun x => content?_parseFormulas sheet x)
    known explain a

------------------------------------------------------------
-- Reading Formulas With Nothing Visited
------------------------------------------------------------

/-
  While nothing else is being evaluated, a reference to a
  formula reads what is known of it, or its outcome.
-/
theorem readReference_nil
    (known : CellMap Outcome)
    {source : String}
    {reading : Except FormulaError Expr}
    (h : sheet.content? t = some (.formula source reading)) :
    sheet.readReference known [] t =
      ((known.get? t).getD
        (sheet.evaluateCellWith known false t).outcome
      ).toResult := by
  rw [readReference_eq, h]
  simp only [List.not_mem_nil, ↓reduceIte]
  cases known.get? t with
  | some outcome => rfl
  | none =>
      rw [Option.getD_none, evaluateCellWith_eq, h]
      cases reading with
      | error e => rfl
      | ok e =>
          dsimp only
          split
          · next hOutcome => rw [hOutcome]
          · next hOutcome =>
              rw [hOutcome]
              rfl

------------------------------------------------------------
-- Sound Knowledge
------------------------------------------------------------

/-
  What is known of the formulas in a set of cells is their
  plain outcome.
-/
def SoundOn
    (sheet : Sheet)
    (inside : Address → Prop)
    (known : CellMap Outcome) : Prop :=
  ∀ x source reading outcome,
    inside x →
    sheet.content? x = some (.formula source reading) →
    known.get? x = some outcome →
    outcome = (sheet.evaluateCell false x).outcome

/- Nothing known is sound. -/
theorem soundOn_empty
    (inside : Address → Prop) :
    sheet.SoundOn inside CellMap.empty := by
  intro x source reading outcome _ _ hGet
  simp at hGet

theorem SoundOn.mono
    {inside inside' : Address → Prop}
    (h : ∀ x, inside' x → inside x)
    (hSound : sheet.SoundOn inside known) :
    sheet.SoundOn inside' known :=
  fun x source reading outcome hx =>
    hSound x source reading outcome (h x hx)

/-
  Below a cell that reaches no cycle, references read the
  plain value, whatever else is being evaluated above it.
  The induction is on the depth of the references below it.
-/
theorem readReference_eq_plain
    (hCycle : ¬ sheet.ReachesCycle Expr.targets t)
    (known : CellMap Outcome)
    (visited : List Address)
    (hSound :
      sheet.SoundOn (sheet.Leads Expr.targets t) known)
    (hVisited :
      ∀ v ∈ visited, ¬ sheet.Leads Expr.targets t v)
    (ht : t.relative = t) :
    sheet.readReference known visited t =
      sheet.readReference CellMap.empty [] t := by
  induction acc_of_not_reachesCycle hCycle generalizing
      known visited with
  | intro t _ ih =>
      have hSelf : t ∉ visited :=
        fun hMem => hVisited t hMem .refl
      rw [readReference_eq, readReference_eq sheet .empty,
        ht, if_neg hSelf, if_neg List.not_mem_nil]
      split
      · rfl
      · rfl
      · rfl
      · next source reading hContent =>
          have hBelow :
              ∀ known visited,
                sheet.SoundOn (sheet.Leads Expr.targets t)
                  known →
                (∀ v ∈ visited,
                  ¬ sheet.Leads Expr.targets t v) →
                ∀ e, reading = .ok e →
                  e.evaluate
                      (sheet.readReference known
                        (t :: visited)) =
                    e.evaluate
                      (sheet.readReference .empty []) := by
            intro known visited hSound hVisited e hReading
            apply Expr.evaluate_congr
            intro y hy
            rw [hReading] at hContent
            have hRefers : sheet.Refers Expr.targets t y :=
              ⟨e, expr?_of_content? hContent, hy⟩
            have hKey : y.relative = y :=
              Expr.relative_of_mem_targets e hy
            refine ih y hRefers
              (fun h => hCycle (h.of_refers hRefers))
              known (t :: visited) ?_ ?_ hKey
            · exact hSound.mono fun x hx => hx.head hRefers
            · intro v hv hLeads
              rcases List.mem_cons.mp hv with rfl | hv
              · exact hCycle
                  (reachesCycle_of_leads_back hRefers hLeads)
              · exact hVisited v hv (hLeads.head hRefers)
          have hPlain := hBelow .empty [] (soundOn_empty _)
            (by simp)
          have hKnown := hBelow known visited hSound hVisited
          cases hGet : known.get? t with
          | some outcome =>
              have hOutcome := hSound t source reading outcome
                .refl hContent hGet
              have hNil := readReference_nil .empty hContent
              rw [readReference_eq, hContent, ht,
                if_neg List.not_mem_nil] at hNil
              rw [CellMap.get?_empty] at hNil ⊢
              dsimp only at hNil ⊢
              rw [hNil, Option.getD_none, hOutcome]
              rfl
          | none =>
              rw [CellMap.get?_empty]
              dsimp only
              cases reading with
              | error e => rfl
              | ok e =>
                  dsimp only
                  rw [hKnown e rfl, hPlain e rfl]

/-
  A cell that reaches no cycle evaluates to its plain
  outcome, by the same steps, if what is known of the cells
  that it leads to is right.
-/
theorem evaluateCellWith_eq_plain
    {explain : Bool}
    (hCycle : ¬ sheet.ReachesCycle Expr.targets a)
    (hSound :
      sheet.SoundOn
        (TransGen (sheet.Refers Expr.targets) a) known) :
    sheet.evaluateCellWith known explain a =
      sheet.evaluateCell explain a := by
  apply evaluateCellWith_congr rfl
  intro y hRefers
  have ⟨e, _, hMem⟩ := hRefers
  have hKey : y.relative = y :=
    Expr.relative_of_mem_targets e hMem
  have hVisited :
      ∀ v ∈ [a.relative],
        ¬ sheet.Leads Expr.targets y v := by
    intro v hv
    rw [List.mem_singleton.mp hv]
    exact not_leads_back hCycle hRefers
  have hBelow : ¬ sheet.ReachesCycle Expr.targets y :=
    fun h => hCycle (h.of_refers hRefers)
  rw [readReference_eq_plain hBelow known _ ?_ hVisited hKey,
    readReference_eq_plain hBelow .empty _
      (soundOn_empty _) hVisited hKey]
  exact hSound.mono fun x hx =>
    TransGen.head'_iff.mpr ⟨y, hRefers, hx⟩

/-
  What a cell that reaches no cycle refers to reads alike
  while the cell is under evaluation and while nothing is.
-/
theorem readReference_of_refers
    {b : Address}
    (hRefers : sheet.Refers Expr.targets a b)
    (hCycle : ¬ sheet.ReachesCycle Expr.targets a) :
    sheet.readReference .empty [a.relative] b =
      sheet.readReference .empty [] b := by
  have ⟨e, _, hMem⟩ := hRefers
  apply readReference_eq_plain
  · exact fun h => hCycle (h.of_refers hRefers)
  · exact soundOn_empty _
  · intro v hv
    rw [List.mem_singleton.mp hv]
    exact not_leads_back hCycle hRefers
  · exact Expr.relative_of_mem_targets e hMem

/-
  The formula of a cell that reaches no cycle reads, while
  the cell is under evaluation, what it would read with
  nothing under evaluation.
-/
theorem evaluate_eq_plain
    {e : Expr}
    (hExpr : sheet.expr? a = some e)
    (hCycle : ¬ sheet.ReachesCycle Expr.targets a) :
    e.evaluate (sheet.readReference .empty [a.relative]) =
      e.evaluate (sheet.readReference .empty []) :=
  Expr.evaluate_congr e fun _ hy =>
    readReference_of_refers ⟨e, hExpr, hy⟩ hCycle

end Sheet

end Spreadsheet
