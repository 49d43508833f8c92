import Spreadsheet.Proofs.PlainEvaluation
import Spreadsheet.Proofs.Refinement

/-
  Evaluation where no cycle runs through a range. A circular
  reference then ends whatever evaluation meets it, so how
  far a reference is circular still depends on the cells
  under evaluation, but a result that is not circular does
  not, nor does it depend on what is known of other cells,
  as long as what is known is right.

  Two facts carry this. Reading with fewer cells under
  evaluation is refined by reading with more of them. And a
  formula that reads all others plainly, but itself as
  circular, refines its own plain reading.

  Main declarations:
    * `Sheet.ReachesRangeCycle`
    * `Sheet.refines_readReference_empty`
    * `Sheet.refines_readThrough_around`
    * `Sheet.readReference_settled`
    * `Sheet.outcome_eq_plain`
-/

namespace Spreadsheet

open Relation

------------------------------------------------------------
-- Cells Of Ranges
------------------------------------------------------------

namespace Expr

mutual

/- The cells of ranges are among the targets. -/
theorem rangeTargets_subset_targets :
    ∀ e : Expr, e.rangeTargets ⊆ e.targets
  | number _ => List.nil_subset _
  | text _ => List.nil_subset _
  | boolean _ => List.nil_subset _
  | cell _ => List.nil_subset _
  | range first second => by
      rw [rangeTargets_range]
      exact fun _ h => h
  | binary op left right => by
      rw [rangeTargets_binary]
      exact List.append_subset.mpr
        ⟨List.subset_append_of_subset_left _
            (rangeTargets_subset_targets left),
          List.subset_append_of_subset_right _
            (rangeTargets_subset_targets right)⟩
  | negate operand => rangeTargets_subset_targets operand
  | call _ args => rangeTargetsOfAll_subset_targets args

theorem rangeTargetsOfAll_subset_targets :
    ∀ args : List Expr,
      rangeTargetsOfAll args ⊆ targetsOfAll args
  | [] => List.nil_subset _
  | e :: rest => by
      rw [rangeTargetsOfAll_cons]
      exact List.append_subset.mpr
        ⟨List.subset_append_of_subset_left _
            (rangeTargets_subset_targets e),
          List.subset_append_of_subset_right _
            (rangeTargetsOfAll_subset_targets rest)⟩

end

end Expr

namespace Sheet

variable {sheet : Sheet}
variable {known : CellMap Outcome}
variable {visited : List Address}
variable {a b t y : Address}

/-
  References lead from a cell to a formula with a range over
  another cell that leads back to the formula.
-/
def ReachesRangeCycle
    (sheet : Sheet)
    (a : Address) : Prop :=
  ∃ x y, sheet.Leads Expr.targets a x
    ∧ sheet.Refers Expr.rangeTargets x y
    ∧ y ≠ x.relative ∧ sheet.Leads Expr.targets y x.relative

theorem ReachesRangeCycle.of_refers
    (hRefers : sheet.Refers Expr.targets a b)
    (h : sheet.ReachesRangeCycle b) :
    sheet.ReachesRangeCycle a := by
  rcases h with ⟨x, y, hLeads, hRest⟩
  exact ⟨x, y, hLeads.head hRefers, hRest⟩

/- Reaching a cycle through a range ignores markers. -/
theorem ReachesRangeCycle.of_relative
    (h : sheet.ReachesRangeCycle a.relative) :
    sheet.ReachesRangeCycle a := by
  rcases h with ⟨x, y, hLeads, hRange, hne, hBack⟩
  rcases ReflTransGen.cases_head hLeads with
    rfl | ⟨b, hRefers, hRest⟩
  · exact ⟨a, y, .refl, hRange, hne, hBack⟩
  · exact ⟨x, y,
      hRest.head (refers_relative_iff.mp hRefers), hRange,
      hne, hBack⟩

/-
  Where no cycle runs through a range, no other cell of a
  range leads to the formula or to a cell under evaluation.
-/
theorem not_leads_of_range
    (hRanges : ¬ sheet.ReachesRangeCycle t)
    (hPath : sheet.UnderWay visited t)
    (ht : t.relative = t)
    (hRange : sheet.Refers Expr.rangeTargets t y)
    (hne : y ≠ t) :
    ∀ v ∈ t :: visited, ¬ sheet.Leads Expr.targets y v := by
  intro v hv hLeads
  have hBack : sheet.Leads Expr.targets y t := by
    rcases List.mem_cons.mp hv with rfl | hv
    · exact hLeads
    · exact hLeads.trans (hPath v hv).to_reflTransGen
  apply hRanges
  exact ⟨t, y, .refl, hRange, by rwa [ht], by rwa [ht]⟩

------------------------------------------------------------
-- Reading Through A Formula
------------------------------------------------------------

/- What is read of a cell whose formula uses a reader. -/
def readThrough
    (sheet : Sheet)
    (read : Reader)
    (t : Address) : Except FormulaError Value :=
  match sheet.content? t with
  | none => .error (.badReference t.relative)
  | some (.literal value) => .ok value
  | some (.error code message) =>
      .error (.propagated code message)
  | some (.formula _ reading) =>
      (Outcome.ofResult
        (reading.bind fun e =>
          (e.evaluate read).outcome)).toResult

/- A cell under evaluation is circular. -/
theorem readReference_of_mem
    (h : t.relative ∈ visited) :
    sheet.readReference known visited t =
      .error (.circular t.relative) := by
  rw [readReference_eq, if_pos h]

theorem circular_of_mem
    (h : t.relative ∈ visited) :
    Circular (sheet.readReference known visited t) :=
  ⟨_, readReference_of_mem h, rfl⟩

/- Any other is known, or read through its formula. -/
theorem readReference_cases
    (sheet : Sheet)
    (known : CellMap Outcome)
    (h : t.relative ∉ visited) :
    (∃ source reading outcome,
      sheet.content? t = some (.formula source reading)
        ∧ known.get? t = some outcome
        ∧ sheet.readReference known visited t =
          outcome.toResult)
    ∨ sheet.readReference known visited t =
      sheet.readThrough
        (sheet.readReference known (t.relative :: visited))
        t := by
  rw [readReference_eq, if_neg h]
  unfold readThrough
  cases hContent : sheet.content? t with
  | none => exact Or.inr rfl
  | some content =>
      cases content with
      | literal value => exact Or.inr rfl
      | error code message => exact Or.inr rfl
      | formula source reading =>
          cases hGet : known.get? t with
          | some outcome =>
              exact Or.inl
                ⟨source, reading, outcome, rfl, rfl, rfl⟩
          | none =>
              right
              cases reading <;> rfl

theorem readReference_empty
    (sheet : Sheet)
    (h : t.relative ∉ visited) :
    sheet.readReference .empty visited t =
      sheet.readThrough
        (sheet.readReference .empty (t.relative :: visited))
        t := by
  rcases readReference_cases sheet .empty h with
    ⟨source, reading, outcome, -, hGet, -⟩ | hThrough
  · cases hGet
  · exact hThrough

/-
  What is read of a cell refines, if what its formula reads
  does. What the formula reads of the cell itself has to be
  the same.
-/
theorem readThrough_refines
    {read read' : Reader}
    (hSelf : read t = read' t)
    (hCells :
      ∀ y, sheet.Refers Expr.targets t y → y ≠ t →
        Refines (read y) (read' y))
    (hRanges :
      ∀ y, sheet.Refers Expr.rangeTargets t y → y ≠ t →
        SameValue (read y) (read' y)) :
    Refines (sheet.readThrough read t)
      (sheet.readThrough read' t) := by
  have hReads :
      ∀ e, sheet.expr? t = some e →
        Expr.RefinesOn e.targets e.rangeTargets
          read read' := by
    intro e hExpr
    constructor
    · intro y hy
      by_cases hne : y = t
      · rw [hne, hSelf]
        exact .refl _
      · exact hCells y ⟨e, hExpr, hy⟩ hne
    · intro y hy
      by_cases hne : y = t
      · rw [hne, hSelf]
        exact .refl _
      · exact hRanges y ⟨e, hExpr, hy⟩ hne
  unfold readThrough
  split
  · exact .refl _
  · exact .refl _
  · exact .refl _
  · next source reading hContent =>
      cases reading with
      | error e => exact .refl _
      | ok e =>
          have hExpr := expr?_of_content? hContent
          change Refines
            (Outcome.ofResult
              (e.evaluate read).outcome).toResult
            (Outcome.ofResult
              (e.evaluate read').outcome).toResult
          rcases e.refines_evaluate (hReads e hExpr) with
            hSame | ⟨err, hError, hCode⟩
          · rw [hSame]
            exact .refl _
          · rw [hError]
            exact Or.inr ⟨_, rfl, hCode⟩

------------------------------------------------------------
-- The Cells Under Evaluation
------------------------------------------------------------

/-
  Which cells are under evaluation only matters as far as
  references lead to them.
-/
theorem readReference_congr_visited
    (known : CellMap Outcome)
    (visited visited' : List Address)
    (t : Address)
    (ht : t.relative = t)
    (h :
      ∀ v, sheet.Leads Expr.targets t v →
        (v ∈ visited ↔ v ∈ visited')) :
    sheet.readReference known visited t =
      sheet.readReference known visited' t := by
  induction visited, t using reading_induction sheet
      generalizing visited' with
  | step visited t ih =>
      have hSelf : t.relative ∈ visited ↔
          t.relative ∈ visited' :=
        h t.relative (by rw [ht]; exact .refl)
      rw [readReference_eq, readReference_eq sheet known
        visited']
      by_cases hMem : t.relative ∈ visited
      · rw [if_pos hMem, if_pos (hSelf.mp hMem)]
      · rw [if_neg hMem, if_neg fun hMem' =>
          hMem (hSelf.mpr hMem')]
        split
        · rfl
        · rfl
        · rfl
        · next source reading hContent =>
            cases reading with
            | error e => rfl
            | ok e =>
                have hExpr := expr?_of_content? hContent
                have hReads := Expr.evaluate_congr e
                  fun y hy => ih hMem e hExpr y hy
                    (t.relative :: visited')
                    (Expr.relative_of_mem_targets e hy)
                    fun v hLeads => by
                      rw [List.mem_cons, List.mem_cons,
                        h v (hLeads.head ⟨e, hExpr, hy⟩)]
                dsimp only
                rw [hReads]

/- So the other cells of a range are read plainly. -/
theorem readReference_of_range
    (hRanges : ¬ sheet.ReachesRangeCycle t)
    (hPath : sheet.UnderWay visited t)
    (ht : t.relative = t)
    (hRange : sheet.Refers Expr.rangeTargets t y)
    (hne : y ≠ t) :
    sheet.readReference known (t.relative :: visited) y =
      sheet.readReference known [] y := by
  have hNone := not_leads_of_range hRanges hPath ht hRange hne
  apply readReference_congr_visited
  · rcases hRange with ⟨e, -, hMem⟩
    exact Expr.relative_of_mem_targets e
      (e.rangeTargets_subset_targets hMem)
  · intro v hLeads
    rw [ht]
    exact ⟨fun hv => absurd hLeads (hNone v hv),
      fun hv => absurd hv List.not_mem_nil⟩

/- A cell that is circular whatever leads to it. -/
def AlwaysCircular
    (sheet : Sheet)
    (t : Address) : Prop :=
  ∀ visited, sheet.UnderWay visited t →
    Circular (sheet.readReference .empty visited t)

/-
  Reading is refined by reading with other cells under
  evaluation, if those added are circular anyway.
-/
theorem refines_readReference_empty
    (visited visited' : List Address)
    (t : Address)
    (hRanges : ¬ sheet.ReachesRangeCycle t)
    (ht : t.relative = t)
    (hPath : sheet.UnderWay visited t)
    (hPath' : sheet.UnderWay visited' t)
    (hAdded :
      ∀ w ∈ visited', w ∈ visited ∨ sheet.AlwaysCircular w) :
    Refines (sheet.readReference .empty visited t)
      (sheet.readReference .empty visited' t) := by
  induction visited, t using reading_induction sheet
      generalizing visited' with
  | step visited t ih =>
      by_cases hMem : t.relative ∈ visited
      · exact Or.inr (circular_of_mem hMem)
      · by_cases hMem' : t.relative ∈ visited'
        · have hCircular :=
            (hAdded _ hMem').resolve_left hMem
          rw [ht] at hCircular
          exact Or.inr (hCircular visited hPath)
        · rw [readReference_empty sheet hMem,
            readReference_empty sheet hMem']
          apply readThrough_refines
          · rw [readReference_of_mem (by simp [ht]),
              readReference_of_mem (by simp [ht])]
          · intro y hRefers _
            have ⟨e, hExpr, hy⟩ := hRefers
            apply ih hMem e hExpr y hy
            · exact fun h => hRanges (h.of_refers hRefers)
            · exact Expr.relative_of_mem_targets e hy
            · exact hPath.cons hRefers
            · exact hPath'.cons hRefers
            · intro w hw
              rcases List.mem_cons.mp hw with rfl | hw
              · exact Or.inl List.mem_cons_self
              · exact (hAdded w hw).imp_left
                  (List.mem_cons_of_mem _)
          · intro y hRange hne
            rw [readReference_of_range hRanges hPath ht hRange
                hne,
              readReference_of_range hRanges hPath' ht hRange
                hne]
            exact .refl _

/- A result that is not circular is the plain one. -/
theorem refines_plain
    (hRanges : ¬ sheet.ReachesRangeCycle t)
    (ht : t.relative = t)
    (hPath : sheet.UnderWay visited t) :
    Refines (sheet.readReference .empty visited t)
      (sheet.readReference .empty [] t) :=
  refines_readReference_empty visited [] t hRanges ht hPath
    .nil fun _ hw => absurd hw List.not_mem_nil

theorem alwaysCircular_of_plain
    (hRanges : ¬ sheet.ReachesRangeCycle t)
    (ht : t.relative = t)
    (h : Circular (sheet.readReference .empty [] t)) :
    sheet.AlwaysCircular t :=
  fun _ hPath => (refines_plain hRanges ht hPath).circular h

------------------------------------------------------------
-- Plain Reading
------------------------------------------------------------

/- Read other cells plainly, and one cell as circular. -/
def readAround
    (sheet : Sheet)
    (t : Address) : Reader :=
  fun y =>
    if y = t then .error (.circular t)
    else sheet.readReference .empty [] y

theorem readAround_self
    (sheet : Sheet)
    (t : Address) :
    sheet.readAround t t = .error (.circular t) :=
  if_pos rfl

theorem readAround_of_ne
    (h : y ≠ t) :
    sheet.readAround t y =
      sheet.readReference .empty [] y :=
  if_neg h

/-
  A formula that reads other cells plainly refines its plain
  reading. If that is circular, what it reads is circular or
  does not need the cell; otherwise nothing that it reads is
  circular, and so both are the same.
-/
theorem refines_readThrough_around
    (hRanges : ¬ sheet.ReachesRangeCycle t)
    (ht : t.relative = t) :
    Refines (sheet.readThrough (sheet.readAround t) t)
      (sheet.readReference .empty [] t) := by
  have hPlain :
      sheet.readReference .empty [] t =
        sheet.readThrough (sheet.readReference .empty [t])
          t := by
    rw [readReference_empty sheet List.not_mem_nil, ht]
  have hOwn :
      sheet.readAround t t =
        sheet.readReference .empty [t] t := by
    rw [readReference_of_mem (by simp [ht]), ht,
      readAround_self]
  have hOnPath :
      ∀ y, sheet.Refers Expr.targets t y →
        sheet.UnderWay [t] y := by
    intro y hRefers
    rw [← ht]
    exact UnderWay.nil.cons hRefers
  have hInRange :
      ∀ y, sheet.Refers Expr.rangeTargets t y → y ≠ t →
        sheet.readReference .empty [t] y =
          sheet.readReference .empty [] y := by
    intro y hRange hne
    have hRead := @readReference_of_range sheet .empty [] t y
      hRanges .nil ht hRange hne
    rw [ht] at hRead
    exact hRead
  have hBelow :
      ∀ y, sheet.Refers Expr.targets t y →
        ¬ sheet.ReachesRangeCycle y ∧ y.relative = y := by
    rintro y ⟨e, hExpr, hy⟩
    exact ⟨fun h => hRanges (h.of_refers ⟨e, hExpr, hy⟩),
      Expr.relative_of_mem_targets e hy⟩
  by_cases hCircular :
      Circular (sheet.readReference .empty [] t)
  · have hAlways := alwaysCircular_of_plain hRanges ht hCircular
    rw [hPlain]
    apply readThrough_refines hOwn
    · intro y hRefers hne
      rw [readAround_of_ne hne]
      apply refines_readReference_empty [] [t] y
        (hBelow y hRefers).1 (hBelow y hRefers).2 .nil
        (hOnPath y hRefers)
      intro w hw
      rw [List.mem_singleton.mp hw]
      exact Or.inr hAlways
    · intro y hRange hne
      rw [readAround_of_ne hne, hInRange y hRange hne]
      exact .refl _
  · have hReverse :
        Refines
          (sheet.readThrough (sheet.readReference .empty [t])
            t)
          (sheet.readThrough (sheet.readAround t) t) := by
      apply readThrough_refines hOwn.symm
      · intro y hRefers hne
        rw [readAround_of_ne hne]
        exact refines_plain (hBelow y hRefers).1
          (hBelow y hRefers).2 (hOnPath y hRefers)
      · intro y hRange hne
        rw [readAround_of_ne hne, hInRange y hRange hne]
        exact .refl _
    rw [← hPlain] at hReverse
    rcases hReverse with hSame | hOwnCircular
    · rw [← hSame]
      exact .refl _
    · exact absurd hOwnCircular hCircular

------------------------------------------------------------
-- Reading With Sound Knowledge
------------------------------------------------------------

/-
  Reading with something known refines plain reading, and is
  refined by reading with the same cells under evaluation
  and nothing known.
-/
structure Settled
    (sheet : Sheet)
    (known : CellMap Outcome)
    (visited : List Address)
    (t : Address) : Prop where
  above :
    Refines (sheet.readReference known visited t)
      (sheet.readReference .empty [] t)
  below :
    Refines (sheet.readReference .empty visited t)
      (sheet.readReference known visited t)

/- What is known is read as plain reading reads it. -/
theorem toResult_of_soundOn
    {source : String}
    {reading : Except FormulaError Expr}
    {outcome : Outcome}
    (hSound :
      sheet.SoundOn (fun x => ¬ sheet.ReachesRangeCycle x)
        known)
    (hRanges : ¬ sheet.ReachesRangeCycle t)
    (hContent :
      sheet.content? t = some (.formula source reading))
    (hGet : known.get? t = some outcome) :
    outcome.toResult = sheet.readReference .empty [] t := by
  rw [readReference_nil .empty hContent,
    hSound t source reading outcome hRanges hContent hGet]
  rfl

/-
  A formula settles, if all that it reads does while it is
  under evaluation.
-/
theorem settled_readThrough
    (known : CellMap Outcome)
    (hRanges : ¬ sheet.ReachesRangeCycle t)
    (ht : t.relative = t)
    (hPath : sheet.UnderWay visited t)
    (hTargets :
      ∀ y, sheet.Refers Expr.targets t y →
        sheet.Settled known (t.relative :: visited) y) :
    Refines
        (sheet.readThrough
          (sheet.readReference known (t.relative :: visited))
          t)
        (sheet.readReference .empty [] t)
      ∧ Refines
        (sheet.readThrough
          (sheet.readReference .empty (t.relative :: visited))
          t)
        (sheet.readThrough
          (sheet.readReference known (t.relative :: visited))
          t) := by
  have hOwn :
      ∀ known : CellMap Outcome,
        sheet.readReference known (t.relative :: visited) t =
          .error (.circular t) := by
    intro known
    rw [readReference_of_mem List.mem_cons_self, ht]
  have hInRange :
      ∀ y, sheet.Refers Expr.rangeTargets t y → y ≠ t →
        SameValue
          (sheet.readReference known (t.relative :: visited) y)
          (sheet.readReference .empty [] y) := by
    intro y hRange hne
    have hSettled := hTargets y
      (hRange.mono Expr.rangeTargets_subset_targets)
    have hBelow := hSettled.below
    rw [readReference_of_range hRanges hPath ht hRange hne]
      at hBelow
    exact hSettled.above.sameValue hBelow
  constructor
  · refine Refines.trans (readThrough_refines ?_ ?_ ?_)
      (refines_readThrough_around hRanges ht)
    · rw [hOwn, readAround_self]
    · intro y hRefers hne
      rw [readAround_of_ne hne]
      exact (hTargets y hRefers).above
    · intro y hRange hne
      rw [readAround_of_ne hne]
      exact hInRange y hRange hne
  · apply readThrough_refines
    · rw [hOwn, hOwn]
    · exact fun y hRefers _ => (hTargets y hRefers).below
    · intro y hRange hne v
      rw [readReference_of_range hRanges hPath ht hRange hne]
      exact (hInRange y hRange hne v).symm

/- With sound knowledge every reading settles. -/
theorem readReference_settled
    (hSound :
      sheet.SoundOn (fun x => ¬ sheet.ReachesRangeCycle x)
        known)
    (visited : List Address)
    (t : Address)
    (hRanges : ¬ sheet.ReachesRangeCycle t)
    (ht : t.relative = t)
    (hPath : sheet.UnderWay visited t) :
    sheet.Settled known visited t := by
  induction visited, t using reading_induction sheet with
  | step visited t ih =>
      by_cases hMem : t.relative ∈ visited
      · exact ⟨Or.inr (circular_of_mem hMem),
          Or.inr (circular_of_mem hMem)⟩
      · have ⟨hAbove, hBelow⟩ :=
          settled_readThrough known hRanges ht hPath
            fun y hRefers => by
              have ⟨e, hExpr, hy⟩ := hRefers
              apply ih hMem e hExpr y hy
              · exact fun h => hRanges (h.of_refers hRefers)
              · exact Expr.relative_of_mem_targets e hy
              · exact hPath.cons hRefers
        rcases readReference_cases sheet known hMem with
          ⟨source, reading, outcome, hContent, hGet, hRead⟩ |
          hRead
        · rw [toResult_of_soundOn hSound hRanges hContent hGet]
            at hRead
          refine ⟨?_, ?_⟩
          · rw [hRead]
            exact .refl _
          · rw [hRead]
            exact refines_plain hRanges ht hPath
        · refine ⟨?_, ?_⟩
          · rw [hRead]
            exact hAbove
          · rw [hRead, readReference_empty sheet hMem]
            exact hBelow

------------------------------------------------------------
-- Outcomes
------------------------------------------------------------

/- Outcomes of formulas that refine each other are equal. -/
theorem ofResult_eq_of_refines
    {r r' : Except FormulaError Value}
    (h :
      Refines (Outcome.ofResult r).toResult
        (Outcome.ofResult r').toResult)
    (h' :
      Refines (Outcome.ofResult r').toResult
        (Outcome.ofResult r).toResult) :
    Outcome.ofResult r = Outcome.ofResult r' := by
  have hInjective :
      ∀ o o' : Outcome, o.toResult = o'.toResult → o = o' := by
    rintro (v | ⟨code, message⟩) (v' | ⟨code', message'⟩) hEq
    all_goals cases hEq
    all_goals rfl
  have hCircular :
      ∀ x : Except FormulaError Value,
        Circular (Outcome.ofResult x).toResult →
          Outcome.ofResult x =
            .error ⟨.cycle, "Circular reference"⟩ := by
    rintro (e | v) ⟨err, hErr, hCode⟩
    · cases hErr
      have hOwn : e.code = .cycle := hCode
      simp only [Outcome.ofResult, CellError.ofFormulaError,
        hOwn]
    · cases hErr
  rcases h with hSame | hLeft
  · exact hInjective _ _ hSame
  · rcases h' with hSame | hRight
    · exact (hInjective _ _ hSame).symm
    · rw [hCircular r hLeft, hCircular r' hRight]

/- The outcome of a formula, by what it reads. -/
theorem outcome_of_formula
    {source : String}
    {reading : Except FormulaError Expr}
    (hContent :
      sheet.content? a = some (.formula source reading))
    (known : CellMap Outcome)
    (explain : Bool) :
    (sheet.evaluateCellWith known explain a).outcome =
      Outcome.ofResult
        (reading.bind fun e =>
          (e.evaluate
            (sheet.readReference known [a.relative])).outcome)
      := by
  rw [outcome_evaluateCellWith, evaluateCellWith_eq, hContent]
  cases reading with
  | error e => rfl
  | ok e =>
      dsimp only
      change _ = Outcome.ofResult
        (e.evaluate
          (sheet.readReference known [a.relative])).outcome
      split
      · next hOutcome => rw [hOutcome]
      · next hOutcome =>
          rw [hOutcome]
          rfl

/-
  Where no cycle runs through a range, the outcome of a cell
  does not depend on what is known of others, if it is right
  of those from which no such cycle is reached.
-/
theorem outcome_eq_plain
    (hSound :
      sheet.SoundOn (fun x => ¬ sheet.ReachesRangeCycle x)
        known)
    (hRanges : ¬ sheet.ReachesRangeCycle a)
    (explain : Bool) :
    (sheet.evaluateCellWith known explain a).outcome =
      (sheet.evaluateCell explain a).outcome := by
  rw [evaluateCell, ← evaluateCellWith_relative,
    ← evaluateCellWith_relative sheet .empty]
  have hRanges' : ¬ sheet.ReachesRangeCycle a.relative :=
    fun h => hRanges h.of_relative
  have ⟨hAbove, hBelow⟩ :=
    settled_readThrough known hRanges'
      (Address.relative_relative a) .nil fun y hRefers => by
        have ⟨e, hExpr, hy⟩ := hRefers
        apply readReference_settled hSound
        · exact fun h => hRanges' (h.of_refers hRefers)
        · exact Expr.relative_of_mem_targets e hy
        · exact UnderWay.nil.cons hRefers
  rw [readReference_empty sheet List.not_mem_nil] at hAbove
  cases hContent : sheet.content? a.relative with
  | none => simp only [evaluateCellWith_eq, hContent]
  | some content =>
      cases content with
      | literal value =>
          simp only [evaluateCellWith_eq, hContent]
      | error code message =>
          simp only [evaluateCellWith_eq, hContent]
      | formula source reading =>
          rw [outcome_of_formula hContent,
            outcome_of_formula hContent]
          unfold readThrough at hAbove hBelow
          rw [hContent] at hAbove hBelow
          exact ofResult_eq_of_refines hAbove hBelow

end Sheet

end Spreadsheet
