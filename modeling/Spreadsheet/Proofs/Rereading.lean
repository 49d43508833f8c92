import Mathlib
import Spreadsheet.Proofs.RangeCycles
import Spreadsheet.Proofs.Session

/-
  Reading a formula once more after its sheet was evaluated.
  Where no cycle runs through a range, this gives what was
  reported, on sheets with and without cycles: all that the
  engine has kept is plain. A range passes over a reference
  that is circular, and then a value is kept that depends on
  where the range was read from.

  Main declarations:
    * `Engine.plain_kept`
    * `Session.StableAt`
    * `Session.stableAt_of_not_reachesRangeCycle`
    * `Session.not_stableAt_detour`
-/

namespace Spreadsheet

------------------------------------------------------------
-- What Is Kept
------------------------------------------------------------

namespace Engine

variable {sheet : Sheet}

/- Evaluations keep plain outcomes outside of range cycles. -/
theorem plain_kept
    (explain : Bool)
    (among : Address → Prop) :
    KeptBy
      (sheet.SoundOn fun x => ¬ sheet.ReachesRangeCycle x)
      explain sheet among := by
  intro known b hb hSound _ x source reading outcome hx
    hContent hGet
  rcases CellMap.get?_insert_eq_some hGet with
    ⟨hxb, rfl⟩ | hBefore
  · rw [← Sheet.evaluateCellWith_congr_relative hxb,
      Sheet.outcome_eq_plain hSound hx]
    exact Sheet.outcome_evaluateCellWith _ _ _ _
  · exact hSound x source reading outcome hx hContent hBefore

/- The outcome of one more cell is kept if not circular. -/
theorem evaluateNext_of_evaluation
    {explain : Bool}
    {known : CellMap Outcome}
    {a : Address}
    {outcome : Outcome}
    {steps : Option (List Step)}
    (h :
      sheet.evaluateCellWith known explain a =
        ⟨outcome, steps⟩)
    (hCode : outcome.hasCode .cycle = false)
    (graph : DependencyGraph)
    (results : Results) :
    evaluateNext sheet (⟨explain, graph, known⟩, results) a =
      (⟨explain, graph, known.insert a outcome⟩,
        results.insert a ⟨outcome, steps⟩) := by
  unfold evaluateNext evaluateCell
  dsimp only
  rw [h, hCode]
  rfl

end Engine

------------------------------------------------------------
-- Stable Reports
------------------------------------------------------------

namespace Session

variable {s : Session} {a : Address}

/-
  Evaluating a cell once more, with what the evaluation of
  the sheet has kept, gives what was reported.
-/
def StableAt
    (s : Session)
    (a : Address) : Prop :=
  (s.engine.evaluateSheet s.sheet).1.get? a =
    some (s.evaluated.engine.evaluateCell s.evaluated.sheet
      a).outcome

/-
  Reports are stable for every formula from which no cycle
  is reached that runs through a range, and they are then
  what the formula comes to with nothing known.
-/
theorem stableAt_of_not_reachesRangeCycle
    (hFormula : Engine.holdsFormula s.sheet a = true)
    (hRanges : ¬ s.sheet.ReachesRangeCycle a) :
    StableAt s a
      ∧ ∀ explain,
        (s.engine.evaluateSheet s.sheet).1.get? a =
          some (s.sheet.evaluateCell explain a).outcome := by
  have hPass := Engine.evaluateSheet_pass s.engine
    (Sheet.soundOn_empty _)
    (Engine.plain_kept s.engine.explain
      fun x => Engine.holdsFormula s.sheet x = true)
  have hReport :
      ∀ explain,
        (s.engine.evaluateSheet s.sheet).1.get? a =
          some (s.sheet.evaluateCell explain a).outcome := by
    intro explain
    rcases hPass.covers a hFormula with
      ⟨known, hSound, hGet, -⟩
    rw [hGet, Sheet.outcome_evaluateCellWith,
      ← Sheet.outcome_evaluateCellWith _ _ explain,
      Sheet.outcome_eq_plain hSound hRanges]
  refine ⟨?_, hReport⟩
  have hKnown :
      s.sheet.SoundOn (fun x => ¬ s.sheet.ReachesRangeCycle x)
        s.evaluated.engine.known :=
    hPass.known
  unfold StableAt Engine.evaluateCell
  rw [sheet_evaluated, Sheet.evaluateCellWith_parseFormulas,
    Sheet.outcome_eq_plain hKnown hRanges]
  exact hReport _

/-
  A formula that reads a range next to a cycle: one of the
  cells reads itself, and the other one is a literal.
-/
def besideSheet : Sheet :=
  { Sheet.blank "Beside" 2 2 .epoch with
    cells := CellMap.ofList
      [(.ofPosition 0 0,
          .formula "=B1:B2"
            (some (.range (.ofPosition 0 1)
              (.ofPosition 1 1)))),
        (.ofPosition 0 1,
          .formula "=B1" (some (.cell (.ofPosition 0 1)))),
        (.ofPosition 1 1, .literal (.boolean true))] }

def beside : Session :=
  ⟨Engine.new false, besideSheet⟩

/- Its formulas are a range and a self-reference. -/
theorem expr?_besideSheet
    {x : Address}
    {e : Expr}
    (h : besideSheet.expr? x = some e) :
    x.relative = .ofPosition 0 0
        ∧ e = .range (.ofPosition 0 1) (.ofPosition 1 1)
      ∨ e = .cell (.ofPosition 0 1) := by
  unfold Sheet.expr? Sheet.content? Sheet.get? besideSheet
    at h
  simp only [CellMap.ofList, List.foldl_cons, List.foldl_nil,
    CellMap.get?_insert] at h
  split at h
  · cases h
  · split at h
    · cases h
      exact Or.inr rfl
    · split at h
      · next hFirst =>
          cases h
          exact Or.inl ⟨hFirst, rfl⟩
      · cases h

/- No formula reads the first one. -/
theorem not_reachesRangeCycle_besideSheet :
    ¬ besideSheet.ReachesRangeCycle (.ofPosition 0 0) := by
  rintro ⟨x, y, -, ⟨e, hExpr, hy⟩, hne, hBack⟩
  have hFirst : x.relative = .ofPosition 0 0 := by
    rcases expr?_besideSheet hExpr with ⟨hx, -⟩ | rfl
    · exact hx
    · cases hy
  rcases Relation.ReflTransGen.cases_tail hBack with
    heq | ⟨z, -, e', hExpr', hMem⟩
  · exact hne heq.symm
  · rw [hFirst] at hMem
    rcases expr?_besideSheet hExpr' with ⟨-, rfl⟩ | rfl
    · exact absurd hMem (by decide)
    · exact absurd hMem (by decide)

/- The range passes over the self-reference both times. -/
theorem evaluateCell_beside :
    (beside.evaluated.engine.evaluateCell
        beside.evaluated.sheet (.ofPosition 0 0)).outcome =
      .value (.boolean true) := by
  have hStable := @stableAt_of_not_reachesRangeCycle beside
    (.ofPosition 0 0) (by decide)
    not_reachesRangeCycle_besideSheet
  have hValue :
      (besideSheet.evaluateCell false
        (.ofPosition 0 0)).outcome =
          .value (.boolean true) := by
    cbv
  have hReport := hStable.2 false
  rw [hStable.1] at hReport
  exact (Option.some.inj hReport).trans hValue

------------------------------------------------------------
-- A Range Around A Cycle
------------------------------------------------------------

/-
  A formula reads a range with a formula that reads it, and
  a literal.
-/
def detourSheet : Sheet :=
  { Sheet.blank "Detour" 2 2 .epoch with
    cells := CellMap.ofList
      [(.ofPosition 0 0,
          .formula "=B1:B2"
            (some (.range (.ofPosition 0 1)
              (.ofPosition 1 1)))),
        (.ofPosition 0 1,
          .formula "=IF(A1,FALSE,TRUE)"
            (some (.call "IF" [.cell (.ofPosition 0 0),
              .boolean false, .boolean true]))),
        (.ofPosition 1 1, .literal (.boolean true))] }

def detour : Session :=
  ⟨Engine.new false, detourSheet⟩

/- What is known once the second formula was evaluated. -/
def detourFirst : CellMap Outcome :=
  CellMap.empty.insert (.ofPosition 0 1)
    (.value (.boolean false))

/- What is known once both were evaluated. -/
def detourKnown : CellMap Outcome :=
  detourFirst.insert (.ofPosition 0 0)
    (.value (.boolean false))

/- The edge from the second formula is left out. -/
theorem sheetPassOf_detour :
    Engine.sheetPassOf detourSheet =
      [.ofPosition 0 1, .ofPosition 0 0] := by
  cbv

/- The range passes over the formula that reads it. -/
theorem evaluateCellWith_detour_second :
    detourSheet.parseFormulas.evaluateCellWith .empty false
        (.ofPosition 0 1) =
      ⟨.value (.boolean false), none⟩ := by
  rw [Sheet.evaluateCellWith_parseFormulas]
  cbv

/- Then the range takes that formula into account. -/
theorem evaluateCellWith_detour_first :
    detourSheet.parseFormulas.evaluateCellWith detourFirst
        false (.ofPosition 0 0) =
      ⟨.value (.boolean false), none⟩ := by
  rw [Sheet.evaluateCellWith_parseFormulas]
  cbv

/- Both are known as false, and reported so. -/
theorem evaluateSheet_detour :
    detour.evaluated.engine.known = detourKnown
      ∧ (detour.engine.evaluateSheet detour.sheet).1.get?
          (.ofPosition 0 1) =
        some (.value (.boolean false)) := by
  unfold evaluated
  rw [Engine.evaluateSheet_eq]
  dsimp only [detour, Engine.fresh, Engine.new]
  rw [sheetPassOf_detour]
  have hFirst := evaluateCellWith_detour_first
  unfold detourFirst at hFirst
  unfold Engine.evaluateCells
  rw [List.foldl_cons,
    Engine.evaluateNext_of_evaluation
      evaluateCellWith_detour_second rfl,
    List.foldl_cons,
    Engine.evaluateNext_of_evaluation hFirst rfl,
    List.foldl_nil]
  constructor
  · rfl
  · cbv

/- So the second formula reads another value of the first. -/
theorem evaluateCellWith_detour_again :
    (detourSheet.evaluateCellWith detourKnown false
        (.ofPosition 0 1)).outcome =
      .value (.boolean true) := by
  cbv

/-
  The second formula is evaluated first. The range that it
  reads passes over it, and leaves the literal. This value
  is kept, but the first formula then reads the range as it
  is, and has another value when the second one is read once
  more.
-/
theorem not_stableAt_detour :
    Engine.holdsFormula detour.sheet (.ofPosition 0 1) = true
      ∧ ¬ StableAt detour (.ofPosition 0 1) := by
  refine ⟨by decide, fun hStable => ?_⟩
  have ⟨hKnown, hReport⟩ := evaluateSheet_detour
  unfold StableAt Engine.evaluateCell at hStable
  rw [hReport, hKnown, sheet_evaluated,
    Sheet.evaluateCellWith_parseFormulas,
    Sheet.outcome_evaluateCellWith] at hStable
  have hSame :=
    (Option.some.inj hStable).trans
      evaluateCellWith_detour_again
  cases hSame

end Session

end Spreadsheet
