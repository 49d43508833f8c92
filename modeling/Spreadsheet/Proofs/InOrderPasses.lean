import Spreadsheet.Proofs.Readiness
import Spreadsheet.Proofs.RecalculationOrder
import Spreadsheet.Proofs.Transparency

/-
  Passes that never go deeper. When a pass over a tidy sheet
  comes to a cell, then every formula that the cell refers
  to was evaluated before in the same pass, or is known from
  an earlier one. So evaluating a cell never starts on
  another one.

  Key definitions include:
    * `Session.editPass`
    * `Session.Filled`

  The main result is `Session.passes_in_order`.
-/

namespace Spreadsheet

open Relation DependencyGraph

------------------------------------------------------------
-- Orders Of Tidy Sheets
------------------------------------------------------------

namespace Engine

variable {sheet : Sheet}
variable {cells : List Address}

/- Cells after which the graph has no edges they refer to. -/
theorem pairwise_not_refers
    {g : DependencyGraph}
    (hMirrored : g.Mirrored)
    (hDraws : Draws Expr.targets g sheet)
    (hKeys : ∀ a ∈ cells, a.relative = a)
    (hOrder : cells.Pairwise fun a b => b ∉ g.readsOf a) :
    cells.Pairwise fun a b =>
      ¬ sheet.Refers Expr.targets a b := by
  refine hOrder.imp_of_mem ?_
  intro a b ha hb hNot hRefers
  apply hNot
  rw [hMirrored.mem_readsOf_iff]
  refine ⟨hKeys b hb, (hDraws b _).mpr ?_⟩
  rw [hKeys b hb, hKeys a ha]
  exact ⟨hKeys a ha, hRefers⟩

/- On a tidy sheet there are no other formulas. -/
theorem sheetOrder_eq
    (hTidy : sheet.Tidy)
    (graph : DependencyGraph) :
    sheetOrder graph sheet =
      graph.evaluationOrder
        ((parsedFormulas sheet).map (·.1)) := by
  have hFailures : sheet.parseFailures = [] := by
    apply List.eq_nil_iff_forall_not_mem.mpr
    intro p hp
    rcases (Sheet.mem_parseFailures_iff.mp hp).2 with
      ⟨source, hContent⟩
    exact hTidy.readable p.1 source p.2 hContent
  unfold sheetOrder
  rw [hFailures, List.map_nil, List.append_nil]

/-
  The order of a tidy sheet lists each formula once, and
  none before one that it refers to.
-/
theorem sheetOrder_in_order
    (hTidy : sheet.Tidy)
    (hRead : sheet.AllRead) :
    (sheetOrder (graphOf sheet) sheet).Nodup
      ∧ (sheetOrder (graphOf sheet) sheet).Pairwise
        fun a b => ¬ sheet.Refers Expr.targets a b := by
  have hGraph := WellFormed.graphOf sheet
  have hSchedule := evaluationOrder_of_acyclic
    hGraph.mirrored hGraph.acyclic
    (fun _ => relative_of_mem_parsedFormulas hRead)
    (nodup_parsedFormulas sheet)
  rw [← sheetOrder_eq hTidy] at hSchedule
  refine ⟨hSchedule.1, ?_⟩
  apply pairwise_not_refers hGraph.mirrored
    (draws_graphOf hRead hTidy.linkable)
  · intro a ha
    exact relative_of_mem_sheetOrder ha
  · exact hSchedule.2

end Engine

------------------------------------------------------------
-- Passes Of A Run
------------------------------------------------------------

namespace Session

variable {s : Session}
variable {a : Address}
variable {cell : Option Cell}
variable {now : Timestamp}

/- The cells that an edit goes through. -/
def editPass
    (s : Session)
    (a : Address)
    (cell : Option Cell)
    (now : Timestamp) : List Address :=
  (s.recalculation a cell now).order.filter
    (Engine.holdsFormula (s.edited a cell now).sheet)

theorem evaluateCells_sheetPassOf
    (s : Session) :
    (s.engine.fresh s.sheet).evaluateCells s.evaluated.sheet
        (Engine.sheetPassOf s.sheet) =
      (s.evaluated.engine,
        (s.engine.evaluateSheet s.sheet).1) := by
  unfold evaluated
  rw [Engine.evaluateSheet_eq]

theorem evaluateCells_editPass
    (s : Session)
    (a : Address)
    (cell : Option Cell)
    (now : Timestamp) :
    (s.engine.afterEdit s.sheet a cell).evaluateCells
        (s.edited a cell now).sheet (s.editPass a cell now) =
      ((s.edited a cell now).engine,
        (s.recalculation a cell now).results) := by
  have hCells :
      (s.edited a cell now).sheet.cells =
        (Engine.storeCell s.sheet a cell).cells := by
    rw [sheet_edited]
    rfl
  rw [Engine.evaluateCells_of_cells hCells]
  unfold editPass edited recalculation
  rw [Engine.update_eq]
  rfl

/-
  What holds of what is known in every session of a run on
  tidy sheets: every formula is, and none is circular.
-/
structure Filled
    (s : Session) : Prop where
  circular : Sheet.NoneCircular s.engine.known
  formulas :
    ∀ x, Engine.holdsFormula s.sheet x = true →
      (s.engine.known.get? x).isSome = true

/- A pass over all that is not known fills a session. -/
theorem filled_of_pass
    {s' : Session}
    {start : Engine}
    {among : Address → Prop}
    {cells : List Address}
    {results : Results}
    (hTidy : s'.sheet.Tidy)
    (hStart : Sheet.NoneCircular start.known)
    (hPass :
      Engine.PassInOrder start s'.sheet among cells s'.engine
        results)
    (hCovers :
      ∀ y, Engine.holdsFormula s'.sheet y = true →
        y.relative ∈ cells
          ∨ (start.known.get? y).isSome = true) :
    Filled s' := by
  have hKnown := Engine.known_evaluateCells hTidy hStart cells
  rw [hPass.run] at hKnown
  refine ⟨hKnown.1, ?_⟩
  intro x hFormula
  rw [hKnown.2]
  rcases hCovers x hFormula with hMem | hBefore
  · exact Or.inl (List.mem_map.mpr ⟨x.relative, hMem, rfl⟩)
  · exact Or.inr hBefore

/- Evaluating a tidy sheet is a pass in order. -/
theorem evaluated_inOrder
    (hTidy : s.evaluated.sheet.Tidy) :
    Engine.PassInOrder (s.engine.fresh s.sheet)
        s.evaluated.sheet
        (fun x =>
          Engine.holdsFormula s.evaluated.sheet x = true)
        (Engine.sheetPassOf s.sheet) s.evaluated.engine
        (s.engine.evaluateSheet s.sheet).1
      ∧ Filled s.evaluated := by
  have hOrder :=
    Engine.sheetOrder_in_order hTidy s.allRead_evaluated
  have hMem :
      ∀ x, x ∈ Engine.sheetPassOf s.sheet ↔
        x.relative = x
          ∧ Engine.holdsFormula s.evaluated.sheet x = true :=
    fun _ => Engine.mem_sheetOrder _ s.allRead_evaluated
  have hStart :
      Sheet.NoneCircular
        (s.engine.fresh s.sheet).known := by
    intro x outcome hGet
    cases hGet
  have hCovers :
      ∀ y, Engine.holdsFormula s.evaluated.sheet y = true →
        y.relative ∈ Engine.sheetPassOf s.sheet
          ∨ ((s.engine.fresh s.sheet).known.get? y).isSome
            = true := by
    intro y hFormula
    refine Or.inl ((hMem _).mpr ⟨rfl, ?_⟩)
    rw [Sheet.holdsFormula_congr
      (Sheet.content?_relative _ y)]
    exact hFormula
  have hPass :
      Engine.PassInOrder (s.engine.fresh s.sheet)
        s.evaluated.sheet
        (fun x =>
          Engine.holdsFormula s.evaluated.sheet x = true)
        (Engine.sheetPassOf s.sheet) s.evaluated.engine
        (s.engine.evaluateSheet s.sheet).1 :=
    { run := s.evaluateCells_sheetPassOf
      once := hOrder.1
      members := hMem
      ready := Engine.ready_of_order hTidy hStart hOrder.2
        hCovers }
  exact ⟨hPass, filled_of_pass hTidy hStart hPass hCovers⟩

theorem order_recalculation
    (s : Session)
    (a : Address)
    (cell : Option Cell)
    (now : Timestamp) :
    let graph := (s.engine.afterEdit s.sheet a cell).graph
    (s.recalculation a cell now).order =
      graph.evaluationOrder (graph.dependents a) := by
  unfold recalculation
  rw [Engine.update_eq]

/- An edit goes through the formulas that it affects. -/
theorem mem_editPass_iff
    {b : Address} :
    b ∈ s.editPass a cell now ↔
      b.relative = b ∧ s.engine.Affected s.sheet a cell b := by
  unfold editPass Engine.Affected
  rw [List.mem_filter, order_recalculation,
    mem_order_dependents_iff, sheet_edited]
  constructor
  · rintro ⟨hDependent, hFormula⟩
    have hKey := relative_of_mem_dependents hDependent
    refine ⟨hKey, ?_, hFormula⟩
    rw [hKey]
    exact hDependent
  · rintro ⟨hKey, hDependent, hFormula⟩
    rw [hKey] at hDependent
    exact ⟨hDependent, hFormula⟩

/- It does so once, and to none before one it refers to. -/
theorem editPass_in_order
    (hExact : Exact s)
    (hGraph : s.engine.graph.WellFormed)
    (hOrderly : (s.edited a cell now).sheet.Orderly) :
    (s.editPass a cell now).Nodup
      ∧ (s.editPass a cell now).Pairwise fun b c =>
        ¬ (s.edited a cell now).sheet.Refers Expr.targets b c
      := by
  have hEdited :
      (s.engine.afterEdit s.sheet a cell).graph.WellFormed :=
    hGraph.relink _ a
  have hSchedule := evaluationOrder_of_acyclic
    hEdited.mirrored hEdited.acyclic
    (fun _ hb => relative_of_mem_dependents hb)
    (nodup_dependents
      (s.engine.afterEdit s.sheet a cell).graph a)
  rw [← order_recalculation s a cell now] at hSchedule
  constructor
  · exact hSchedule.1.filter _
  · exact Engine.pairwise_not_refers hEdited.mirrored
      (draws_afterEdit hExact hOrderly)
      (fun b hb => (mem_editPass_iff.mp hb).1)
      (hSchedule.2.filter _)

/-
  What an edit does not evaluate again was known before, and
  stays known.
-/
theorem mem_editPass_or_known
    (hFilled : Filled s)
    {y : Address}
    (hFormula :
      Engine.holdsFormula (s.edited a cell now).sheet y
        = true) :
    y.relative ∈ s.editPass a cell now
      ∨ ((s.engine.afterEdit s.sheet a cell).known.get? y
        ).isSome = true := by
  by_cases hDependent :
      y.relative ∈
        (s.engine.afterEdit s.sheet a cell).graph.dependents a
  · left
    rw [sheet_edited] at hFormula
    exact mem_editPass_iff.mpr ⟨rfl, hDependent, hFormula⟩
  · right
    have hOther : y.relative ≠ a.relative := by
      intro hSame
      rw [hSame] at hDependent
      exact hDependent (relative_mem_dependents _ a)
    rw [Engine.get?_known_afterEdit, if_neg hDependent]
    apply hFilled.formulas
    rw [← Sheet.holdsFormula_congr
      (content?_edited_of_ne hOther)]
    exact hFormula

/- An edit that leaves a tidy sheet is a pass in order. -/
theorem edited_inOrder
    (hExact : Exact s)
    (hGraph : s.engine.graph.WellFormed)
    (hFilled : Filled s)
    (hTidy : (s.edited a cell now).sheet.Tidy) :
    Engine.PassInOrder (s.engine.afterEdit s.sheet a cell)
        (s.edited a cell now).sheet
        (s.engine.Affected s.sheet a cell)
        (s.editPass a cell now) (s.edited a cell now).engine
        (s.recalculation a cell now).results
      ∧ Filled (s.edited a cell now) := by
  have hOrder :=
    editPass_in_order hExact hGraph hTidy.toOrderly
  have hStart :
      Sheet.NoneCircular
        (s.engine.afterEdit s.sheet a cell).known := by
    intro x outcome hGet
    exact hFilled.circular x outcome
      (kept_of_get?_afterEdit hGet).2
  have hPass :
      Engine.PassInOrder (s.engine.afterEdit s.sheet a cell)
        (s.edited a cell now).sheet
        (s.engine.Affected s.sheet a cell)
        (s.editPass a cell now) (s.edited a cell now).engine
        (s.recalculation a cell now).results :=
    { run := s.evaluateCells_editPass a cell now
      once := hOrder.1
      members := fun b => mem_editPass_iff
      ready := Engine.ready_of_order hTidy hStart hOrder.2
        fun y => mem_editPass_or_known hFilled }
  refine ⟨hPass, filled_of_pass hTidy hStart hPass ?_⟩
  exact fun y => mem_editPass_or_known hFilled

/- Every session of a run on tidy sheets is filled. -/
theorem filled_of_run
    (hRun : Run JustEvaluated Sheet.Tidy s) : Filled s := by
  induction hRun with
  | start hStart hSheet =>
      rcases hStart with ⟨before, rfl⟩
      exact (evaluated_inOrder hSheet).2
  | evaluated hRun hSheet ih =>
      exact (evaluated_inOrder hSheet).2
  | edited hRun a cell now hSheet ih =>
      have hExact :=
        (exact_of_run (hRun.mono fun _ h => h.toOrderly)).1
      exact (edited_inOrder hExact
        (linked_of_run hRun).wellFormed ih hSheet).2

/-
  In a run that starts by evaluating a sheet and whose
  sheets are all tidy, every pass is in order. Evaluating
  the sheet evaluates all its formulas, and an edit those
  that it affects, each of them once, and never a formula
  while another one is evaluated.
-/
theorem passes_in_order :
    (∀ s : Session, s.evaluated.sheet.Tidy →
      Engine.PassInOrder (s.engine.fresh s.sheet)
        s.evaluated.sheet
        (fun x =>
          Engine.holdsFormula s.evaluated.sheet x = true)
        (Engine.sheetPassOf s.sheet) s.evaluated.engine
        (s.engine.evaluateSheet s.sheet).1)
    ∧ ∀ s, Run JustEvaluated Sheet.Tidy s →
      ∀ a cell now, (s.edited a cell now).sheet.Tidy →
        Engine.PassInOrder
          (s.engine.afterEdit s.sheet a cell)
          (s.edited a cell now).sheet
          (s.engine.Affected s.sheet a cell)
          (s.editPass a cell now)
          (s.edited a cell now).engine
          (s.recalculation a cell now).results := by
  constructor
  · intro s hTidy
    exact (evaluated_inOrder hTidy).1
  · intro s hRun a cell now hTidy
    have hExact :=
      (exact_of_run (hRun.mono fun _ h => h.toOrderly)).1
    exact (edited_inOrder hExact
      (linked_of_run hRun).wellFormed (filled_of_run hRun)
      hTidy).1

end Session

------------------------------------------------------------
-- Sheets That Are Read Downwards
------------------------------------------------------------

namespace Sheet

/-
  A content that makes a sheet tidy in its place: a formula
  without ranges refers to rows below its own.
-/
def Downward
    (a : Address) : Content → Prop
  | .literal _ => True
  | .error code _ => code ≠ .cycle
  | .formula _ (.error _) => False
  | .formula _ (.ok e) =>
      e.ranges = [] ∧ ∀ y ∈ e.targets, a.row < y.row

/- A sheet with such contents alone is tidy. -/
theorem tidy_of_downward
    {sheet : Sheet}
    (h :
      ∀ a content, sheet.content? a = some content →
        Downward a content) : sheet.Tidy := by
  have hFormula :
      ∀ a e, sheet.expr? a = some e →
        e.ranges = [] ∧ ∀ y ∈ e.targets, a.row < y.row := by
    intro a e hExpr
    rcases content?_of_expr? hExpr with ⟨source, hContent⟩
    exact h a _ hContent
  have hBelow :
      ∀ a b, TransGen (sheet.Refers Expr.targets) a b →
        a.row < b.row := by
    intro a b hPath
    induction hPath with
    | single hRefers =>
        rcases hRefers with ⟨e, hExpr, hMem⟩
        exact (hFormula _ e hExpr).2 _ hMem
    | tail _ hRefers ih =>
        rcases hRefers with ⟨e, hExpr, hMem⟩
        exact UInt32.lt_trans ih
          ((hFormula _ e hExpr).2 _ hMem)
  refine ⟨⟨?_, ?_⟩, ?_, ?_⟩
  · intro a hCycle
    exact UInt32.lt_irrefl _ (hBelow a a hCycle)
  · intro a e hExpr p hp
    rw [(hFormula a e hExpr).1] at hp
    cases hp
  · intro a source e hContent
    exact h a _ hContent
  · intro a message hContent
    exact h a _ hContent rfl

end Sheet

namespace Session

/-
  A sheet on which one formula reads another one, which
  reads a truth value.
-/
def chainSheet : Sheet :=
  { Sheet.blank "Chain" 3 1 .epoch with
    cells := CellMap.ofList
      [(.ofPosition 0 0,
          .formula "=A2" (some (.cell (.ofPosition 1 0)))),
        (.ofPosition 1 0,
          .formula "=A3" (some (.cell (.ofPosition 2 0)))),
        (.ofPosition 2 0, .literal (.boolean true))] }

theorem downward_chainSheet
    {a : Address}
    {content : Content}
    (h : chainSheet.content? a = some content) :
    Sheet.Downward a content := by
  unfold Sheet.content? Sheet.get? chainSheet at h
  simp only [CellMap.ofList, List.foldl_cons, List.foldl_nil,
    CellMap.get?_insert] at h
  split at h
  · cases h
    trivial
  · split at h
    · next hSecond =>
        cases h
        refine ⟨rfl, fun y hy => ?_⟩
        rw [List.mem_singleton.mp hy,
          show a.row = 1 from congrArg Address.row hSecond]
        decide
    · split at h
      · next hFirst =>
          cases h
          refine ⟨rfl, fun y hy => ?_⟩
          rw [List.mem_singleton.mp hy,
            show a.row = 0 from congrArg Address.row hFirst]
          decide
      · cases h

/- The session in which that sheet was evaluated. -/
def chained : Session :=
  evaluated ⟨Engine.new false, chainSheet⟩

theorem tidy_chained : chained.sheet.Tidy := by
  apply Sheet.tidy_of_downward
  intro a content hContent
  unfold chained at hContent
  rw [sheet_evaluated, Sheet.content?_parseFormulas]
    at hContent
  exact downward_chainSheet hContent

/- Where and to what the truth value is changed then. -/
def switchedOff : Address × Option Cell :=
  (.ofPosition 2 0, some (.literal (.boolean false)))

/- After that both formulas are evaluated, the lower first. -/
theorem editPass_chained :
    chained.editPass switchedOff.1 switchedOff.2 .epoch =
      [.ofPosition 1 0, .ofPosition 0 0] := by
  unfold editPass
  rw [order_recalculation, sheet_edited]
  unfold Engine.afterEdit
  dsimp only
  unfold chained
  rw [graph_evaluated, sheet_evaluated]
  cbv

theorem tidy_edited_chained :
    (chained.edited switchedOff.1 switchedOff.2 .epoch
      ).sheet.Tidy := by
  apply Sheet.tidy_of_downward
  intro a content hContent
  rw [content?_edited] at hContent
  split at hContent
  · cases hContent
    trivial
  · unfold chained at hContent
    rw [sheet_evaluated, Sheet.content?_parseFormulas]
      at hContent
    exact downward_chainSheet hContent

/-
  At first no formula is evaluated twice, and after the
  change the upper one is with what it reads known.
-/
theorem ready_chained :
    (Engine.sheetPassOf chainSheet).Nodup
      ∧ (chained.edited switchedOff.1 switchedOff.2 .epoch
        ).sheet.Ready
          ((chained.engine.afterEdit chained.sheet
              switchedOff.1 switchedOff.2).evaluateCells
            (chained.edited switchedOff.1 switchedOff.2 .epoch
              ).sheet [.ofPosition 1 0]).1.known
          (.ofPosition 0 0) := by
  have hRun : Run JustEvaluated Sheet.Tidy chained :=
    .start ⟨_, rfl⟩ tidy_chained
  have hFirst := passes_in_order.1
    ⟨Engine.new false, chainSheet⟩ tidy_chained
  have hPass := passes_in_order.2 chained hRun switchedOff.1
    switchedOff.2 .epoch tidy_edited_chained
  exact ⟨hFirst.once, hPass.ready [.ofPosition 1 0]
    (.ofPosition 0 0) [] editPass_chained⟩

end Session

end Spreadsheet
