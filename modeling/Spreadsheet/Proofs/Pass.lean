import Mathlib.Data.List.Induction
import Spreadsheet.Proofs.Dependents
import Spreadsheet.Proofs.EvaluationOrder
import Spreadsheet.Proofs.PlainEvaluation

/-
  Passes over cells: evaluating one cell after another and
  keeping what is found. A property of what is known that
  each evaluation keeps holds during the whole pass, and
  what is reported of a cell is what it evaluates to with
  something known that has the property.

  Main declarations:
    * `Engine.Pass`
    * `Engine.evaluateCells_pass`
    * `Engine.sheetPassOf`
    * `Engine.evaluateSheet_eq` and `Engine.evaluateSheet_pass`
    * `Engine.update_eq` and `Engine.update_pass`
-/

namespace Spreadsheet

namespace Engine

open DependencyGraph

variable {holds : CellMap Outcome → Prop}
variable {start engine : Engine}
variable {sheet : Sheet}
variable {among : Address → Prop}

------------------------------------------------------------
-- Passes
------------------------------------------------------------

/-
  What holds after a pass over the cells of a set, for a
  property of what is known: the engine is the same but for
  what it knows, there are reports of these cells and no
  others, and each report is what the cell evaluates to with
  something known that has the property.
-/
structure Pass
    (holds : CellMap Outcome → Prop)
    (start : Engine)
    (sheet : Sheet)
    (among : Address → Prop)
    (after : Engine)
    (results : Results) : Prop where
  explain : after.explain = start.explain
  graph : after.graph = start.graph
  known : holds after.known
  covers :
    ∀ a, among a →
      ∃ known, holds known ∧
        results.get? a =
          some (sheet.evaluateCellWith known start.explain
            a).outcome ∧
        ∀ steps,
          (sheet.evaluateCellWith known start.explain
            a).steps = some steps →
          results.steps.get? a = some steps
  outcomes :
    ∀ a outcome, results.get? a = some outcome →
      among a ∧
        ∃ known, holds known ∧
          (sheet.evaluateCellWith known start.explain
            a).outcome = outcome
  steps :
    ∀ a steps, results.steps.get? a = some steps →
      among a ∧
        ∃ known, holds known ∧
          (sheet.evaluateCellWith known start.explain
            a).steps = some steps

/-
  A property of what is known that each evaluation of a cell
  keeps. The outcome is kept unless it is circular.
-/
def KeptBy
    (holds : CellMap Outcome → Prop)
    (explain : Bool)
    (sheet : Sheet)
    (among : Address → Prop) : Prop :=
  ∀ known a, among a → holds known →
    (sheet.evaluateCellWith known explain a).outcome.hasCode
      .cycle = false →
    holds (known.insert a
      (sheet.evaluateCellWith known explain a).outcome)

/- What is known after one more cell was evaluated. -/
theorem known_evaluateNext
    (among : Address → Prop)
    {state : Engine × Results}
    {a : Address}
    (hKept : KeptBy holds state.1.explain sheet among)
    (ha : among a)
    (hKnown : holds state.1.known) :
    holds (evaluateNext sheet state a).1.known := by
  simp only [evaluateNext]
  split
  · exact hKnown
  · next hCode =>
      have hOther :
          (state.1.evaluateCell sheet a).outcome.hasCode
            .cycle = false := by
        simpa using hCode
      exact hKept _ a ha hKnown hOther

/- The reports after one more cell was evaluated. -/
theorem get?_evaluateNext
    (state : Engine × Results)
    (a b : Address) :
    (evaluateNext sheet state a).2.get? b =
      if b.relative = a.relative then
        some (sheet.evaluateCellWith state.1.known
          state.1.explain b).outcome
      else state.2.get? b := by
  simp only [evaluateNext, Results.get?, Results.insert,
    CellMap.get?_insert]
  by_cases h : b.relative = a.relative
  · simp only [h, ↓reduceIte, evaluateCell]
    rw [Sheet.evaluateCellWith_congr_relative h]
  · simp only [h, ↓reduceIte]

/- The steps after one more cell was evaluated. -/
theorem steps_evaluateNext
    (state : Engine × Results)
    (a b : Address) :
    (evaluateNext sheet state a).2.steps.get? b =
      if b.relative = a.relative then
        (sheet.evaluateCellWith state.1.known
          state.1.explain b).steps.or
            (state.2.steps.get? b)
      else state.2.steps.get? b := by
  simp only [evaluateNext, Results.insert, evaluateCell]
  by_cases h : b.relative = a.relative
  · rw [if_pos h, Sheet.evaluateCellWith_congr_relative h]
    split
    · next steps hSome =>
        rw [hSome, CellMap.get?_insert, if_pos h]
        rfl
    · next hNone =>
        rw [hNone]
        rfl
  · rw [if_neg h]
    split
    · rw [CellMap.get?_insert, if_neg h]
    · rfl

/-
  A property that each evaluation keeps makes a pass, if it
  holds at its start. The induction is on the cells from the
  last to the first.
-/
theorem evaluateCells_pass
    (start : Engine)
    {cells : List Address}
    (hStart : holds start.known)
    (hKept :
      KeptBy holds start.explain sheet fun a =>
        a.relative ∈ cells.map Address.relative) :
    Pass holds start sheet
      (fun a => a.relative ∈ cells.map Address.relative)
      (start.evaluateCells sheet cells).1
      (start.evaluateCells sheet cells).2 := by
  unfold evaluateCells
  induction cells using List.reverseRecOn with
  | nil =>
      exact ⟨rfl, rfl, hStart,
        fun a ha => absurd ha List.not_mem_nil,
        fun a outcome h => by
          simp [Results.empty, Results.get?] at h,
        fun a steps h => by simp [Results.empty] at h⟩
  | append_singleton cells a ih =>
      have hMem :
          ∀ b : Address, b.relative ∈
              (cells ++ [a]).map Address.relative ↔
            b.relative ∈ cells.map Address.relative
              ∨ b.relative = a.relative := by
        intro b
        rw [List.map_append, List.mem_append]
        exact Iff.or Iff.rfl List.mem_singleton
      have hBefore := ih fun known b hb =>
        hKept known b ((hMem b).mpr (Or.inl hb))
      rw [List.foldl_append, List.foldl_cons, List.foldl_nil]
      generalize cells.foldl (evaluateNext sheet)
        (start, Results.empty) = state at hBefore
      have hExplain := hBefore.explain
      refine ⟨hExplain, hBefore.graph, ?_, ?_, ?_, ?_⟩
      · refine known_evaluateNext (fun b =>
            b.relative ∈ (cells ++ [a]).map Address.relative)
          ?_ ?_ hBefore.known
        · rw [hExplain]
          exact hKept
        · exact (hMem a).mpr (Or.inr rfl)
      · intro b hb
        rw [get?_evaluateNext, steps_evaluateNext, hExplain]
        by_cases hab : b.relative = a.relative
        · refine ⟨state.1.known, hBefore.known, ?_, ?_⟩
          · rw [if_pos hab]
          · intro steps hSteps
            rw [if_pos hab, hSteps]
            rfl
        · rw [if_neg hab, if_neg hab]
          exact hBefore.covers b
            (((hMem b).mp hb).resolve_right hab)
      · intro b outcome hGet
        rw [get?_evaluateNext, hExplain] at hGet
        split at hGet
        · next hab =>
            exact ⟨(hMem b).mpr (Or.inr hab), state.1.known,
              hBefore.known, Option.some.inj hGet⟩
        · have ⟨hb, hReport⟩ :=
            hBefore.outcomes b outcome hGet
          exact ⟨(hMem b).mpr (Or.inl hb), hReport⟩
      · intro b steps hGet
        rw [steps_evaluateNext, hExplain] at hGet
        split at hGet
        · next hab =>
            refine ⟨(hMem b).mpr (Or.inr hab), ?_⟩
            rcases Option.or_eq_some_iff.mp hGet with
              hNew | ⟨-, hOld⟩
            · exact ⟨state.1.known, hBefore.known, hNew⟩
            · exact (hBefore.steps b steps hOld).2
        · have ⟨hb, hReport⟩ := hBefore.steps b steps hGet
          exact ⟨(hMem b).mpr (Or.inl hb), hReport⟩

/- A pass does not look past the contents of a sheet. -/
theorem Pass.of_content
    {sheet' : Sheet}
    {among' : Address → Prop}
    {after : Engine}
    {results : Results}
    (hSame : ∀ a, sheet.content? a = sheet'.content? a)
    (hAmong : ∀ a, among a ↔ among' a)
    (h : Pass holds start sheet among after results) :
    Pass holds start sheet' among' after results := by
  have hEval := fun known a =>
    (Sheet.evaluateCellWith_of_content hSame known
      start.explain a).symm
  refine ⟨h.explain, h.graph, h.known, ?_, ?_, ?_⟩
  · intro a ha
    simp only [hEval]
    exact h.covers a ((hAmong a).mpr ha)
  · intro a outcome hGet
    simp only [hEval, ← hAmong a]
    exact h.outcomes a outcome hGet
  · intro a steps hGet
    simp only [hEval, ← hAmong a]
    exact h.steps a steps hGet

theorem KeptBy.of_content
    {sheet' : Sheet}
    {among' : Address → Prop}
    {explain : Bool}
    (hSame : ∀ a, sheet.content? a = sheet'.content? a)
    (hAmong : ∀ a, among' a → among a)
    (h : KeptBy holds explain sheet among) :
    KeptBy holds explain sheet' among' := by
  intro known a ha
  rw [← Sheet.evaluateCellWith_of_content hSame]
  exact h known a (hAmong a ha)

------------------------------------------------------------
-- Knowing Formulas Only
------------------------------------------------------------

/- Nothing is known of cells that hold no formula. -/
def KnowsFormulas
    (sheet : Sheet)
    (known : CellMap Outcome) : Prop :=
  ∀ x outcome, known.get? x = some outcome →
    holdsFormula sheet x = true

theorem knowsFormulas_empty
    (sheet : Sheet) : KnowsFormulas sheet CellMap.empty := by
  intro x outcome hGet
  cases hGet

/- Evaluating formulas makes nothing else known. -/
theorem knowsFormulas_kept
    (explain : Bool)
    (hAmong : ∀ b, among b → holdsFormula sheet b = true) :
    KeptBy (KnowsFormulas sheet) explain sheet among := by
  intro known b hb hKnown _ x outcome hGet
  rcases CellMap.get?_insert_eq_some hGet with
    ⟨hxb, -⟩ | hBefore
  · rw [Sheet.holdsFormula_congr (Sheet.content?_congr hxb)]
    exact hAmong b hb
  · exact hKnown x outcome hBefore

------------------------------------------------------------
-- Whole Sheets
------------------------------------------------------------

/- The formulas of a sheet are listed once each. -/
theorem nodup_parsedFormulas
    (sheet : Sheet) :
    ((parsedFormulas sheet).map (·.1)).Nodup :=
  sheet.cells.nodup_filterMap_entries Cell.parsed?

theorem relative_of_mem_parsedFormulas
    (hRead : sheet.AllRead)
    {a : Address}
    (h : a ∈ (parsedFormulas sheet).map (·.1)) :
    a.relative = a := by
  rcases List.mem_map.mp h with ⟨p, hp, rfl⟩
  exact ((Sheet.mem_parsedFormulas_iff hRead).mp hp).1

/- The cells in the order of a sheet are its formulas. -/
theorem mem_sheetOrder_iff
    (graph : DependencyGraph)
    (hRead : sheet.AllRead)
    (a : Address) :
    a.relative ∈
        (sheetOrder graph sheet).map Address.relative ↔
      holdsFormula sheet a = true := by
  rw [Sheet.holdsFormula_iff]
  unfold sheetOrder
  constructor
  · intro h
    rcases List.mem_map.mp h with ⟨b, hb, hKey⟩
    rw [← Sheet.expr?_relative, ← Sheet.content?_relative,
      ← hKey, Sheet.expr?_relative, Sheet.content?_relative]
    rcases List.mem_append.mp hb with hb | hb
    · rcases List.mem_map.mp (mem_evaluationOrder_iff.mp hb)
        with ⟨c, hc, hcb⟩
      rcases List.mem_map.mp hc with ⟨p, hp, rfl⟩
      rcases (Sheet.mem_parsedFormulas_iff hRead).mp hp
        with ⟨-, hExpr⟩
      rw [← Sheet.expr?_relative, hcb] at hExpr
      exact Or.inl ⟨p.2, hExpr⟩
    · rcases List.mem_map.mp hb with ⟨p, hp, rfl⟩
      rcases (Sheet.mem_parseFailures_iff.mp hp).2 with
        ⟨source, hContent⟩
      exact Or.inr ⟨source, p.2, hContent⟩
  · intro h
    apply Address.relative_mem_map
    apply List.mem_append.mpr
    rcases h with ⟨e, hExpr⟩ | ⟨source, e, hContent⟩
    · left
      apply mem_evaluationOrder_iff.mpr
      apply Address.relative_mem_map
      refine List.mem_map.mpr ⟨(a.relative, e), ?_, rfl⟩
      exact (Sheet.mem_parsedFormulas_iff hRead).mpr
        ⟨Address.relative_relative a, hExpr⟩
    · right
      refine List.mem_map.mpr ⟨(a.relative, e), ?_, rfl⟩
      exact Sheet.mem_parseFailures_iff.mpr
        ⟨Address.relative_relative a, source, hContent⟩

/- They are listed without markers. -/
theorem relative_of_mem_sheetOrder
    {graph : DependencyGraph}
    {a : Address}
    (h : a ∈ sheetOrder graph sheet) : a.relative = a := by
  rcases List.mem_append.mp h with h | h
  · rcases List.mem_map.mp (mem_evaluationOrder_iff.mp h) with
      ⟨b, -, rfl⟩
    exact Address.relative_relative b
  · rcases List.mem_map.mp h with ⟨p, hp, rfl⟩
    exact (Sheet.mem_parseFailures_iff.mp hp).1

theorem mem_sheetOrder
    (graph : DependencyGraph)
    (hRead : sheet.AllRead)
    {a : Address} :
    a ∈ sheetOrder graph sheet ↔
      a.relative = a ∧ holdsFormula sheet a = true := by
  have hFormula := mem_sheetOrder_iff graph hRead a
  rw [Address.map_relative fun _ =>
    relative_of_mem_sheetOrder] at hFormula
  constructor
  · intro ha
    have hKey := relative_of_mem_sheetOrder ha
    exact ⟨hKey, hFormula.mp (hKey.symm ▸ ha)⟩
  · rintro ⟨hKey, hHolds⟩
    exact hKey ▸ hFormula.mpr hHolds

/- The engine that a whole sheet is evaluated with. -/
def fresh
    (engine : Engine)
    (sheet : Sheet) : Engine :=
  ⟨engine.explain, graphOf sheet.parseFormulas,
    CellMap.empty⟩

/- The cells that evaluating a sheet goes through. -/
def sheetPassOf
    (sheet : Sheet) : List Address :=
  sheetOrder (graphOf sheet.parseFormulas)
    sheet.parseFormulas

/- What evaluating a sheet comes to. -/
theorem evaluateSheet_eq
    (engine : Engine)
    (sheet : Sheet) :
    engine.evaluateSheet sheet =
      let last := (engine.fresh sheet).evaluateCells
        sheet.parseFormulas (sheetPassOf sheet)
      (last.2, last.1, sheet.parseFormulas) := by
  unfold evaluateSheet fresh sheetPassOf
  dsimp only

/- Evaluating a sheet is a pass over its formulas. -/
theorem evaluateSheet_pass
    (engine : Engine)
    (hEmpty : holds CellMap.empty)
    (hKept :
      KeptBy holds engine.explain sheet fun a =>
        holdsFormula sheet a = true) :
    Pass holds (engine.fresh sheet) sheet
      (fun a => holdsFormula sheet a = true)
      (engine.evaluateSheet sheet).2.1
      (engine.evaluateSheet sheet).1 := by
  have hSame := Sheet.content?_parseFormulas sheet
  have hAmong :
      ∀ a : Address,
        a.relative ∈
            (sheetPassOf sheet).map Address.relative ↔
          holdsFormula sheet a = true := by
    intro a
    rw [sheetPassOf,
      mem_sheetOrder_iff _ sheet.allRead_parseFormulas,
      Sheet.holdsFormula_congr (hSame a)]
  have hPass := evaluateCells_pass (engine.fresh sheet) hEmpty
    (hKept.of_content (fun a => (hSame a).symm)
      fun a => (hAmong a).mp)
  rw [evaluateSheet_eq]
  exact hPass.of_content hSame hAmong

------------------------------------------------------------
-- Edits
------------------------------------------------------------

/- The engine that evaluates what an edit affects. -/
def afterEdit
    (engine : Engine)
    (sheet : Sheet)
    (a : Address)
    (cell : Option Cell) : Engine :=
  let graph :=
    relink engine.graph (storeCell sheet a cell) a
  ⟨engine.explain, graph,
    (graph.dependents a).foldl CellMap.erase engine.known⟩

/- The formulas that an edit affects. -/
def Affected
    (engine : Engine)
    (sheet : Sheet)
    (a : Address)
    (cell : Option Cell)
    (b : Address) : Prop :=
  b.relative ∈
      (engine.afterEdit sheet a cell).graph.dependents a ∧
    holdsFormula (storeCell sheet a cell) b = true

/- What is known of the cells an edit affects is dropped. -/
theorem get?_known_afterEdit
    (a : Address)
    (cell : Option Cell)
    (b : Address) :
    (engine.afterEdit sheet a cell).known.get? b =
      if b.relative ∈
          (engine.afterEdit sheet a cell).graph.dependents a
        then none
      else engine.known.get? b := by
  unfold afterEdit
  dsimp only
  rw [CellMap.get?_foldl_erase]
  rw [Address.map_relative fun _ hb =>
    relative_of_mem_dependents hb]

/- What an edit comes to. -/
theorem update_eq
    (engine : Engine)
    (sheet : Sheet)
    (a : Address)
    (cell : Option Cell)
    (now : Timestamp) :
    engine.update sheet a cell now =
      let start := engine.afterEdit sheet a cell
      let order := start.graph.evaluationOrder
        (start.graph.dependents a)
      let last := start.evaluateCells (storeCell sheet a cell)
        (order.filter (holdsFormula (storeCell sheet a cell)))
      (⟨order, last.2⟩, last.1,
        (storeCell sheet a cell).touch now) := by
  unfold update afterEdit
  dsimp only

/- An edit is a pass over the formulas that it affects. -/
theorem update_pass
    (engine : Engine)
    (a : Address)
    (cell : Option Cell)
    (now : Timestamp)
    (hStart : holds (engine.afterEdit sheet a cell).known)
    (hKept :
      KeptBy holds engine.explain (storeCell sheet a cell)
        (engine.Affected sheet a cell)) :
    Pass holds (engine.afterEdit sheet a cell)
      (storeCell sheet a cell)
      (engine.Affected sheet a cell)
      (engine.update sheet a cell now).2.1
      (engine.update sheet a cell now).1.results := by
  generalize hGraph :
    (engine.afterEdit sheet a cell).graph = graph
  have hAmong :
      ∀ b : Address,
        b.relative ∈
            ((graph.evaluationOrder (graph.dependents a)
              ).filter (holdsFormula (storeCell sheet a cell))
              ).map Address.relative ↔
          engine.Affected sheet a cell b := by
    intro b
    unfold Affected
    rw [hGraph]
    constructor
    · intro h
      rcases List.mem_map.mp h with ⟨c, hc, hKey⟩
      rcases List.mem_filter.mp hc with ⟨hOrder, hFormula⟩
      rcases List.mem_map.mp
          (mem_evaluationOrder_iff.mp hOrder) with
        ⟨d, hd, rfl⟩
      rw [Address.relative_relative] at hKey
      rw [relative_of_mem_dependents hd] at hKey hFormula
      refine ⟨hKey ▸ hd, ?_⟩
      rw [hKey, Sheet.holdsFormula_eq,
        Sheet.content?_relative] at hFormula
      rw [Sheet.holdsFormula_eq]
      exact hFormula
    · rintro ⟨hDependent, hFormula⟩
      apply Address.relative_mem_map
      refine List.mem_filter.mpr ⟨?_, hFormula⟩
      apply mem_evaluationOrder_iff.mpr
      exact Address.relative_mem_map hDependent
  subst hGraph
  have hPass := evaluateCells_pass
    (engine.afterEdit sheet a cell) hStart
    (hKept.of_content (fun _ => rfl) fun b => (hAmong b).mp)
  rw [update_eq]
  exact hPass.of_content (fun _ => rfl) hAmong

end Engine

end Spreadsheet
