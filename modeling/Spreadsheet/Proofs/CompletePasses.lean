import Spreadsheet.Proofs.CompleteOrders
import Spreadsheet.Proofs.Explanations
import Spreadsheet.Proofs.ParseErrors
import Spreadsheet.Proofs.Pass

/-
  A pass over a sheet covers every formula exactly once,
  whether or not it can be read and whether or not it refers
  to itself. So what is reported of a cell, outcome and
  steps, comes from one evaluation.

  Key definitions include:
    * `Engine.ReportedAt`

  The main result is `Engine.evaluateSheet_covers`.
-/

namespace Spreadsheet

open DependencyGraph

namespace Sheet

/- The cells that are kept as formulas are those. -/
theorem isSome_formulaCells
    (sheet : Sheet)
    (a : Address) :
    ((sheet.cells.filterValues Cell.isFormula).get? a
      ).isSome = Engine.holdsFormula sheet a := by
  rw [CellMap.get?_filterValues, Engine.holdsFormula, get?]
  cases sheet.cells.get? a with
  | none => rfl
  | some cell =>
      cases h : cell.isFormula <;> simp [Option.filter, h]

/- They are listed without markers. -/
theorem mem_formulaCells_iff
    {sheet : Sheet}
    {a : Address} :
    a ∈ sheet.formulaCells ↔
      a.relative = a ∧ Engine.holdsFormula sheet a = true := by
  rw [formulaCells, CellMap.mem_keys_iff,
    isSome_formulaCells]

end Sheet

namespace Engine

variable {sheet : Sheet}
variable {a b : Address}

------------------------------------------------------------
-- Orders
------------------------------------------------------------

/-
  Formulas that can be read are ordered by the graph, which
  neither drops nor repeats a cell, and the others follow.
-/
theorem nodup_sheetPassOf
    (sheet : Sheet) : (sheetPassOf sheet).Nodup := by
  have hRead := sheet.allRead_parseFormulas
  have hPaired :=
    (WellFormed.graphOf sheet.parseFormulas).paired
  refine List.nodup_append.mpr ⟨?_, ?_, ?_⟩
  · exact (hPaired.completeOrder _).perm.nodup_iff.mpr
      (List.nodup_dedup _)
  · exact CellMap.nodup_filterMap_entries _ Cell.parseError?
  · rintro a hParsed b hFailed rfl
    rw [mem_evaluationOrder_iff, Address.map_relative
      fun _ => relative_of_mem_parsedFormulas hRead]
      at hParsed
    rcases List.mem_map.mp hParsed with ⟨p, hp, rfl⟩
    rcases List.mem_map.mp hFailed with ⟨q, hq, hSame⟩
    have hExpr :=
      ((Sheet.mem_parsedFormulas_iff hRead).mp hp).2
    rcases (Sheet.mem_parseFailures_iff.mp hq).2 with
      ⟨source, hContent⟩
    rw [Sheet.expr?, ← hSame, hContent] at hExpr
    cases hExpr

theorem mem_sheetPassOf_iff :
    a ∈ sheetPassOf sheet ↔ a ∈ sheet.formulaCells := by
  rw [Sheet.mem_formulaCells_iff, sheetPassOf,
    mem_sheetOrder _ sheet.allRead_parseFormulas,
    Sheet.holdsFormula_congr (sheet.content?_parseFormulas a)]

/- The formulas that cannot be read come last. -/
theorem exists_sheetPassOf_eq
    (sheet : Sheet) :
    ∃ readable unreadable,
      sheetPassOf sheet = readable ++ unreadable
        ∧ (∀ a ∈ readable, ∃ e, sheet.expr? a = some e)
        ∧ ∀ a ∈ unreadable, ∃ source e,
          sheet.content? a =
            some (.formula source (.error e)) := by
  have hRead := sheet.allRead_parseFormulas
  refine ⟨_, _, rfl, ?_, ?_⟩
  · intro a ha
    rw [mem_evaluationOrder_iff, Address.map_relative
      fun _ => relative_of_mem_parsedFormulas hRead] at ha
    rcases List.mem_map.mp ha with ⟨p, hp, rfl⟩
    refine ⟨p.2, ?_⟩
    rw [← ((Sheet.mem_parsedFormulas_iff hRead).mp hp).2,
      Sheet.expr?, Sheet.expr?, Sheet.content?_parseFormulas]
  · intro a ha
    rcases List.mem_map.mp ha with ⟨p, hp, rfl⟩
    rcases (Sheet.mem_parseFailures_iff.mp hp).2 with
      ⟨source, hContent⟩
    rw [Sheet.content?_parseFormulas] at hContent
    exact ⟨source, p.2, hContent⟩

------------------------------------------------------------
-- Reports
------------------------------------------------------------

/-
  The reports of a cell, its outcome and its steps if there
  are any, come from one and the same evaluation.
-/
def ReportedAt
    (explain : Bool)
    (sheet : Sheet)
    (results : Results)
    (a : Address) : Prop :=
  ∃ known,
    results.get? a =
        some (sheet.evaluateCellWith known explain a).outcome
      ∧ results.steps.get? a =
        (sheet.evaluateCellWith known explain a).steps

/- Nothing is reported of a cell. -/
def Unreported
    (results : Results)
    (a : Address) : Prop :=
  results.get? a = none ∧ results.steps.get? a = none

/- A cell that is evaluated for the first time is reported. -/
theorem reportedAt_evaluateNext
    {state : Engine × Results}
    (hSame : b.relative = a.relative)
    (hNew : Unreported state.2 b) :
    ReportedAt state.1.explain sheet
      (evaluateNext sheet state a).2 b := by
  refine ⟨state.1.known, ?_, ?_⟩
  · rw [get?_evaluateNext, if_pos hSame]
  · rw [steps_evaluateNext, if_pos hSame, hNew.2,
      Option.or_none]

/- Other reports stay as they are. -/
theorem evaluateNext_of_ne
    {state : Engine × Results}
    (hne : b.relative ≠ a.relative) :
    (evaluateNext sheet state a).2.get? b = state.2.get? b
      ∧ (evaluateNext sheet state a).2.steps.get? b =
        state.2.steps.get? b := by
  rw [get?_evaluateNext, steps_evaluateNext, if_neg hne,
    if_neg hne]
  exact ⟨rfl, rfl⟩

/-
  After a pass over cells without repetitions these are
  reported and no others. The induction is on the cells from
  the last to the first, each of them being new when it is
  evaluated.
-/
theorem evaluateCells_reports
    (start : Engine)
    (sheet : Sheet)
    {cells : List Address}
    (hNodup : (cells.map Address.relative).Nodup) :
    (∀ b : Address, b.relative ∈ cells.map Address.relative →
      ReportedAt start.explain sheet
        (start.evaluateCells sheet cells).2 b)
      ∧ ∀ b : Address,
        b.relative ∉ cells.map Address.relative →
        Unreported (start.evaluateCells sheet cells).2 b := by
  induction cells using List.reverseRecOn with
  | nil =>
      exact ⟨fun b h => absurd h List.not_mem_nil,
        fun b _ => ⟨rfl, rfl⟩⟩
  | append_singleton cells a ih =>
      rw [List.map_append, List.nodup_append] at hNodup
      rcases hNodup with ⟨hBefore, -, hApart⟩
      rcases ih hBefore with ⟨hReported, hOthers⟩
      have hPass :
          Pass (fun _ => True) start sheet _
            (start.evaluateCells sheet cells).1
            (start.evaluateCells sheet cells).2 :=
        evaluateCells_pass start trivial
          fun _ _ _ _ _ => trivial
      have hExplain := hPass.explain
      have hStep :
          start.evaluateCells sheet (cells ++ [a]) =
            evaluateNext sheet
              (start.evaluateCells sheet cells) a := by
        simp only [evaluateCells, List.foldl_append,
          List.foldl_cons, List.foldl_nil]
      rw [hStep, List.map_append]
      constructor
      · intro b hb
        rcases List.mem_append.mp hb with hb | hb
        · have hne : b.relative ≠ a.relative :=
            hApart _ hb _ (List.mem_singleton.mpr rfl)
          rcases hReported b hb with ⟨known, hGet, hSteps⟩
          rcases evaluateNext_of_ne hne with ⟨hGet', hSteps'⟩
          exact ⟨known, hGet'.trans hGet,
            hSteps'.trans hSteps⟩
        · have hSame : b.relative = a.relative :=
            List.mem_singleton.mp hb
          have hNew :
              b.relative ∉ cells.map Address.relative := by
            intro hOld
            exact hApart _ hOld _
              (List.mem_singleton.mpr rfl) hSame
          rw [← hExplain]
          exact reportedAt_evaluateNext hSame
            (hOthers b hNew)
      · intro b hb
        rw [List.mem_append, not_or] at hb
        have hne : b.relative ≠ a.relative :=
          fun h => hb.2 (List.mem_singleton.mpr h)
        rcases hOthers b hb.1 with ⟨hGet, hSteps⟩
        rcases evaluateNext_of_ne hne with ⟨hGet', hSteps'⟩
        exact ⟨hGet'.trans hGet, hSteps'.trans hSteps⟩

------------------------------------------------------------
-- Whole Sheets
------------------------------------------------------------

/- What is reported of a sheet is reported of its formulas. -/
theorem evaluateSheet_reports
    (engine : Engine)
    (sheet : Sheet)
    (a : Address) :
    (holdsFormula sheet a = true →
      ReportedAt engine.explain sheet
        (engine.evaluateSheet sheet).1 a)
      ∧ (holdsFormula sheet a ≠ true →
        Unreported (engine.evaluateSheet sheet).1 a) := by
  have hSame := sheet.content?_parseFormulas
  have hKeys :
      (sheetPassOf sheet).map Address.relative =
        sheetPassOf sheet :=
    Address.map_relative fun _ => relative_of_mem_sheetOrder
  have hMem :
      a.relative ∈ (sheetPassOf sheet).map Address.relative ↔
        holdsFormula sheet a = true := by
    rw [← Sheet.holdsFormula_congr (hSame a)]
    exact mem_sheetOrder_iff _ sheet.allRead_parseFormulas a
  have hReports := evaluateCells_reports
    (engine.fresh sheet) sheet.parseFormulas
    (hKeys.symm ▸ nodup_sheetPassOf sheet)
  rw [evaluateSheet_eq]
  constructor
  · intro hFormula
    rcases hReports.1 a (hMem.mpr hFormula) with
      ⟨known, hReport⟩
    rw [Sheet.evaluateCellWith_of_content hSame] at hReport
    exact ⟨known, hReport⟩
  · intro hOther
    exact hReports.2 a fun h => hOther (hMem.mp h)

theorem keys_outcomes_evaluateSheet
    (engine : Engine)
    (sheet : Sheet) :
    (engine.evaluateSheet sheet).1.outcomes.keys =
      sheet.formulaCells := by
  apply CellMap.keys_congr
  intro a
  rw [Sheet.isSome_formulaCells]
  have hReports := engine.evaluateSheet_reports sheet a
  by_cases hFormula : holdsFormula sheet a = true
  · rcases hReports.1 hFormula with ⟨known, hGet, -⟩
    rw [Results.get?] at hGet
    rw [hGet, hFormula]
    rfl
  · have hNone := (hReports.2 hFormula).1
    rw [Results.get?] at hNone
    rw [hNone, Bool.eq_false_iff.mpr hFormula]
    rfl

/- Steps are reported along with values, and with no errors. -/
theorem isSome_steps_evaluateSheet_iff
    (engine : Engine)
    (sheet : Sheet)
    (a : Address) :
    ((engine.evaluateSheet sheet).1.steps.get? a
        ).isSome = true ↔
      engine.explain = true
        ∧ ∃ v, (engine.evaluateSheet sheet).1.get? a =
          some (.value v) := by
  have hReports := engine.evaluateSheet_reports sheet a
  by_cases hFormula : holdsFormula sheet a = true
  · rcases hReports.1 hFormula with ⟨known, hGet, hSteps⟩
    rw [hGet, hSteps, Sheet.isSome_steps_iff]
    simp only [hFormula, true_and, Option.some.injEq]
  · rcases hReports.2 hFormula with ⟨hGet, hSteps⟩
    rw [hGet, hSteps]
    simp

theorem keys_steps_evaluateSheet
    (engine : Engine)
    (sheet : Sheet) :
    let results := (engine.evaluateSheet sheet).1
    (engine.explain = true →
      results.steps.keys =
        (results.outcomes.filterValues fun outcome =>
          outcome.value?.isSome).keys)
      ∧ (engine.explain = false →
        results.steps.keys = []) := by
  intro results
  have hSteps := engine.isSome_steps_evaluateSheet_iff sheet
  constructor
  · intro hExplain
    apply CellMap.keys_congr
    intro a
    rw [Bool.eq_iff_iff, hSteps, hExplain,
      CellMap.get?_filterValues, Results.get?]
    cases results.outcomes.get? a with
    | none => simp
    | some outcome =>
        cases outcome with
        | value v => simp [Outcome.value?]
        | error e => simp [Outcome.value?]
  · intro hExplain
    apply List.eq_nil_iff_forall_not_mem.mpr
    intro a ha
    have hOn :=
      ((hSteps a).mp (CellMap.mem_keys_iff.mp ha).2).1
    rw [hExplain] at hOn
    cases hOn

/- A formula that was not read and cannot be is reported. -/
theorem get?_evaluateSheet_of_unreadable
    (engine : Engine)
    {source : String}
    {e : FormulaError}
    (hGet : sheet.get? a = some (.formula source none))
    (hError : parseFormula source = .error e) :
    (engine.evaluateSheet sheet).1.get? a =
      some (.error ⟨.parse, e.message⟩) := by
  have hContent :
      sheet.content? a =
        some (.formula source (.error e)) := by
    rw [Sheet.content?, hGet, Option.map_some, Cell.content,
      Cell.expr, hError]
  have hFormula := Sheet.holdsFormula_of_content? hContent
  rcases (engine.evaluateSheet_reports sheet a).1 hFormula
    with ⟨known, hReport, -⟩
  rw [hReport, Sheet.evaluateCellWith_eq, hContent]
  have hCode := parseFormula_textual source e hError
  simp only [Outcome.ofResult, CellError.ofFormulaError,
    hCode]

/-
  Evaluating a sheet, with whatever engine, goes through its
  formulas, each of them once and those that cannot be read
  at the end. There is an outcome of each formula and of no
  other cell, and it is an error of the text for formulas
  that cannot be read. If steps are asked for then there are
  steps of the cells with a value and of no others.
-/
theorem evaluateSheet_covers
    (engine : Engine)
    (sheet : Sheet) :
    let last := (engine.fresh sheet).evaluateCells
      sheet.parseFormulas (sheetPassOf sheet)
    let results := (engine.evaluateSheet sheet).1
    engine.evaluateSheet sheet =
        (last.2, last.1, sheet.parseFormulas)
      ∧ (sheetPassOf sheet).Nodup
      ∧ (sheetPassOf sheet).Perm sheet.formulaCells
      ∧ (∃ readable unreadable,
        sheetPassOf sheet = readable ++ unreadable
          ∧ (∀ a ∈ readable, ∃ e, sheet.expr? a = some e)
          ∧ ∀ a ∈ unreadable, ∃ source e,
            sheet.content? a =
              some (.formula source (.error e)))
      ∧ results.outcomes.keys = sheet.formulaCells
      ∧ (∀ a source e,
        sheet.get? a = some (.formula source none) →
        parseFormula source = .error e →
        results.get? a = some (.error ⟨.parse, e.message⟩))
      ∧ (engine.explain = true →
        results.steps.keys =
          (results.outcomes.filterValues fun outcome =>
            outcome.value?.isSome).keys)
      ∧ (engine.explain = false →
        results.steps.keys = []) := by
  have hNodup := nodup_sheetPassOf sheet
  refine ⟨evaluateSheet_eq engine sheet, hNodup, ?_,
    exists_sheetPassOf_eq sheet,
    keys_outcomes_evaluateSheet engine sheet, ?_,
    keys_steps_evaluateSheet engine sheet⟩
  · exact (List.perm_ext_iff_of_nodup hNodup
      (CellMap.nodup_keys _)).mpr fun _ => mem_sheetPassOf_iff
  · intro a source e hGet hError
    exact engine.get?_evaluateSheet_of_unreadable hGet hError

/-
  Two formulas that refer to one another, one that cannot be
  read, one with an expression that its source does not
  have, a stored error and a formula above it, and a value.
-/
def brokenSheet : Sheet :=
  { Sheet.blank "Broken" 7 1 .epoch with
    cells := CellMap.ofList
      [(.ofPosition 0 0,
          .formula "=A2" (some (.cell (.ofPosition 1 0)))),
        (.ofPosition 1 0,
          .formula "=A1" (some (.cell (.ofPosition 0 0)))),
        (.ofPosition 2 0, .ofSource "=)"),
        (.ofPosition 3 0,
          .formula "=)" (some (.boolean true))),
        (.ofPosition 4 0, .error .reference "gone"),
        (.ofPosition 5 0,
          .formula "=A5" (some (.cell (.ofPosition 4 0)))),
        (.ofPosition 6 0, .literal (.boolean false))] }

/- An engine that has steps and wrong outcomes to go by. -/
def misledEngine : Engine :=
  { new true with
    known := CellMap.ofList
      [(.ofPosition 0 0, .value (.boolean true)),
        (.ofPosition 2 0, .value .empty)] }

/- All five formulas are reported on, and one as unreadable. -/
theorem evaluateSheet_covers_brokenSheet :
    let results := (misledEngine.evaluateSheet brokenSheet).1
    results.outcomes.keys =
        [.ofPosition 0 0, .ofPosition 1 0, .ofPosition 2 0,
          .ofPosition 3 0, .ofPosition 5 0]
      ∧ results.get? (.ofPosition 2 0) =
        some (.error
          ⟨.parse, "Parse error: Unexpected ')'"⟩)
      ∧ results.steps.keys =
        (results.outcomes.filterValues fun outcome =>
          outcome.value?.isSome).keys := by
  rcases evaluateSheet_covers misledEngine brokenSheet with
    ⟨-, -, -, -, hKeys, hUnreadable, hSteps, -⟩
  have hError :
      parseFormula "=)" =
        .error (.malformed
          (.unexpectedToken .rightParenthesis)) := by
    cbv
  exact ⟨hKeys, hUnreadable _ "=)" _ rfl hError,
    hSteps rfl⟩

end Engine

end Spreadsheet
