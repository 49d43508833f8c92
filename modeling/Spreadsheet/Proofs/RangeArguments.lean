import Spreadsheet.Proofs.ThreadedEvaluation

/-
  What a range stands for among the arguments of an
  aggregate: references to those of its cells that can be
  read in the context, column by column. What cannot be read
  is left out and is no error, be it empty, an error, or
  under evaluation. As a context is restored after each
  read, it does not matter in which company a cell is read.

  Key definitions include:
    * `Context.readableCells`
    * `Context.Holds`
    * `Context.spellOut`

  The main result is `Context.aggregate_spellOut`.
-/

namespace Spreadsheet

namespace Context

variable {context : Context}

------------------------------------------------------------
-- Readable Cells
------------------------------------------------------------

/- The cells of a range that can be read in a context. -/
def readableCells
    (context : Context)
    (r : Range) : List Address :=
  (r.cells .columnMajor).filter fun a =>
    (context.readReference a).1.isOk

/-
  A cell holds a value as others see it: a literal its own,
  and a formula the one that is known of it or that it
  evaluates to.
-/
def Holds
    (context : Context)
    (a : Address)
    (v : Value) : Prop :=
  match context.sheet.get? a with
  | none => False
  | some (.literal w) => w = v
  | some (.error _ _) => False
  | some (.formula _ _) =>
      (context.known.get? a).getD
          (context.sheet.evaluateCellIn context.known
            context.visited false a).outcome =
        .value v

/-
  An argument of an aggregate without ranges: a range is
  replaced by references to its readable cells.
-/
def spellOut
    (context : Context) : Expr → List Expr
  | .range first second =>
      (context.readableCells
        (Range.spanning first second)).map .cell
  | e => [e]

theorem fst_readReference
    (a : Address) :
    (context.readReference a).1 = context.reader a := by
  change (context.reader.cell a).outcome = _
  rw [Reader.outcome_cell]
  exact Sheet.readReference_relative

/-
  A cell is read if it is not under evaluation and holds a
  value.
-/
theorem readReference_ok_iff
    {a : Address}
    {v : Value} :
    (context.readReference a).1 = .ok v ↔
      a.relative ∉ context.visited ∧ context.Holds a v := by
  rw [fst_readReference]
  have hRead :=
    Sheet.readReference_eq context.sheet context.known
      context.visited a
  unfold reader Holds
  by_cases hVisited : a.relative ∈ context.visited
  · rw [if_pos hVisited] at hRead
    simp [hRead, hVisited]
  · rw [if_neg hVisited, Sheet.content?] at hRead
    cases hGet : context.sheet.get? a with
    | none =>
        rw [hGet] at hRead
        simp [hRead]
    | some cell =>
        rw [hGet] at hRead
        cases cell with
        | literal w => simp [hRead, hVisited, Cell.content]
        | error code message => simp [hRead, Cell.content]
        | formula source parsed =>
            rw [Sheet.readReference_formula hVisited
              (congrArg (Option.map Cell.content) hGet)]
            simp only [hVisited, not_false_eq_true, true_and]
            cases (context.known.get? a).getD _ with
            | value w => simp [Outcome.toResult]
            | error e => simp [Outcome.toResult]

theorem mem_readableCells_iff
    {r : Range}
    {a : Address} :
    a ∈ context.readableCells r ↔
      a.relative = a ∧ r.contains a = true
        ∧ ∃ v, (context.readReference a).1 = .ok v := by
  have hOk :
      (context.readReference a).1.isOk = true ↔
        ∃ v, (context.readReference a).1 = .ok v := by
    cases (context.readReference a).1 with
    | ok v => simp [Except.isOk, Except.toBool]
    | error e => simp [Except.isOk, Except.toBool]
  rw [readableCells, List.mem_filter, Range.mem_cells_iff,
    hOk, and_assoc]

/- They stand in their order in the range. -/
theorem pairwise_readableCells
    (r : Range) :
    (context.readableCells r).Pairwise
      Range.ColumnBefore :=
  (r.pairwise_cells .columnMajor).filter _

------------------------------------------------------------
-- Ranges As Arguments
------------------------------------------------------------

variable {read : Reader}

theorem evaluateAll_cons
    {e : Expr}
    (rest : List Expr)
    (hRange : ∀ first second, e ≠ .range first second) :
    evaluateAll read (e :: rest) =
      (e.evaluate read >>= fun value =>
        evaluateAll read rest >>= fun more =>
          pure (value :: more)) := by
  cases e with
  | range first second => exact absurd rfl (hRange _ _)
  | _ => simp only [evaluateAll]

/-
  One more argument that is not a range comes before the
  values of the others, and fails before they do.
-/
theorem outcome_evaluateAll_cons
    {e : Expr}
    (rest : List Expr)
    (hRange : ∀ first second, e ≠ .range first second) :
    (evaluateAll read (e :: rest)).outcome =
      (e.evaluate read).outcome.bind fun v =>
        (evaluateAll read rest).outcome.map (v :: ·) := by
  rw [evaluateAll_cons rest hRange, Reads.outcome_bind]
  congr 1
  funext v
  exact Reads.outcome_bind_pure _ _

/- The values that can be read of a range come first. -/
theorem outcome_evaluateAll_range
    (first second : Address)
    (rest : List Expr) :
    (evaluateAll read
        (.range first second :: rest)).outcome =
      (evaluateAll read rest).outcome.map
        ((((Range.spanning first second).cells
          .columnMajor).filterMap fun a =>
            (read a).toOption) ++ ·) := by
  have hFound :
      ((read.readable
          (Range.spanning first second)).map (·.2)) =
        ((Range.spanning first second).cells
          .columnMajor).filterMap fun a =>
            (read a).toOption := by
    rw [Reader.readable, List.map_filterMap]
    congr 1
    funext a
    cases read a <;> rfl
  rw [evaluateAll, Reads.outcome_bind, ← hFound]
  exact Reads.outcome_bind_pure _ _

/-
  References to the readable cells of a list give the same
  values as reading what can be read of the list, whatever
  arguments follow.
-/
theorem outcome_evaluateAll_cells
    (cells : List Address)
    (hCells : ∀ a ∈ cells, a.relative = a)
    (rest : List Expr) :
    (evaluateAll read
        ((cells.filter fun a => (read a).isOk).map .cell
          ++ rest)).outcome =
      (evaluateAll read rest).outcome.map
        ((cells.filterMap fun a => (read a).toOption)
          ++ ·) := by
  induction cells with
  | nil => cases hRest : (evaluateAll read rest).outcome <;>
      simp [hRest, Except.map]
  | cons a cells ih =>
      have hKey := hCells a List.mem_cons_self
      have hRest := ih fun b hb =>
        hCells b (List.mem_cons_of_mem _ hb)
      cases hRead : read a with
      | error e =>
          simpa [hRead, Except.isOk, Except.toBool,
            Except.toOption] using hRest
      | ok v =>
          have hOk : (read a).isOk = true := by
            rw [hRead]
            rfl
          have hValue : (read a).toOption = some v := by
            rw [hRead]
            rfl
          simp only [List.filter_cons, hOk, ↓reduceIte,
            List.map_cons, List.cons_append,
            List.filterMap_cons, hValue]
          rw [outcome_evaluateAll_cons _ (by simp), hRest,
            Expr.evaluate, Reader.outcome_cell, hKey, hRead]
          cases (evaluateAll read rest).outcome <;> rfl

/- So ranges may be spelled out among arguments. -/
theorem outcome_evaluateAll_spellOut
    (args : List Expr) :
    (evaluateAll context.reader
        (args.flatMap context.spellOut)).outcome =
      (evaluateAll context.reader args).outcome := by
  induction args with
  | nil => rfl
  | cons e rest ih =>
      rw [List.flatMap_cons]
      cases e with
      | range first second =>
          simp only [spellOut, readableCells,
            fst_readReference]
          rw [outcome_evaluateAll_cells _
              (fun _ => Range.relative_of_mem_cells),
            ih, outcome_evaluateAll_range]
      | _ =>
          simp only [spellOut, List.cons_append,
            List.nil_append]
          rw [outcome_evaluateAll_cons _ (by simp),
            outcome_evaluateAll_cons _ (by simp), ih]

/-
  An error among arguments is that of one of them, which is
  not a range.
-/
theorem error_of_evaluateAll
    {args : List Expr}
    {err : FormulaError}
    (h : (evaluateAll read args).outcome = .error err) :
    ∃ e ∈ args,
      (∀ first second, e ≠ .range first second)
        ∧ (e.evaluate read).outcome = .error err := by
  induction args with
  | nil => cases h
  | cons e rest ih =>
      have hLater :
          (evaluateAll read rest).outcome = .error err →
          ∃ e' ∈ e :: rest,
            (∀ first second, e' ≠ .range first second)
              ∧ (e'.evaluate read).outcome = .error err := by
        intro hRest
        rcases ih hRest with ⟨e', hMem, hError⟩
        exact ⟨e', List.mem_cons_of_mem _ hMem, hError⟩
      by_cases hRange :
          ∃ first second, e = .range first second
      · rcases hRange with ⟨first, second, rfl⟩
        rw [outcome_evaluateAll_range] at h
        apply hLater
        cases hRest : (evaluateAll read rest).outcome with
        | ok values =>
            rw [hRest] at h
            cases h
        | error err' =>
            rw [hRest] at h
            exact h
      · have hNot :
            ∀ first second, e ≠ .range first second :=
          fun first second hEq =>
            hRange ⟨first, second, hEq⟩
        rw [evaluateAll_cons rest hNot,
          Reads.outcome_bind_error_iff] at h
        rcases h with hFirst | ⟨v, -, hRest⟩
        · exact ⟨e, List.mem_cons_self, hNot, hFirst⟩
        · apply hLater
          rw [Reads.outcome_bind_error_iff] at hRest
          rcases hRest with hRest | ⟨values, -, hPure⟩
          · exact hRest
          · cases hPure

------------------------------------------------------------
-- Aggregates
------------------------------------------------------------

theorem fst_evaluate_aggregate
    {name : String}
    {f : Aggregate}
    (hName : Function.named? name = some (.aggregate f))
    (args : List Expr) :
    (context.evaluate (.call name args)).1 =
      (evaluateAll context.reader args).outcome.map
        fun values => .number (f.apply values) := by
  change ((Expr.call name args).evaluate
    context.reader).outcome = _
  rw [Expr.evaluate_call, hName]
  exact Reads.outcome_bind_pure _ _

/-
  In every context an aggregate has the same value or error
  as with each range among its arguments spelled out: as
  references, column by column, to just those cells of the
  rectangle that can be read there. These are neither empty
  nor under evaluation, and hold a value. So ranges never
  fail: an error is that of an argument which is no range.
-/
theorem aggregate_spellOut
    (context : Context)
    {name : String}
    {f : Aggregate}
    (hName : Function.named? name = some (.aggregate f))
    (args : List Expr) :
    (context.evaluate (.call name args)).1 =
        (context.evaluate
          (.call name (args.flatMap context.spellOut))).1
      ∧ (∀ r a, a ∈ context.readableCells r ↔
        a.relative = a ∧ r.contains a = true
          ∧ ∃ v, (context.readReference a).1 = .ok v)
      ∧ (∀ r, (context.readableCells r).Pairwise
        Range.ColumnBefore)
      ∧ (∀ a v, (context.readReference a).1 = .ok v ↔
        a.relative ∉ context.visited ∧ context.Holds a v)
      ∧ ∀ err,
        (context.evaluate (.call name args)).1 =
            .error err →
          ∃ e ∈ args,
            (∀ first second, e ≠ .range first second)
              ∧ (context.evaluate e).1 = .error err := by
  refine ⟨?_, fun r a => mem_readableCells_iff,
    pairwise_readableCells, fun a v => readReference_ok_iff,
    ?_⟩
  · rw [fst_evaluate_aggregate hName,
      fst_evaluate_aggregate hName,
      outcome_evaluateAll_spellOut]
  · intro err hError
    rw [fst_evaluate_aggregate hName] at hError
    cases hArgs :
        (evaluateAll context.reader args).outcome with
    | ok values =>
        rw [hArgs] at hError
        cases hError
    | error err' =>
        rw [hArgs] at hError
        cases hError
        exact error_of_evaluateAll hArgs

/-
  The first formula of a column with a value, nothing, an
  error, a formula that has a value and one that has none,
  while it is evaluated.
-/
def columnContext : Context where
  sheet :=
    { Sheet.blank "Column" 6 1 .epoch with
      cells := CellMap.ofList
        [(.ofPosition 0 0, .formula "=COUNT(A1:A6,A2)" none),
          (.ofPosition 1 0, .literal (.boolean true)),
          (.ofPosition 3 0, .error .parse "broken"),
          (.ofPosition 4 0,
            .formula "=A2"
              (some (.cell (.ofPosition 1 0)))),
          (.ofPosition 5 0,
            .formula "=A3"
              (some (.cell (.ofPosition 2 0))))] }
  current := .ofPosition 0 0
  visited := [.ofPosition 0 0]
  known := CellMap.empty
  trace := none

/- Of the whole column two cells count. -/
theorem aggregate_spellOut_columnContext :
    Function.named? "count" = some (.aggregate .count)
      ∧ (columnContext.evaluate
          (.call "count"
            [.range (.ofPosition 5 0) (.ofPosition 0 0),
              .cell (.ofPosition 1 0)])).1 =
        (columnContext.evaluate
          (.call "count"
            [.cell (.ofPosition 1 0),
              .cell (.ofPosition 4 0),
              .cell (.ofPosition 1 0)])).1 := by
  have hName :
      Function.named? "count" =
        some (.aggregate .count) := by
    cbv
  have hArgs :
      [Expr.range (.ofPosition 5 0) (.ofPosition 0 0),
          .cell (.ofPosition 1 0)].flatMap
        columnContext.spellOut =
      [.cell (.ofPosition 1 0), .cell (.ofPosition 4 0),
        .cell (.ofPosition 1 0)] := by
    cbv
  have hSame := (columnContext.aggregate_spellOut hName
    [.range (.ofPosition 5 0) (.ofPosition 0 0),
      .cell (.ofPosition 1 0)]).1
  rw [hArgs] at hSame
  exact ⟨hName, hSame⟩

end Context

end Spreadsheet
