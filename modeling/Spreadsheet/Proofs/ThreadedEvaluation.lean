import Mathlib
import Spreadsheet.Proofs.NestedEvaluation

/-
  Evaluation in one context that all calls share and change.
  A cell is added to those under evaluation before its
  formula is evaluated and taken out again afterwards, and
  each step is recorded as soon as something has been read.
  Whatever such an evaluation ends in, it leaves the context
  as it found it, but for steps added to the end of those
  that were recorded. So it gives what evaluation by readers
  and logs gives.

  Key definitions include:
    * `Threaded`
    * `Threaded.expression` and `Threaded.range`
    * `Threaded.cell` and `Threaded.reference`
    * `Context.Restored`
    * `Threaded.Follows`

  The main result is `Threaded.context_restored`.
-/

namespace Spreadsheet

------------------------------------------------------------
-- Threaded Evaluation
------------------------------------------------------------

/-
  A computation in a context that it may change, or that is
  given up for nesting too deep. What it has changed stays
  changed if it fails.
-/
abbrev Threaded :=
  ExceptT FormulaError (StateT Context Option)

namespace Threaded

variable {α : Type}

/- Record one thing read, if steps are recorded. -/
def record
    (reading : Reading) : Threaded Unit :=
  modify fun context => context.record [reading]

/- Go on if a computation fails, with nothing found. -/
def attempt
    (x : Threaded α) : Threaded (Option α) :=
  fun context => do
    let (result, after) ← x context
    some (.ok result.toOption, after)

/- Read the cells of a list one by one. -/
def members
    (read : Address → Threaded Value) :
    List Address → Threaded (List Value)
  | [] => pure []
  | a :: rest => do
      let found ← attempt (read a)
      let more ← members read rest
      pure (found.toList ++ more)

/- Read what can be read of a range. -/
def range
    (read : Address → Threaded Value)
    (r : Range) : Threaded (List Value) := do
  let values ← members read (r.cells .columnMajor)
  record (.expansion r)
  pure values

mutual

/-
  Evaluate an expression, part by part, given what is done
  to read a reference.
-/
def expression
    (read : Address → Threaded Value) :
    Expr → Threaded Value
  | .number x => pure (.number x)
  | .text s => pure (.text s)
  | .boolean b => pure (.boolean b)
  | .cell a => read a
  | .range first second => do
      let values ← range read (Range.spanning first second)
      pure (values.headD .empty)
  | .binary op left right => do
      let x ← expression read left
      let y ← expression read right
      MonadExcept.ofExcept (op.apply x y)
  | .negate operand => do
      let x ← expression read operand
      pure x.negate
  | .call name args =>
      match Function.named? name with
      | none => throw (.unknownFunction name)
      | some (.aggregate f) => do
          let values ← arguments read args
          pure (.number (f.apply values))
      | some .conditional => choice read args

/- The values of the arguments of an aggregate. -/
def arguments
    (read : Address → Threaded Value) :
    List Expr → Threaded (List Value)
  | [] => pure []
  | .range first second :: rest => do
      let values ← range read (Range.spanning first second)
      let more ← arguments read rest
      pure (values ++ more)
  | e :: rest => do
      let value ← expression read e
      let more ← arguments read rest
      pure (value :: more)

/- A condition and the argument that it chooses. -/
def choice
    (read : Address → Threaded Value) :
    List Expr → Threaded Value
  | condition :: whenTrue :: rest => do
      let c ← expression read condition
      if c.isTruthy then expression read whenTrue
      else
        match rest with
        | whenFalse :: _ => expression read whenFalse
        | [] => pure .empty
  | _ => pure .empty

end

/-
  Evaluate a cell. The cells under evaluation are passed on,
  with the cell itself added while its formula is evaluated,
  and handed back.
-/
def cell
    (read : Address → Threaded Value)
    (sheet : Sheet)
    (known : CellMap Outcome)
    (explain : Bool)
    (target : Address)
    (visited : List Address) :
    Option (CellEvaluation × List Address) :=
  match sheet.get? target with
  | none => some (⟨.value .empty, none⟩, visited)
  | some (.literal value) =>
      some (⟨.value value, none⟩, visited)
  | some (.error code message) =>
      some (⟨.error ⟨code, message⟩, none⟩, visited)
  | some (.formula source parsed) =>
      match Cell.expr source parsed with
      | .error e =>
          some (⟨Outcome.ofResult (.error e), none⟩, visited)
      | .ok e =>
          let a := target.relative
          if a ∈ visited then
            some (⟨Outcome.ofResult (.error (.circular a)),
              none⟩, visited)
          else do
            let inside :=
              Context.ofCell sheet a (a :: visited) known
            let start :=
              if explain then inside.enableTrace else inside
            let (result, after) ← expression read e start
            let others := after.visited.filter (· ≠ a)
            match result with
            | .error e =>
                some (⟨Outcome.ofResult (.error e), none⟩,
                  others)
            | .ok value =>
                some (⟨.value value, after.trace⟩, others)

/-
  What is known of a formula, or else what it evaluates to
  among the cells that are under evaluation already.
-/
def outcome
    (read : Address → Threaded Value)
    (target : Address) : Threaded Outcome :=
  fun context =>
    match context.known.get? target with
    | some found => some (.ok found, context)
    | none => do
        let (evaluation, visited) ←
          cell read context.sheet context.known false target
            context.visited
        some (.ok evaluation.outcome,
          { context with visited := visited })

/- The value of a cell that is not under evaluation. -/
def content
    (read : Address → Threaded Value)
    (target : Address) : Threaded Value := do
  let context ← get
  match context.sheet.get? target with
  | none => throw (.badReference target.relative)
  | some (.literal value) => pure value
  | some (.error code message) =>
      throw (.propagated code message)
  | some (.formula _ _) => do
      let found ← outcome read target
      MonadExcept.ofExcept found.toResult

/-
  Read the cell that a reference names, and record it. No
  more than `depth` formulas are evaluated inside each
  other.
-/
def reference
    (depth : Nat)
    (target : Address) : Threaded Value :=
  match depth with
  | 0 => fun _ => none
  | depth + 1 => do
      let context ← get
      if target.relative ∈ context.visited then
        throw (.circular target.relative)
      else
        let value ← content (reference depth) target
        record (.reference target.relative value)
        pure value

end Threaded

------------------------------------------------------------
-- Contexts Restored
------------------------------------------------------------

namespace Context

variable {context before after : Context}

/- The same context with other steps recorded so far. -/
def withTrace
    (context : Context)
    (trace : Option (List Step)) : Context :=
  { context with trace := trace }

@[simp]
theorem visited_withTrace
    (trace : Option (List Step)) :
    (context.withTrace trace).visited = context.visited :=
  rfl

/- Read what can be read of a range and record it. -/
def readRange
    (context : Context)
    (r : Range) :
    Except FormulaError (List Value) × Context :=
  let reads := context.reader.range r
  (reads.outcome, context.record reads.log)

/-
  Everything is as before, but for steps added at the end if
  steps are recorded.
-/
structure Restored
    (before after : Context) : Prop where
  sheet : after.sheet = before.sheet
  current : after.current = before.current
  visited : after.visited = before.visited
  known : after.known = before.known
  trace :
    (before.trace = none ∧ after.trace = none)
      ∨ ∃ steps more,
        before.trace = some steps
          ∧ after.trace = some (steps ++ more)

/- Recording changes nothing else. -/
theorem restored_record
    (context : Context)
    (log : List Reading) :
    context.Restored (context.record log) where
  sheet := rfl
  current := rfl
  visited := rfl
  known := rfl
  trace := by
    cases hTrace : context.trace with
    | none => exact Or.inl ⟨rfl, by simp [record, hTrace]⟩
    | some steps =>
        exact Or.inr ⟨steps, context.stepsOf log, rfl,
          by simp [record, hTrace]⟩

/- Two logs are recorded one after the other. -/
theorem record_append
    (context : Context)
    (first second : List Reading) :
    (context.record first).record second =
      context.record (first ++ second) := by
  simp only [record, stepsOf, Option.map_map,
    Function.comp_def, List.map_append, List.append_assoc]

theorem record_nil
    (context : Context) : context.record [] = context := by
  simp [record, stepsOf]

end Context

------------------------------------------------------------
-- Following A Log
------------------------------------------------------------

namespace Threaded

variable {α β : Type}
variable {context : Context}

/-
  What a computation goes on to do depends on its result and
  starts from the context that it leaves.
-/
theorem bind_apply
    (x : Threaded α)
    (next : α → Threaded β)
    (context : Context) :
    (x >>= next) context =
      match x context with
      | none => none
      | some (.error e, after) => some (.error e, after)
      | some (.ok a, after) => next a after := by
  change (x context).bind _ = _
  rcases x context with _ | ⟨_ | _, after⟩ <;> rfl

theorem get_bind
    (next : Context → Threaded α)
    (context : Context) :
    ((get : Threaded Context) >>= next) context =
      next context context :=
  rfl

/-
  In a context, whatever has been recorded so far, a
  computation ends in an outcome and has changed the context
  by recording a log.
-/
def Follows
    (context : Context)
    (x : Threaded α)
    (reads : Reads α) : Prop :=
  ∀ trace,
    x (context.withTrace trace) =
      some (reads.outcome,
        (context.withTrace trace).record reads.log)

theorem follows_ofExcept
    (result : Except FormulaError α) :
    Follows context (MonadExcept.ofExcept result)
      (Reads.ofExcept result) := by
  intro trace
  simp only [Reads.ofExcept, Context.record_nil]
  cases result <;> rfl

theorem follows_pure
    (a : α) : Follows context (pure a) (pure a) :=
  follows_ofExcept (.ok a)

theorem follows_throw
    (e : FormulaError) :
    Follows context (throw e : Threaded α)
      (Reads.ofExcept (.error e)) :=
  follows_ofExcept (.error e)

theorem follows_record
    (reading : Reading) :
    Follows context (record reading) ⟨.ok (), [reading]⟩ :=
  fun _ => rfl

/- One computation after another follows their logs. -/
theorem Follows.bind
    {x : Threaded α}
    {next : α → Threaded β}
    {first : Reads α}
    {second : α → Reads β}
    (hFirst : Follows context x first)
    (hNext :
      ∀ a, first.outcome = .ok a →
        Follows context (next a) (second a)) :
    Follows context (x >>= next) (first >>= second) := by
  intro trace
  rw [bind_apply, hFirst trace]
  cases hOutcome : first.outcome with
  | error e => rw [Reads.bind_of_error hOutcome]
  | ok a =>
      rw [Reads.bind_of_ok hOutcome]
      dsimp only
      rw [← Context.record_append]
      exact hNext a hOutcome _

/- What an attempt records is kept also if it fails. -/
theorem follows_attempt
    {x : Threaded α}
    {reads : Reads α}
    (h : Follows context x reads) :
    Follows context (attempt x)
      ⟨.ok reads.outcome.toOption, reads.log⟩ := by
  intro trace
  rw [attempt, h trace]
  rfl

------------------------------------------------------------
-- Expressions
------------------------------------------------------------

variable {read : Address → Threaded Value}

/- References are read as by the reader of a context. -/
def ReadsAs
    (read : Address → Threaded Value)
    (context : Context) : Prop :=
  ∀ a, Follows context (read a) (context.reader.cell a)

/- The cells of a list that can be read, with their values. -/
theorem follows_members
    (hRead : ReadsAs read context)
    (cells : List Address)
    (hCells : ∀ a ∈ cells, a.relative = a) :
    let found := cells.filterMap fun a =>
      match context.reader a with
      | .ok v => some (a, v)
      | .error _ => none
    Follows context (members read cells)
      ⟨.ok (found.map (·.2)),
        found.map fun p => .reference p.1 p.2⟩ := by
  induction cells with
  | nil => exact follows_pure []
  | cons a rest ih =>
      have hKey := hCells a List.mem_cons_self
      have hRest := ih fun b hb =>
        hCells b (List.mem_cons_of_mem _ hb)
      have hBoth := (follows_attempt (hRead a)).bind
        fun value _ => hRest.bind fun more _ =>
          follows_pure (value.toList ++ more)
      intro found trace
      rw [members, hBoth trace]
      simp only [Reader.cell, hKey, found,
        List.filterMap_cons]
      cases context.reader a <;>
        simp [Except.toOption, Reads.ok_bind]

theorem follows_range
    (hRead : ReadsAs read context)
    (r : Range) :
    Follows context (range read r)
      (context.reader.range r) := by
  have hMembers := follows_members hRead
    (r.cells .columnMajor) fun _ => Range.relative_of_mem_cells
  exact hMembers.bind fun values _ =>
    (follows_record (.expansion r)).bind fun _ _ =>
      follows_pure values

mutual

/-
  Expressions follow their evaluation by the reader of the
  context. The induction is on the expression.
-/
theorem follows_expression
    (hRead : ReadsAs read context) :
    ∀ e : Expr,
      Follows context (expression read e)
        (e.evaluate context.reader)
  | .number _ => follows_pure _
  | .text _ => follows_pure _
  | .boolean _ => follows_pure _
  | .cell a => hRead a
  | .range first second =>
      (follows_range hRead _).bind fun _ _ => follows_pure _
  | .binary op left right =>
      (follows_expression hRead left).bind fun _ _ =>
        (follows_expression hRead right).bind fun _ _ =>
          follows_ofExcept _
  | .negate operand =>
      (follows_expression hRead operand).bind fun _ _ =>
        follows_pure _
  | .call name args => by
      simp only [expression, Expr.evaluate]
      cases Function.named? name with
      | none => exact follows_throw _
      | some function =>
          cases function with
          | aggregate f =>
              exact (follows_arguments hRead args).bind
                fun _ _ => follows_pure _
          | conditional => exact follows_choice hRead args

theorem follows_arguments
    (hRead : ReadsAs read context) :
    ∀ args : List Expr,
      Follows context (arguments read args)
        (evaluateAll context.reader args)
  | [] => follows_pure []
  | e :: rest => by
      have hRest := follows_arguments hRead rest
      cases e with
      | range first second =>
          simp only [arguments, evaluateAll]
          exact (follows_range hRead _).bind fun _ _ =>
            hRest.bind fun _ _ => follows_pure _
      | _ =>
          simp only [arguments, evaluateAll]
          exact (follows_expression hRead _).bind fun _ _ =>
            hRest.bind fun _ _ => follows_pure _

theorem follows_choice
    (hRead : ReadsAs read context) :
    ∀ args : List Expr,
      Follows context (choice read args)
        (evaluateChoice context.reader args)
  | [] => follows_pure _
  | [_] => follows_pure _
  | [condition, whenTrue] => by
      simp only [choice, evaluateChoice]
      refine (follows_expression hRead condition).bind
        fun c _ => ?_
      split
      · exact follows_expression hRead whenTrue
      · exact follows_pure _
  | condition :: whenTrue :: whenFalse :: _ => by
      simp only [choice, evaluateChoice]
      refine (follows_expression hRead condition).bind
        fun c _ => ?_
      split
      · exact follows_expression hRead whenTrue
      · exact follows_expression hRead whenFalse

end

/- So evaluating an expression changes a context so too. -/
theorem expression_eq
    (hRead : ReadsAs read context)
    (e : Expr) :
    expression read e context = some (context.evaluate e) :=
  follows_expression hRead e context.trace

------------------------------------------------------------
-- Cells
------------------------------------------------------------

variable {sheet : Sheet}
variable {known : CellMap Outcome}
variable {visited : List Address}
variable {target : Address}

/- What is added first and taken out last makes no change. -/
theorem filter_ne_cons
    {a : Address}
    (h : a ∉ visited) :
    (a :: visited).filter (· ≠ a) = visited := by
  rw [List.filter_cons_of_neg (by simp),
    List.filter_eq_self]
  intro b hb
  simpa using fun hEq : b = a => h (hEq ▸ hb)

/-
  A cell hands back the cells under evaluation as they were
  passed on to it, on each of its ways out.
-/
theorem cell_eq
    (explain : Bool)
    (hInside :
      target.relative ∉ visited →
      Engine.holdsFormula sheet target = true →
      ∀ inside : Context,
        inside.sheet = sheet →
        inside.visited = target.relative :: visited →
        ReadsAs read inside) :
    cell read sheet known explain target visited =
      some
        (sheet.evaluateCellIn known visited explain target,
          visited) := by
  rw [cell, Sheet.evaluateCellIn]
  cases hCell : sheet.get? target with
  | none => rfl
  | some held =>
      cases held with
      | literal value => rfl
      | error code message => rfl
      | formula source parsed =>
          dsimp only
          cases Cell.expr source parsed with
          | error e => rfl
          | ok e =>
              dsimp only
              split
              · rfl
              · next hVisited =>
                  have hFormula :
                      Engine.holdsFormula sheet target =
                        true := by
                    simp [Engine.holdsFormula, hCell,
                      Cell.isFormula]
                  generalize hStart :
                    (if explain = true then
                      Context.enableTrace _ else _) = start
                  have hSheet : start.sheet = sheet := by
                    rw [← hStart]
                    cases explain <;> rfl
                  have hAdded :
                      start.visited =
                        target.relative :: visited := by
                    rw [← hStart]
                    cases explain <;> rfl
                  have hOthers :
                      (start.evaluate e).2.visited.filter
                          (· ≠ target.relative) =
                        visited := by
                    change start.visited.filter _ = _
                    rw [hAdded, filter_ne_cons hVisited]
                  rw [expression_eq (hInside hVisited
                    hFormula start hSheet hAdded)]
                  rcases hAfter : start.evaluate e with
                    ⟨result, after⟩
                  rw [hAfter] at hOthers
                  cases result with
                  | error err =>
                      exact congrArg
                        (fun others => some (_, others))
                        hOthers
                  | ok value =>
                      exact congrArg
                        (fun others => some (_, others))
                        hOthers

------------------------------------------------------------
-- References
------------------------------------------------------------

/- The value of a cell is found without recording a step. -/
theorem follows_content
    (hVisited : target.relative ∉ context.visited)
    (hCell :
      cell read context.sheet context.known false target
          context.visited =
        some
          (context.sheet.evaluateCellIn context.known
            context.visited false target,
            context.visited)) :
    Follows context (content read target)
      (Reads.ofExcept (context.reader target)) := by
  have hFound :
      Follows context (outcome read target)
        (pure
          ((context.known.get? target).getD
            (context.sheet.evaluateCellIn context.known
              context.visited false target).outcome)) := by
    intro trace
    simp only [outcome, Context.withTrace]
    cases context.known.get? target with
    | some found => exact (follows_pure found) trace
    | none =>
        rw [hCell]
        exact (follows_pure _) trace
  have hRead :=
    Sheet.readReference_eq context.sheet context.known
      context.visited target
  rw [if_neg hVisited, Sheet.content?] at hRead
  intro trace
  rw [content, get_bind]
  simp only [Context.withTrace, Context.reader]
  cases hGet : context.sheet.get? target with
  | none =>
      rw [hGet] at hRead
      rw [hRead]
      exact follows_throw _ trace
  | some held =>
      rw [hGet] at hRead
      cases held with
      | literal value =>
          rw [hRead]
          exact follows_pure value trace
      | error code message =>
          rw [hRead]
          exact follows_throw _ trace
      | formula source parsed =>
          rw [Sheet.readReference_formula hVisited
            (congrArg (Option.map Cell.content) hGet)]
          exact (hFound.bind fun _ _ =>
            follows_ofExcept _) trace

/-
  References are read as by the reader of the context, if
  they may nest deeper than there are formulas left to
  visit. The induction is on the depth: inside of a formula
  one fewer is left.
-/
theorem reference_readsAs
    {depth : Nat}
    (hDepth :
      context.sheet.unvisited context.visited < depth) :
    ReadsAs (reference depth) context := by
  induction depth generalizing context with
  | zero => omega
  | succ depth ih =>
      intro target trace
      rw [reference, get_bind, Context.visited_withTrace]
      have hKey :
          context.reader target.relative =
            context.reader target :=
        Sheet.readReference_relative
      simp only [Reader.cell, hKey]
      split
      · next hVisited =>
          have hRead :
              context.reader target =
                .error (.circular target.relative) := by
            unfold Context.reader
            rw [Sheet.readReference_eq]
            exact if_pos hVisited
          rw [hRead]
          exact follows_throw _ trace
      · next hVisited =>
          have hCell :
              cell (reference depth) context.sheet
                  context.known false target
                  context.visited =
                some
                  (context.sheet.evaluateCellIn
                    context.known context.visited false
                    target, context.visited) := by
            apply cell_eq
            intro _ hFormula inside hSheet hAdded
            apply ih
            have hFewer :=
              Sheet.unvisited_cons_lt_of_holdsFormula
                hVisited hFormula
            rw [hSheet, hAdded]
            omega
          have hAll := (follows_content hVisited hCell).bind
            fun value _ =>
              (follows_record
                (.reference target.relative value)).bind
                  fun _ _ => follows_pure value
          rw [hAll trace]
          cases context.reader target <;> rfl

------------------------------------------------------------
-- The Context Afterwards
------------------------------------------------------------

/-
  Evaluation ends on every sheet, whatever is known, under
  evaluation and recorded so far, and in whatever context.
  It gives what evaluation by a reader gives and, whether it
  succeeds or fails, restores the context. So does reading a
  reference and reading a range, and a cell that is
  evaluated, explained or not, hands back the cells under
  evaluation as they were.
-/
theorem context_restored
    (context : Context)
    (depth : Nat)
    (hDepth :
      context.sheet.unvisited context.visited < depth) :
    (∀ e : Expr, ∃ result after,
      expression (reference depth) e context =
          some (result, after)
        ∧ context.evaluate e = (result, after)
        ∧ context.Restored after)
    ∧ (∀ target, ∃ result after,
      reference depth target context = some (result, after)
        ∧ context.readReference target = (result, after)
        ∧ context.Restored after)
    ∧ (∀ r, ∃ result after,
      range (reference depth) r context =
          some (result, after)
        ∧ context.readRange r = (result, after)
        ∧ context.Restored after)
    ∧ ∀ explain target,
      cell (reference depth) context.sheet context.known
          explain target context.visited =
        some
          (context.sheet.evaluateCellIn context.known
            context.visited explain target,
            context.visited) := by
  have hRead := reference_readsAs hDepth
  refine ⟨fun e => ?_, fun target => ?_, fun r => ?_, ?_⟩
  · exact ⟨_, _, expression_eq hRead e, rfl,
      context.restored_record _⟩
  · exact ⟨_, _, hRead target context.trace, rfl,
      context.restored_record _⟩
  · exact ⟨_, _, follows_range hRead r context.trace,
      rfl, context.restored_record _⟩
  · intro explain target
    apply cell_eq
    intro hVisited hFormula inside hSheet hAdded
    apply reference_readsAs
    have hFewer :=
      Sheet.unvisited_cons_lt_of_holdsFormula hVisited
        hFormula
    rw [hSheet, hAdded]
    omega

/-
  The first of two formulas that read each other, with
  nothing recorded so far.
-/
def mutualContext : Context where
  sheet := Sheet.mutualSheet
  current := .ofPosition 0 0
  visited := [.ofPosition 0 0]
  known := CellMap.empty
  trace := some []

/-
  Both cells of a range over the two formulas are passed
  over, and the reference after it fails in the other
  formula. The context is restored all the same.
-/
theorem context_restored_mutualSheet :
    mutualContext.sheet.unvisited mutualContext.visited < 2
      ∧ ∃ after,
        expression (reference 2)
            (.binary .add
              (.range (.ofPosition 0 0) (.ofPosition 1 0))
              (.cell (.ofPosition 1 0)))
            mutualContext =
          some
            (.error
              (.propagated .cycle "Circular reference"),
              after)
          ∧ mutualContext.Restored after := by
  have hDepth :
      mutualContext.sheet.unvisited mutualContext.visited
        < 2 := by
    decide
  have hError :
      (mutualContext.evaluate
          (.binary .add
            (.range (.ofPosition 0 0) (.ofPosition 1 0))
            (.cell (.ofPosition 1 0)))).1 =
        .error (.propagated .cycle "Circular reference") := by
    cbv
  rcases (context_restored mutualContext 2 hDepth).1 _ with
    ⟨result, after, hThreaded, hEvaluate, hRestored⟩
  rw [hEvaluate] at hError
  dsimp only at hError
  rw [hError] at hThreaded
  exact ⟨hDepth, after, hThreaded, hRestored⟩

end Threaded

end Spreadsheet
