import Spreadsheet.Proofs.ThreadedEvaluation
import Spreadsheet.Proofs.PlainEvaluation

/-
  The steps that explain the value of a cell. Asking for
  them changes no outcome, and they are given for formulas
  with a value. If a formula reaches no cycle, they are what
  its own expression reads, from left to right: values that
  its cells have by themselves, and ranges after those of
  their cells that have one. The arguments that a choice
  passes over add nothing, and neither does what other
  formulas read.

  Key definitions include:
    * `Expr.readings`
    * `Sheet.readPlain` and `Sheet.explanation`

  The main result is `Sheet.evaluateCell_explained`.
-/

namespace Spreadsheet

------------------------------------------------------------
-- What An Expression Reads
------------------------------------------------------------

namespace Reader

/- What is read of a cell: nothing if it has no value. -/
def entries
    (read : Reader)
    (a : Address) : List Reading :=
  match read a with
  | .ok v => [.reference a v]
  | .error _ => []

/-
  What is read of a range: its cells column by column, as
  far as they have a value, and then the range.
-/
def rangeEntries
    (read : Reader)
    (r : Range) : List Reading :=
  (r.cells .columnMajor).flatMap read.entries
    ++ [.expansion r]

variable {read : Reader}

theorem log_cell
    (a : Address) :
    (read.cell a).log = read.entries a.relative := by
  unfold cell entries
  cases read a.relative <;> rfl

theorem log_range
    (r : Range) :
    (read.range r).log = read.rangeEntries r := by
  have hCells :
      (read.readable r).map
          (fun p => Reading.reference p.1 p.2) =
        (r.cells .columnMajor).flatMap read.entries := by
    unfold readable
    induction r.cells .columnMajor with
    | nil => rfl
    | cons a rest ih =>
        rw [List.flatMap_cons, ← ih, List.filterMap_cons,
          entries]
        cases read a <;> rfl
  rw [rangeEntries, ← hCells]
  rfl

theorem mem_entries_iff
    {a : Address}
    {reading : Reading} :
    reading ∈ read.entries a ↔
      ∃ v, read a = .ok v ∧ reading = .reference a v := by
  unfold entries
  cases read a <;> simp

end Reader

namespace Expr

/- Whether an expression has a value that counts as true. -/
def holds
    (read : Reader)
    (e : Expr) : Bool :=
  match (e.evaluate read).outcome with
  | .ok v => v.isTruthy
  | .error _ => false

mutual

/-
  What an expression reads, from left to right, if all of it
  has a value.
-/
def readings
    (read : Reader) : Expr → List Reading
  | number _ => []
  | text _ => []
  | boolean _ => []
  | cell a => read.entries a.relative
  | range first second =>
      read.rangeEntries (Range.spanning first second)
  | binary _ left right =>
      left.readings read ++ right.readings read
  | negate operand => operand.readings read
  | call name args =>
      match Function.named? name with
      | none => []
      | some (.aggregate _) => readingsOfAll read args
      | some .conditional => readingsOfChoice read args

def readingsOfAll
    (read : Reader) : List Expr → List Reading
  | [] => []
  | e :: rest => e.readings read ++ readingsOfAll read rest

/-
  A choice reads its condition and one other argument at
  most.
-/
def readingsOfChoice
    (read : Reader) : List Expr → List Reading
  | condition :: whenTrue :: rest =>
      condition.readings read ++
        if condition.holds read then whenTrue.readings read
        else
          match rest with
          | whenFalse :: _ => whenFalse.readings read
          | [] => []
  | _ => []

end

variable {read : Reader}

theorem holds_of_ok
    {e : Expr}
    {v : Value}
    (h : (e.evaluate read).outcome = .ok v) :
    e.holds read = v.isTruthy := by
  rw [holds, h]

------------------------------------------------------------
-- The Log Of An Evaluation
------------------------------------------------------------

mutual

/-
  An expression that has a value has logged just what it
  reads. The induction is on the expression: as all steps to
  the value succeed, their logs follow each other.
-/
theorem log_evaluate :
    ∀ (e : Expr) {v : Value},
      (e.evaluate read).outcome = .ok v →
        (e.evaluate read).log = e.readings read
  | number _, _, _ => rfl
  | text _, _, _ => rfl
  | boolean _, _, _ => rfl
  | cell a, _, _ => Reader.log_cell a
  | range first second, _, _ => by
      rw [evaluate, Reads.log_bind_pure, Reader.log_range,
        readings]
  | binary op left right, v, h => by
      simp only [evaluate, Reads.outcome_bind_ok_iff] at h
      rcases h with ⟨x, hLeft, y, hRight, -⟩
      rw [evaluate, Reads.log_bind _ hLeft,
        Reads.log_bind _ hRight, log_evaluate left hLeft,
        log_evaluate right hRight, readings]
      exact congrArg _ (List.append_nil _)
  | negate operand, v, h => by
      simp only [evaluate, Reads.outcome_bind_ok_iff] at h
      rcases h with ⟨x, hOperand, -⟩
      rw [evaluate, Reads.log_bind_pure,
        log_evaluate operand hOperand, readings]
  | call name args, v, h => by
      simp only [evaluate] at h
      simp only [evaluate, readings]
      cases hName : Function.named? name with
      | none => rfl
      | some function =>
          simp only [hName] at h
          cases function with
          | aggregate f =>
              rw [Reads.outcome_bind_ok_iff] at h
              rcases h with ⟨values, hArgs, -⟩
              dsimp only
              rw [Reads.log_bind_pure,
                log_evaluateAll args hArgs]
          | conditional => exact log_evaluateChoice args h

theorem log_evaluateAll :
    ∀ (args : List Expr) {values : List Value},
      (evaluateAll read args).outcome = .ok values →
        (evaluateAll read args).log =
          readingsOfAll read args
  | [], _, _ => rfl
  | e :: rest, values, h => by
      cases e with
      | range first second =>
          simp only [evaluateAll, Reads.outcome_bind_ok_iff]
            at h
          rcases h with ⟨found, hFound, more, hRest, -⟩
          rw [evaluateAll, Reads.log_bind _ hFound,
            Reads.log_bind_pure, Reader.log_range,
            log_evaluateAll rest hRest, readingsOfAll,
            readings]
      | _ =>
          simp only [evaluateAll, Reads.outcome_bind_ok_iff]
            at h
          rcases h with ⟨value, hFirst, more, hRest, -⟩
          simp only [evaluateAll]
          rw [Reads.log_bind _ hFirst, Reads.log_bind_pure,
            log_evaluate _ hFirst,
            log_evaluateAll rest hRest, readingsOfAll]

theorem log_evaluateChoice :
    ∀ (args : List Expr) {v : Value},
      (evaluateChoice read args).outcome = .ok v →
        (evaluateChoice read args).log =
          readingsOfChoice read args
  | [], _, _ => rfl
  | [_], _, _ => rfl
  | [condition, whenTrue], v, h => by
      simp only [evaluateChoice, Reads.outcome_bind_ok_iff]
        at h
      rcases h with ⟨c, hCondition, hBranch⟩
      simp only [evaluateChoice, readingsOfChoice]
      rw [Reads.log_bind _ hCondition,
        log_evaluate condition hCondition,
        holds_of_ok hCondition]
      split at hBranch
      · next hTrue =>
          rw [if_pos hTrue, if_pos hTrue,
            log_evaluate whenTrue hBranch]
      · next hFalse =>
          rw [if_neg hFalse, if_neg hFalse]
          rfl
  | condition :: whenTrue :: whenFalse :: _, v, h => by
      simp only [evaluateChoice, Reads.outcome_bind_ok_iff]
        at h
      rcases h with ⟨c, hCondition, hBranch⟩
      simp only [evaluateChoice, readingsOfChoice]
      rw [Reads.log_bind _ hCondition,
        log_evaluate condition hCondition,
        holds_of_ok hCondition]
      split at hBranch
      · next hTrue =>
          rw [if_pos hTrue, if_pos hTrue,
            log_evaluate whenTrue hBranch]
      · next hFalse =>
          rw [if_neg hFalse, if_neg hFalse,
            log_evaluate whenFalse hBranch]

end

------------------------------------------------------------
-- Where Readings Come From
------------------------------------------------------------

/-
  A reading is of one of some cells, with the value that is
  read of it, or of one of some ranges.
-/
def ReadFrom
    (read : Reader)
    (cells : List Address)
    (corners : List (Address × Address))
    (reading : Reading) : Prop :=
  (∃ a ∈ cells, ∃ v,
    read a = .ok v ∧ reading = .reference a v)
  ∨ ∃ p ∈ corners,
    reading = .expansion (Range.spanning p.1 p.2)

theorem ReadFrom.mono
    {cells cells' : List Address}
    {corners corners' : List (Address × Address)}
    {reading : Reading}
    (hCells : cells ⊆ cells')
    (hCorners : corners ⊆ corners')
    (h : ReadFrom read cells corners reading) :
    ReadFrom read cells' corners' reading := by
  rcases h with ⟨a, ha, hRead⟩ | ⟨p, hp, hRange⟩
  · exact Or.inl ⟨a, hCells ha, hRead⟩
  · exact Or.inr ⟨p, hCorners hp, hRange⟩

theorem readFrom_of_mem_entries
    {cells : List Address}
    {corners : List (Address × Address)}
    {a : Address}
    {reading : Reading}
    (ha : a ∈ cells)
    (h : reading ∈ read.entries a) :
    ReadFrom read cells corners reading := by
  rcases Reader.mem_entries_iff.mp h with ⟨v, hRead, hEq⟩
  exact Or.inl ⟨a, ha, v, hRead, hEq⟩

/- What a call reads is read of its arguments. -/
theorem exists_of_mem_readingsOfAll
    {args : List Expr}
    {reading : Reading}
    (h : reading ∈ readingsOfAll read args) :
    ∃ e ∈ args, reading ∈ e.readings read := by
  induction args with
  | nil => exact absurd h List.not_mem_nil
  | cons e rest ih =>
      rw [readingsOfAll] at h
      rcases List.mem_append.mp h with h | h
      · exact ⟨e, List.mem_cons_self, h⟩
      · rcases ih h with ⟨e', hMem, h⟩
        exact ⟨e', List.mem_cons_of_mem _ hMem, h⟩

theorem exists_of_mem_readingsOfChoice
    {args : List Expr}
    {reading : Reading}
    (h : reading ∈ readingsOfChoice read args) :
    ∃ e ∈ args, reading ∈ e.readings read := by
  match args, h with
  | [], h => exact absurd h List.not_mem_nil
  | [_], h => exact absurd h List.not_mem_nil
  | [condition, whenTrue], h =>
      rcases List.mem_append.mp h with h | h
      · exact ⟨condition, by simp, h⟩
      · split at h
        · exact ⟨whenTrue, by simp, h⟩
        · exact absurd h List.not_mem_nil
  | condition :: whenTrue :: whenFalse :: _, h =>
      rcases List.mem_append.mp h with h | h
      · exact ⟨condition, by simp, h⟩
      · split at h
        · exact ⟨whenTrue, by simp, h⟩
        · exact ⟨whenFalse, by simp, h⟩

mutual

/-
  What an expression reads are cells and ranges of its own,
  however deep the formulas behind the cells are.
-/
theorem readFrom_of_mem_readings :
    ∀ (e : Expr) {reading : Reading},
      reading ∈ e.readings read →
        ReadFrom read e.targets e.ranges reading
  | number _, _, h => absurd h List.not_mem_nil
  | text _, _, h => absurd h List.not_mem_nil
  | boolean _, _, h => absurd h List.not_mem_nil
  | cell a, _, h =>
      readFrom_of_mem_entries List.mem_cons_self h
  | range first second, reading, h => by
      simp only [readings, Reader.rangeEntries,
        List.mem_append, List.mem_flatMap,
        List.mem_singleton] at h
      rcases h with ⟨a, ha, hEntry⟩ | hRange
      · exact readFrom_of_mem_entries ha hEntry
      · exact Or.inr ⟨_, List.mem_cons_self, hRange⟩
  | binary op left right, reading, h => by
      rw [readings] at h
      rcases List.mem_append.mp h with h | h
      · exact (readFrom_of_mem_readings left h).mono
          (List.subset_append_left _ _)
          (List.subset_append_left _ _)
      · exact (readFrom_of_mem_readings right h).mono
          (List.subset_append_right _ _)
          (List.subset_append_right _ _)
  | negate operand, _, h =>
      readFrom_of_mem_readings operand h
  | call name args, reading, h => by
      have hArgument :
          ∃ e ∈ args, reading ∈ e.readings read := by
        simp only [readings] at h
        split at h
        · exact absurd h List.not_mem_nil
        · exact exists_of_mem_readingsOfAll h
        · exact exists_of_mem_readingsOfChoice h
      exact readFrom_of_argument args hArgument

theorem readFrom_of_argument :
    ∀ (args : List Expr) {reading : Reading},
      (∃ e ∈ args, reading ∈ e.readings read) →
        ReadFrom read (targetsOfAll args) (rangesOfAll args)
          reading
  | [], _, h => by
      rcases h with ⟨e, hMem, -⟩
      exact absurd hMem List.not_mem_nil
  | e :: rest, reading, h => by
      rcases h with ⟨e', hMem, h⟩
      rcases List.mem_cons.mp hMem with hEq | hMem
      · rw [hEq] at h
        exact (readFrom_of_mem_readings e h).mono
          (List.subset_append_left _ _)
          (List.subset_append_left _ _)
      · exact (readFrom_of_argument rest ⟨e', hMem, h⟩).mono
          (List.subset_append_right _ _)
          (List.subset_append_right _ _)

end

end Expr

------------------------------------------------------------
-- Explanations
------------------------------------------------------------

namespace Sheet

variable {sheet : Sheet}
variable {known : CellMap Outcome}
variable {a : Address}

/-
  What a formula reads of a cell if the cell is evaluated by
  itself. Where there is no cell there is nothing to read.
-/
def readPlain
    (sheet : Sheet)
    (a : Address) : Except FormulaError Value :=
  match sheet.get? a with
  | none => .error (.badReference a.relative)
  | some _ => (sheet.evaluateCell false a).outcome.toResult

/- This is how references read with nothing visited. -/
theorem readPlain_eq
    (sheet : Sheet) :
    sheet.readPlain = sheet.readReference .empty [] := by
  funext a
  have hRead := readReference_eq sheet .empty [] a
  have hEvaluate := evaluateCellWith_eq sheet .empty false a
  rw [if_neg List.not_mem_nil] at hRead
  unfold readPlain evaluateCell
  cases hGet : sheet.get? a with
  | none => rw [hRead, content?, hGet]; rfl
  | some cell =>
      have hContent : sheet.content? a = some cell.content :=
        congrArg (Option.map Cell.content) hGet
      cases cell with
      | literal value =>
          rw [hRead, hEvaluate, hContent]
          rfl
      | error code message =>
          rw [hRead, hEvaluate, hContent]
          rfl
      | formula source parsed =>
          rw [readReference_nil .empty hContent,
            CellMap.get?_empty, Option.getD_none]

theorem readPlain_ok_iff
    {v : Value} :
    sheet.readPlain a = .ok v ↔
      sheet.get? a ≠ none
        ∧ (sheet.evaluateCell false a).outcome =
          .value v := by
  unfold readPlain
  cases sheet.get? a with
  | none => simp
  | some cell =>
      cases (sheet.evaluateCell false a).outcome with
      | value w => simp [Outcome.toResult]
      | error e => simp [Outcome.toResult]

/-
  The explanation of the value of a cell with a formula:
  what its expression reads, one step each.
-/
def explanation
    (sheet : Sheet)
    (a : Address)
    (source : String)
    (e : Expr) : List Step :=
  (e.readings sheet.readPlain).map fun reading =>
    ⟨a.relative, some source, reading⟩

/- Steps are given for formulas that have a value. -/
theorem isSome_steps_iff
    {explain : Bool} :
    (sheet.evaluateCellWith known explain a
        ).steps.isSome = true ↔
      explain = true
        ∧ Engine.holdsFormula sheet a = true
        ∧ ∃ v,
          (sheet.evaluateCellWith known explain a).outcome =
            .value v := by
  rw [evaluateCellWith_eq, holdsFormula_eq]
  cases hContent : sheet.content? a with
  | none => simp
  | some content =>
      cases content with
      | literal value => simp [Content.isFormula]
      | error code message => simp [Content.isFormula]
      | formula source reading =>
          cases reading with
          | error e =>
              simp [Content.isFormula, Outcome.ofResult]
          | ok e =>
              dsimp only
              cases (e.evaluate (sheet.readReference known
                  [a.relative])).outcome with
              | error err =>
                  simp [Content.isFormula, Outcome.ofResult]
              | ok v =>
                  cases explain <;>
                    simp [Content.isFormula]

/- A formula that reaches no cycle is explained. -/
theorem steps_evaluateCell
    {source : String}
    {parsed : Option Expr}
    {v : Value}
    (hGet : sheet.get? a = some (.formula source parsed))
    (hCycle : ¬ sheet.ReachesCycle Expr.targets a)
    (hValue :
      (sheet.evaluateCell true a).outcome = .value v) :
    ∃ e, Cell.expr source parsed = .ok e
      ∧ (sheet.evaluateCell true a).steps =
        some (sheet.explanation a source e) := by
  have hContent :
      sheet.content? a =
        some (.formula source (Cell.expr source parsed)) :=
    congrArg (Option.map Cell.content) hGet
  unfold evaluateCell at hValue ⊢
  rw [evaluateCellWith_eq, hContent] at hValue ⊢
  cases hExpr : Cell.expr source parsed with
  | error err =>
      rw [hExpr] at hValue
      cases hValue
  | ok e =>
      rw [hExpr] at hContent hValue
      have hReads :=
        evaluate_eq_plain (expr?_of_content? hContent) hCycle
      rw [← readPlain_eq] at hReads
      dsimp only at hValue ⊢
      rw [hReads] at hValue ⊢
      cases hOutcome :
          (e.evaluate sheet.readPlain).outcome with
      | error err =>
          rw [hOutcome] at hValue
          cases hValue
      | ok w =>
          refine ⟨e, rfl, ?_⟩
          rw [explanation, ← Expr.log_evaluate e hOutcome]
          rfl

/-
  Explaining a cell, whatever is known of others, gives the
  outcome that it has without, and steps if it holds a
  formula that has a value. If the formula reaches no cycle
  and nothing is known of others, the steps are those of its
  explanation. Each names the cell and its source, and
  either one cell that the formula refers to, with the value
  it has by itself, or one of the ranges of the formula.
-/
theorem evaluateCell_explained
    (sheet : Sheet)
    (a : Address) :
    (∀ known,
      (sheet.evaluateCellWith known true a).outcome =
          (sheet.evaluateCellWith known false a).outcome
        ∧ ∀ explain,
          (sheet.evaluateCellWith known explain a
              ).steps.isSome = true ↔
            explain = true
              ∧ Engine.holdsFormula sheet a = true
              ∧ ∃ v,
                (sheet.evaluateCellWith known explain a
                  ).outcome = .value v)
    ∧ ∀ source parsed v,
      sheet.get? a = some (.formula source parsed) →
      ¬ sheet.ReachesCycle Expr.targets a →
      (sheet.evaluateCell true a).outcome = .value v →
      ∃ e, Cell.expr source parsed = .ok e
        ∧ (sheet.evaluateCell true a).steps =
          some (sheet.explanation a source e)
        ∧ ∀ step ∈ sheet.explanation a source e,
          step.cell = a.relative
            ∧ step.source = some source
            ∧ ((∃ d ∈ e.targets,
                d.relative = d
                  ∧ step.reading.dependencies = [d]
                  ∧ step.reading.ranges = []
                  ∧ sheet.get? d ≠ none
                  ∧ (sheet.evaluateCell false d).outcome =
                    .value step.reading.value)
              ∨ ∃ p ∈ e.ranges,
                step.reading.dependencies = []
                  ∧ step.reading.ranges =
                    [Range.spanning p.1 p.2]
                  ∧ step.reading.value = .empty) := by
  refine ⟨fun known => ⟨?_, fun explain => ?_⟩, ?_⟩
  · exact outcome_evaluateCellWith _ _ _ _
  · exact isSome_steps_iff
  · intro source parsed v hGet hCycle hValue
    rcases steps_evaluateCell hGet hCycle hValue with
      ⟨e, hExpr, hSteps⟩
    refine ⟨e, hExpr, hSteps, ?_⟩
    intro step hStep
    rcases List.mem_map.mp hStep with ⟨reading, hMem, rfl⟩
    refine ⟨rfl, rfl, ?_⟩
    rcases Expr.readFrom_of_mem_readings e hMem with
      ⟨d, hd, w, hRead, rfl⟩ | ⟨p, hp, rfl⟩
    · have hPlain := readPlain_ok_iff.mp hRead
      exact Or.inl ⟨d, hd,
        Expr.relative_of_mem_targets e hd, rfl, rfl, hPlain⟩
    · exact Or.inr ⟨p, hp, rfl, rfl, rfl⟩

/-
  A choice between a range and a cell, over cells that hold
  a truth value, nothing, a formula, an error and another
  truth value.
-/
def choiceSheet : Sheet :=
  { blank "Choice" 6 1 .epoch with
    cells := CellMap.ofList
      [(.ofPosition 0 0,
          .formula "=IF(A2,A5:A3,A6)"
            (some (.call "IF"
              [.cell (.ofPosition 1 0),
                .range (.ofPosition 4 0) (.ofPosition 2 0),
                .cell (.ofPosition 5 0)]))),
        (.ofPosition 1 0, .literal (.boolean true)),
        (.ofPosition 3 0,
          .formula "=A2" (some (.cell (.ofPosition 1 0)))),
        (.ofPosition 4 0, .error .parse "broken"),
        (.ofPosition 5 0, .literal (.boolean false))] }

/- References on the sheet end at cells without formulas. -/
theorem not_reachesCycle_choiceSheet :
    ¬ choiceSheet.ReachesCycle Expr.targets
      (.ofPosition 0 0) := by
  have hFormula :
      ¬ choiceSheet.ReachesCycle Expr.targets
        (.ofPosition 3 0) :=
    not_reachesCycle_of_targets rfl
      (List.forall_mem_singleton.mpr
        (not_reachesCycle_of_expr? rfl))
  apply not_reachesCycle_of_targets rfl
  intro b hMem
  have hTargets :
      b ∈ [Address.ofPosition 1 0, .ofPosition 2 0,
        .ofPosition 3 0, .ofPosition 4 0,
        .ofPosition 5 0] :=
    hMem
  simp only [List.mem_cons, List.not_mem_nil, or_false]
    at hTargets
  rcases hTargets with rfl | rfl | rfl | rfl | rfl
  · exact not_reachesCycle_of_expr? rfl
  · exact not_reachesCycle_of_expr? rfl
  · exact hFormula
  · exact not_reachesCycle_of_expr? rfl
  · exact not_reachesCycle_of_expr? rfl

/-
  The condition has been read, then the one cell of the
  range that has a value, and the range.
-/
theorem evaluateCell_choiceSheet :
    ¬ choiceSheet.ReachesCycle Expr.targets
        (.ofPosition 0 0)
      ∧ (choiceSheet.evaluateCell true (.ofPosition 0 0)
          ).outcome =
        .value (.boolean true)
      ∧ (choiceSheet.evaluateCell true (.ofPosition 0 0)
          ).steps =
        some
          ([.reference (.ofPosition 1 0) (.boolean true),
            .reference (.ofPosition 3 0) (.boolean true),
            .expansion
              (Range.spanning (.ofPosition 4 0)
                (.ofPosition 2 0))].map fun reading =>
            ⟨.ofPosition 0 0, some "=IF(A2,A5:A3,A6)",
              reading⟩) := by
  have hValue :
      (choiceSheet.evaluateCell true (.ofPosition 0 0)
          ).outcome =
        .value (.boolean true) := by
    cbv
  refine ⟨not_reachesCycle_choiceSheet, hValue, ?_⟩
  rcases (choiceSheet.evaluateCell_explained
      (.ofPosition 0 0)).2 "=IF(A2,A5:A3,A6)" _
      (.boolean true) rfl not_reachesCycle_choiceSheet
      hValue with
    ⟨e, hExpr, hSteps, -⟩
  cases (hExpr : Except.ok _ = Except.ok e)
  rw [hSteps]
  cbv

end Sheet

end Spreadsheet
