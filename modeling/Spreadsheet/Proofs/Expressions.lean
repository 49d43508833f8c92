import Mathlib.Data.List.Basic
import Spreadsheet.Evaluation.Reading
import Spreadsheet.Proofs.References

/-
  How the evaluation of an expression depends on its reader:
  only through the targets of the expression. It fails if a
  strict reference fails, and an error that it does not
  raise itself is that of a target.

  Main declarations:
    * `Reads.bind_of_ok` and `Reads.bind_of_error`
    * `Expr.evaluate_congr`
    * `Expr.error_of_strictTarget`
    * `Expr.error_source`
-/

namespace Spreadsheet

------------------------------------------------------------
-- Steps In A Row
------------------------------------------------------------

namespace Reads

variable {α β : Type}

@[simp]
theorem outcome_pure
    (a : α) : (pure a : Reads α).outcome = .ok a :=
  rfl

@[simp]
theorem log_pure
    (a : α) : (pure a : Reads α).log = [] :=
  rfl

@[simp]
theorem outcome_ofExcept
    (r : Except FormulaError α) :
    (ofExcept r).outcome = r :=
  rfl

/- After a value, the log goes on. -/
theorem bind_of_ok
    {first : Reads α}
    {next : α → Reads β}
    {a : α}
    (h : first.outcome = .ok a) :
    first >>= next =
      ⟨(next a).outcome, first.log ++ (next a).log⟩ := by
  change Reads.bind first next = _
  simp only [Reads.bind, h]

theorem ok_bind
    (a : α)
    (log : List Reading)
    (next : α → Reads β) :
    (⟨.ok a, log⟩ : Reads α) >>= next =
      ⟨(next a).outcome, log ++ (next a).log⟩ :=
  bind_of_ok rfl

/- After an error, nothing more is done. -/
theorem bind_of_error
    {first : Reads α}
    {next : α → Reads β}
    {e : FormulaError}
    (h : first.outcome = .error e) :
    first >>= next = ⟨.error e, first.log⟩ := by
  change Reads.bind first next = _
  simp only [Reads.bind, h]

theorem outcome_bind
    (first : Reads α)
    (next : α → Reads β) :
    (first >>= next).outcome =
      first.outcome.bind fun a => (next a).outcome := by
  cases hFirst : first.outcome with
  | error e => rw [bind_of_error hFirst, Except.bind]
  | ok a => rw [bind_of_ok hFirst, Except.bind]

theorem outcome_bind_pure
    (first : Reads α)
    (f : α → β) :
    (first >>= fun a => pure (f a)).outcome =
      first.outcome.map f := by
  rw [outcome_bind]
  cases first.outcome <;> rfl

theorem log_bind
    {first : Reads α}
    (next : α → Reads β)
    {a : α}
    (h : first.outcome = .ok a) :
    (first >>= next).log = first.log ++ (next a).log := by
  rw [bind_of_ok h]

/- What is made of a value is not logged. -/
theorem log_bind_pure
    (first : Reads α)
    (f : α → β) :
    (first >>= fun a => pure (f a)).log = first.log := by
  cases hFirst : first.outcome with
  | error e => rw [bind_of_error hFirst]
  | ok a =>
      rw [log_bind _ hFirst, log_pure, List.append_nil]

/- A value comes from the values of both steps. -/
theorem outcome_bind_ok_iff
    {first : Reads α}
    {next : α → Reads β}
    {b : β} :
    (first >>= next).outcome = .ok b ↔
      ∃ a, first.outcome = .ok a
        ∧ (next a).outcome = .ok b := by
  rw [outcome_bind]
  cases first.outcome with
  | error e => simp [Except.bind]
  | ok a => simp [Except.bind]

/- An error comes from the first step that has one. -/
theorem outcome_bind_error_iff
    {first : Reads α}
    {next : α → Reads β}
    {e : FormulaError} :
    (first >>= next).outcome = .error e ↔
      first.outcome = .error e
        ∨ ∃ a, first.outcome = .ok a
          ∧ (next a).outcome = .error e := by
  rw [outcome_bind]
  cases first.outcome with
  | error e => simp [Except.bind]
  | ok a => simp [Except.bind]

/- Steps with the same outcomes end in the same outcome. -/
theorem outcome_bind_congr
    {first first' : Reads α}
    {next next' : α → Reads β}
    (hFirst : first'.outcome = first.outcome)
    (hNext : ∀ a, (next' a).outcome = (next a).outcome) :
    (first' >>= next').outcome =
      (first >>= next).outcome := by
  rw [outcome_bind, outcome_bind, hFirst, funext hNext]

end Reads

------------------------------------------------------------
-- Readers
------------------------------------------------------------

namespace Reader

variable {read read' : Reader}

theorem outcome_cell
    (read : Reader)
    (a : Address) :
    (read.cell a).outcome = read a.relative := by
  unfold cell
  cases read a.relative <;> rfl

/- Reading a range never fails. -/
theorem outcome_range
    (read : Reader)
    (r : Range) :
    ∃ values, (read.range r).outcome = .ok values :=
  ⟨_, rfl⟩

/- A range depends on its reader through its cells. -/
theorem range_congr
    {r : Range}
    (h : ∀ a ∈ r.cells .columnMajor, read a = read' a) :
    read.range r = read'.range r := by
  have hReadable : read.readable r = read'.readable r := by
    unfold readable
    refine List.filterMap_congr ?_
    intro a ha
    rw [h a ha]
  unfold range
  rw [hReadable]

theorem cell_congr
    {a : Address}
    (h : read a.relative = read' a.relative) :
    read.cell a = read'.cell a := by
  unfold cell
  rw [h]

end Reader

namespace Expr

variable {read read' : Reader}

------------------------------------------------------------
-- Dependence On The Reader
------------------------------------------------------------

mutual

/-
  Readers that agree on the targets of an expression give it
  the same value or error, and the same log.
-/
theorem evaluate_congr :
    ∀ e : Expr,
      (∀ a ∈ e.targets, read a = read' a) →
        e.evaluate read = e.evaluate read'
  | number _, _ => rfl
  | text _, _ => rfl
  | boolean _, _ => rfl
  | cell a, h => by
      simp only [evaluate]
      exact Reader.cell_congr (h _ List.mem_cons_self)
  | range first second, h => by
      simp only [evaluate]
      rw [Reader.range_congr h]
  | binary op left right, h => by
      have hLeft := evaluate_congr left
        fun a ha => h a (List.mem_append_left _ ha)
      have hRight := evaluate_congr right
        fun a ha => h a (List.mem_append_right _ ha)
      simp only [evaluate, hLeft, hRight]
  | negate operand, h => by
      simp only [evaluate, evaluate_congr operand h]
  | call name args, h => by
      simp only [evaluate, evaluateAll_congr args h,
        evaluateChoice_congr args h]

theorem evaluateAll_congr :
    ∀ args : List Expr,
      (∀ a ∈ targetsOfAll args, read a = read' a) →
        evaluateAll read args = evaluateAll read' args
  | [], _ => rfl
  | e :: rest, h => by
      have hFirst :
          ∀ a ∈ e.targets, read a = read' a :=
        fun a ha => h a (List.mem_append_left _ ha)
      have hRest := evaluateAll_congr rest
        fun a ha => h a (List.mem_append_right _ ha)
      cases e with
      | range first second =>
          simp only [evaluateAll, hRest]
          rw [Reader.range_congr hFirst]
      | _ =>
          simp only [evaluateAll, hRest,
            evaluate_congr _ hFirst]

theorem evaluateChoice_congr :
    ∀ args : List Expr,
      (∀ a ∈ targetsOfAll args, read a = read' a) →
        evaluateChoice read args
          = evaluateChoice read' args
  | [], _ => rfl
  | [_], _ => rfl
  | [condition, whenTrue], h => by
      simp only [targetsOfAll, List.mem_append] at h
      have hCondition := evaluate_congr condition
        fun a ha => h a (Or.inl ha)
      have hTrue := evaluate_congr whenTrue
        fun a ha => h a (Or.inr (Or.inl ha))
      simp only [evaluateChoice, hCondition, hTrue]
  | condition :: whenTrue :: whenFalse :: _, h => by
      simp only [targetsOfAll, List.mem_append] at h
      have hCondition := evaluate_congr condition
        fun a ha => h a (Or.inl ha)
      have hTrue := evaluate_congr whenTrue
        fun a ha => h a (Or.inr (Or.inl ha))
      have hFalse := evaluate_congr whenFalse
        fun a ha => h a (Or.inr (Or.inr (Or.inl ha)))
      simp only [evaluateChoice, hCondition, hTrue, hFalse]

end

------------------------------------------------------------
-- Strict References
------------------------------------------------------------

mutual

/-
  An expression has a value only if all its strict
  references do.
-/
theorem strictTarget_ok :
    ∀ (e : Expr) {v : Value},
      (e.evaluate read).outcome = .ok v →
        ∀ a ∈ e.strictTargets, ∃ w, read a = .ok w
  | number _, _, _ => by simp [strictTargets]
  | text _, _, _ => by simp [strictTargets]
  | boolean _, _, _ => by simp [strictTargets]
  | range _ _, _, _ => by simp [strictTargets]
  | cell a, v, h => by
      simp only [evaluate, Reader.outcome_cell] at h
      intro b hb
      have hEq : b = a.relative := by
        simpa [strictTargets] using hb
      exact ⟨v, hEq ▸ h⟩
  | binary op left right, v, h => by
      simp only [evaluate, Reads.outcome_bind_ok_iff] at h
      rcases h with ⟨x, hLeft, y, hRight, -⟩
      intro a ha
      rcases List.mem_append.mp ha with ha | ha
      · exact strictTarget_ok left hLeft a ha
      · exact strictTarget_ok right hRight a ha
  | negate operand, v, h => by
      simp only [evaluate, Reads.outcome_bind_ok_iff] at h
      rcases h with ⟨x, hOperand, -⟩
      exact strictTarget_ok operand hOperand
  | call name args, v, h => by
      simp only [evaluate] at h
      simp only [strictTargets]
      cases hName : Function.named? name with
      | none =>
          intro a ha
          cases ha
      | some function =>
          simp only [hName] at h
          cases function with
          | aggregate f =>
              rw [Reads.outcome_bind_ok_iff] at h
              rcases h with ⟨values, hArgs, -⟩
              exact strictTargetOfAll_ok args hArgs
          | conditional =>
              exact strictTargetOfChoice_ok args h

theorem strictTargetOfAll_ok :
    ∀ (args : List Expr) {values : List Value},
      (evaluateAll read args).outcome = .ok values →
        ∀ a ∈ strictTargetsOfAll args, ∃ w, read a = .ok w
  | [], _, _ => by simp [strictTargetsOfAll]
  | e :: rest, values, h => by
      intro a ha
      cases e with
      | range first second =>
          simp only [evaluateAll, Reads.outcome_bind_ok_iff]
            at h
          rcases h with ⟨found, -, more, hRest, -⟩
          simp only [strictTargetsOfAll, strictTargets,
            List.nil_append] at ha
          exact strictTargetOfAll_ok rest hRest a ha
      | _ =>
          simp only [evaluateAll, Reads.outcome_bind_ok_iff]
            at h
          rcases h with ⟨value, hFirst, more, hRest, -⟩
          simp only [strictTargetsOfAll] at ha
          rcases List.mem_append.mp ha with ha | ha
          · exact strictTarget_ok _ hFirst a ha
          · exact strictTargetOfAll_ok rest hRest a ha

theorem strictTargetOfChoice_ok :
    ∀ (args : List Expr) {v : Value},
      (evaluateChoice read args).outcome = .ok v →
        ∀ a ∈ strictTargetsOfChoice args,
          ∃ w, read a = .ok w
  | [], _, _ => by simp [strictTargetsOfChoice]
  | [_], _, _ => by simp [strictTargetsOfChoice]
  | [condition, whenTrue], v, h => by
      simp only [evaluateChoice, Reads.outcome_bind_ok_iff]
        at h
      rcases h with ⟨c, hCondition, -⟩
      exact strictTarget_ok condition hCondition
  | condition :: whenTrue :: whenFalse :: rest, v, h => by
      simp only [evaluateChoice, Reads.outcome_bind_ok_iff]
        at h
      rcases h with ⟨c, hCondition, -⟩
      exact strictTarget_ok condition hCondition

end

/- A strict reference that fails makes evaluation fail. -/
theorem error_of_strictTarget
    {e : Expr}
    {a : Address}
    {err : FormulaError}
    (hMem : a ∈ e.strictTargets)
    (hRead : read a = .error err) :
    ∃ err', (e.evaluate read).outcome = .error err' := by
  cases h : (e.evaluate read).outcome with
  | error err' => exact ⟨err', rfl⟩
  | ok v =>
      rcases strictTarget_ok e h a hMem with ⟨w, hw⟩
      rw [hRead] at hw
      cases hw

------------------------------------------------------------
-- Where Errors Come From
------------------------------------------------------------

/- The errors that expressions raise by themselves. -/
def RaisedHere
    (err : FormulaError) : Prop :=
  err = .divisionByZero
    ∨ ∃ name, err = .unknownFunction name

/- Operators raise no other errors. -/
theorem raisedHere_of_apply
    {op : BinaryOperator}
    {x y : Value}
    {err : FormulaError}
    (h : op.apply x y = .error err) : RaisedHere err := by
  cases op with
  | divide =>
      simp only [BinaryOperator.apply] at h
      split at h
      · exact Or.inl (Except.error.inj h).symm
      · cases h
  | _ => cases h

/-
  Where an error comes from: it is raised by expressions
  themselves, or it is that of one of the cells given.
-/
def ErrorFrom
    (read : Reader)
    (cells : List Address)
    (err : FormulaError) : Prop :=
  RaisedHere err ∨ ∃ a ∈ cells, read a = .error err

theorem ErrorFrom.mono
    {cells cells' : List Address}
    {err : FormulaError}
    (hSub : cells ⊆ cells')
    (h : ErrorFrom read cells err) :
    ErrorFrom read cells' err := by
  rcases h with hRaised | ⟨a, ha, hRead⟩
  · exact Or.inl hRaised
  · exact Or.inr ⟨a, hSub ha, hRead⟩

mutual

/-
  The error of an expression is raised by the expression
  itself, or is that of a cell among its targets.
-/
theorem error_source :
    ∀ (e : Expr) {err : FormulaError},
      (e.evaluate read).outcome = .error err →
        ErrorFrom read e.targets err
  | number _, _, h => by simp [evaluate] at h
  | text _, _, h => by simp [evaluate] at h
  | boolean _, _, h => by simp [evaluate] at h
  | cell a, err, h => by
      simp only [evaluate, Reader.outcome_cell] at h
      exact Or.inr ⟨_, List.mem_cons_self, h⟩
  | range first second, err, h => by
      rcases Reader.outcome_range read
          (Range.spanning first second) with
        ⟨values, hRange⟩
      simp [evaluate, Reads.outcome_bind_error_iff, hRange]
        at h
  | binary op left right, err, h => by
      simp only [evaluate, Reads.outcome_bind_error_iff,
        Reads.outcome_ofExcept] at h
      rcases h with
        hLeft | ⟨x, -, hRight | ⟨y, -, hApply⟩⟩
      · apply (error_source left hLeft).mono
        exact List.subset_append_left _ _
      · apply (error_source right hRight).mono
        exact List.subset_append_right _ _
      · exact Or.inl (raisedHere_of_apply hApply)
  | negate operand, err, h => by
      simp only [evaluate, Reads.outcome_bind_error_iff,
        Reads.outcome_pure, reduceCtorEq, and_false,
        exists_false, or_false] at h
      exact error_source operand h
  | call name args, err, h => by
      simp only [evaluate] at h
      split at h
      · exact Or.inl
          (Or.inr ⟨name, (Except.error.inj h).symm⟩)
      · simp only [Reads.outcome_bind_error_iff,
          Reads.outcome_pure, reduceCtorEq, and_false,
          exists_false, or_false] at h
        exact error_sourceOfAll args h
      · exact error_sourceOfChoice args h

theorem error_sourceOfAll :
    ∀ (args : List Expr) {err : FormulaError},
      (evaluateAll read args).outcome = .error err →
        ErrorFrom read (targetsOfAll args) err
  | [], _, h => by simp [evaluateAll] at h
  | e :: rest, err, h => by
      have hLater :
          (evaluateAll read rest).outcome = .error err →
            ErrorFrom read (targetsOfAll (e :: rest)) err :=
        fun hRest => (error_sourceOfAll rest hRest).mono
          (List.subset_append_right _ _)
      cases e with
      | range first second =>
          rcases Reader.outcome_range read
              (Range.spanning first second) with
            ⟨found, hRange⟩
          simp only [evaluateAll,
            Reads.outcome_bind_error_iff, hRange,
            Reads.outcome_pure, reduceCtorEq, and_false,
            exists_false, or_false, false_or] at h
          rcases h with ⟨-, -, hRest⟩
          exact hLater hRest
      | _ =>
          simp only [evaluateAll,
            Reads.outcome_bind_error_iff,
            Reads.outcome_pure, reduceCtorEq, and_false,
            exists_false, or_false] at h
          rcases h with hFirst | ⟨x, -, hRest⟩
          · apply (error_source _ hFirst).mono
            exact List.subset_append_left _ _
          · exact hLater hRest

theorem error_sourceOfChoice :
    ∀ (args : List Expr) {err : FormulaError},
      (evaluateChoice read args).outcome = .error err →
        ErrorFrom read (targetsOfAll args) err
  | [], _, h => by simp [evaluateChoice] at h
  | [_], _, h => by simp [evaluateChoice] at h
  | [condition, whenTrue], err, h => by
      simp only [evaluateChoice,
        Reads.outcome_bind_error_iff] at h
      rcases h with hCondition | ⟨c, -, hBranch⟩
      · apply (error_source condition hCondition).mono
        exact targets_subset_targetsOfAll (by simp)
      · split at hBranch
        · apply (error_source whenTrue hBranch).mono
          exact targets_subset_targetsOfAll (by simp)
        · simp at hBranch
  | condition :: whenTrue :: whenFalse :: rest, err, h => by
      simp only [evaluateChoice,
        Reads.outcome_bind_error_iff] at h
      rcases h with hCondition | ⟨c, -, hBranch⟩
      · apply (error_source condition hCondition).mono
        exact targets_subset_targetsOfAll (by simp)
      · split at hBranch
        · apply (error_source whenTrue hBranch).mono
          exact targets_subset_targetsOfAll (by simp)
        · apply (error_source whenFalse hBranch).mono
          exact targets_subset_targetsOfAll (by simp)

end

end Expr

end Spreadsheet
