import Spreadsheet.Proofs.CycleDetection

/-
  When one result refines another: both are the same, or the
  first one is a circular reference. Readers whose results
  refine each other make expressions do so too, as errors
  end an evaluation. Ranges do not pass errors on, so their
  cells have to have the same values.

  Main declarations:
    * `Circular`, `Refines` and `SameValue`
    * `Expr.rangeTargets`
    * `Expr.refines_evaluate`
-/

namespace Spreadsheet

variable {α β : Type}

------------------------------------------------------------
-- Results
------------------------------------------------------------

/- Whether a result is a circular reference. -/
def Circular
    (r : Except FormulaError α) : Prop :=
  ∃ e, r = .error e ∧ e.code = .cycle

/- A result is another one, if it is not circular. -/
def Refines
    (r r' : Except FormulaError α) : Prop :=
  r = r' ∨ Circular r

/- Two results have the same value, or neither has one. -/
def SameValue
    (r r' : Except FormulaError α) : Prop :=
  ∀ v, r = .ok v ↔ r' = .ok v

theorem Refines.refl
    (r : Except FormulaError α) : Refines r r :=
  Or.inl rfl

theorem SameValue.refl
    (r : Except FormulaError α) : SameValue r r :=
  fun _ => Iff.rfl

/- A circular reference is refined by itself alone. -/
theorem Refines.circular
    {r r' : Except FormulaError α}
    (h : Refines r r')
    (hCircular : Circular r') : Circular r := by
  rcases h with rfl | hOwn
  · exact hCircular
  · exact hOwn

theorem Refines.trans
    {r r' r'' : Except FormulaError α}
    (h : Refines r r')
    (h' : Refines r' r'') : Refines r r'' := by
  rcases h with rfl | hOwn
  · exact h'
  · exact Or.inr hOwn

/- What refines in both ways has the same values. -/
theorem Refines.sameValue
    {r r' : Except FormulaError α}
    (h : Refines r r')
    (h' : Refines r' r) : SameValue r r' := by
  intro v
  rcases h with rfl | ⟨e, rfl, hCode⟩
  · exact Iff.rfl
  · rcases h' with rfl | ⟨e', rfl, -⟩
    · exact Iff.rfl
    · simp

namespace Reads

/- Steps in a row refine others, if each step does. -/
theorem refines_bind
    {first first' : Reads α}
    {next next' : α → Reads β}
    (hFirst : Refines first.outcome first'.outcome)
    (hNext :
      ∀ a, Refines (next a).outcome (next' a).outcome) :
    Refines (first >>= next).outcome
      (first' >>= next').outcome := by
  change Refines (Reads.bind first next).outcome
    (Reads.bind first' next').outcome
  unfold Reads.bind
  rcases hFirst with hSame | ⟨e, hError, hCode⟩
  · rw [hSame]
    cases first'.outcome with
    | error e => exact .refl _
    | ok a => exact hNext a
  · rw [hError]
    exact Or.inr ⟨e, rfl, hCode⟩

end Reads

------------------------------------------------------------
-- Expressions
------------------------------------------------------------

namespace Expr

/- The cells of the ranges in an expression. -/
def rangeTargets
    (e : Expr) : List Address :=
  e.ranges.flatMap fun p =>
    (Range.spanning p.1 p.2).cells .columnMajor

def rangeTargetsOfAll
    (args : List Expr) : List Address :=
  (rangesOfAll args).flatMap fun p =>
    (Range.spanning p.1 p.2).cells .columnMajor

@[simp]
theorem rangeTargets_range
    (first second : Address) :
    (range first second).rangeTargets =
      (Range.spanning first second).cells .columnMajor := by
  simp only [rangeTargets, ranges, List.flatMap_cons,
    List.flatMap_nil, List.append_nil]

@[simp]
theorem rangeTargets_binary
    (op : BinaryOperator)
    (left right : Expr) :
    (binary op left right).rangeTargets =
      left.rangeTargets ++ right.rangeTargets :=
  List.flatMap_append

@[simp]
theorem rangeTargetsOfAll_cons
    (e : Expr)
    (rest : List Expr) :
    rangeTargetsOfAll (e :: rest) =
      e.rangeTargets ++ rangeTargetsOfAll rest :=
  List.flatMap_append

end Expr

/- Ranges only see the values of their cells. -/
theorem Reader.range_eq_of_sameValue
    {read read' : Reader}
    {r : Range}
    (h :
      ∀ a ∈ r.cells .columnMajor,
        SameValue (read a) (read' a)) :
    read.range r = read'.range r := by
  have hReadable : read.readable r = read'.readable r := by
    unfold readable
    refine List.filterMap_congr ?_
    intro a ha
    have hSame := h a ha
    cases hRead : read a with
    | ok v =>
        rw [(hSame v).mp hRead]
    | error e =>
        cases hRead' : read' a with
        | ok v =>
            rw [(hSame v).mpr hRead'] at hRead
            cases hRead
        | error e' => rfl
  unfold range
  rw [hReadable]

namespace Expr

variable {read read' : Reader}

/-
  One reader refines another one on the targets of an
  expression, and gives cells of ranges the same values.
-/
structure RefinesOn
    (targets rangeTargets : List Address)
    (read read' : Reader) : Prop where
  cells : ∀ a ∈ targets, Refines (read a) (read' a)
  ranges : ∀ a ∈ rangeTargets, SameValue (read a) (read' a)

theorem RefinesOn.of_append
    {cells cells' inRanges inRanges' : List Address}
    (h :
      RefinesOn (cells ++ cells') (inRanges ++ inRanges')
        read read') :
    RefinesOn cells inRanges read read'
      ∧ RefinesOn cells' inRanges' read read' := by
  refine ⟨⟨?_, ?_⟩, ⟨?_, ?_⟩⟩
  · exact fun a ha => h.cells a (List.mem_append_left _ ha)
  · exact fun a ha => h.ranges a (List.mem_append_left _ ha)
  · exact fun a ha => h.cells a (List.mem_append_right _ ha)
  · exact fun a ha => h.ranges a (List.mem_append_right _ ha)

mutual

/-
  Readers that refine each other make expressions do so: an
  operand that fails ends the evaluation, and a condition
  that fails chooses nothing.
-/
theorem refines_evaluate :
    ∀ e : Expr,
      RefinesOn e.targets e.rangeTargets read read' →
        Refines (e.evaluate read).outcome
          (e.evaluate read').outcome
  | number _, _ => .refl _
  | text _, _ => .refl _
  | boolean _, _ => .refl _
  | cell a, h => by
      simp only [evaluate, Reader.outcome_cell]
      exact h.cells _ List.mem_cons_self
  | range first second, h => by
      simp only [evaluate]
      rw [rangeTargets_range] at h
      rw [Reader.range_eq_of_sameValue h.ranges]
      exact .refl _
  | binary op left right, h => by
      rw [rangeTargets_binary] at h
      have ⟨hLeft, hRight⟩ := h.of_append
      simp only [evaluate]
      apply Reads.refines_bind (refines_evaluate left hLeft)
      intro x
      apply Reads.refines_bind (refines_evaluate right hRight)
      exact fun y => .refl _
  | negate operand, h => by
      simp only [evaluate]
      apply Reads.refines_bind (refines_evaluate operand h)
      exact fun x => .refl _
  | call name args, h => by
      simp only [evaluate]
      split
      · exact .refl _
      · apply Reads.refines_bind (refines_evaluateAll args h)
        exact fun values => .refl _
      · exact refines_evaluateChoice args h

theorem refines_evaluateAll :
    ∀ args : List Expr,
      RefinesOn (targetsOfAll args) (rangeTargetsOfAll args)
          read read' →
        Refines (evaluateAll read args).outcome
          (evaluateAll read' args).outcome
  | [], _ => .refl _
  | e :: rest, h => by
      rw [rangeTargetsOfAll_cons] at h
      have ⟨hFirst, hLater⟩ := h.of_append
      have hRest := refines_evaluateAll rest hLater
      cases e with
      | range first second =>
          rw [rangeTargets_range] at hFirst
          simp only [evaluateAll]
          rw [Reader.range_eq_of_sameValue hFirst.ranges]
          apply Reads.refines_bind (.refl _)
          intro values
          exact Reads.refines_bind hRest fun more => .refl _
      | _ =>
          simp only [evaluateAll]
          apply Reads.refines_bind (refines_evaluate _ hFirst)
          intro value
          exact Reads.refines_bind hRest fun more => .refl _

theorem refines_evaluateChoice :
    ∀ args : List Expr,
      RefinesOn (targetsOfAll args) (rangeTargetsOfAll args)
          read read' →
        Refines (evaluateChoice read args).outcome
          (evaluateChoice read' args).outcome
  | [], _ => .refl _
  | [_], _ => .refl _
  | [condition, whenTrue], h => by
      simp only [rangeTargetsOfAll_cons] at h
      have ⟨hCondition, hBranches⟩ := h.of_append
      simp only [evaluateChoice]
      apply Reads.refines_bind
        (refines_evaluate condition hCondition)
      intro c
      split
      · exact refines_evaluate whenTrue hBranches.of_append.1
      · exact .refl _
  | condition :: whenTrue :: whenFalse :: _, h => by
      simp only [rangeTargetsOfAll_cons] at h
      have ⟨hCondition, hBranches⟩ := h.of_append
      have ⟨hTrue, hRest⟩ := hBranches.of_append
      simp only [evaluateChoice]
      apply Reads.refines_bind
        (refines_evaluate condition hCondition)
      intro c
      split
      · exact refines_evaluate whenTrue hTrue
      · exact refines_evaluate whenFalse hRest.of_append.1

end

end Expr

end Spreadsheet
