import Spreadsheet.Proofs.NestedEvaluation

/-
  Other ways to write the references of formulas. Markers do
  not show in what a cell evaluates to, nor does it matter
  by which two opposite corners a range is written, and in
  which order. With other markers and with the same corners
  a formula also names the same cells.

  Key definitions include:
    * `Range.SameCorners` and `Range.SameRectangle`
    * `Expr.Respelled` and `Sheet.Respelled`

  Main declarations:
    * `Expr.Respelled.outcome_evaluate`
    * `Expr.Respelled.mem_precedents_iff`
    * `Sheet.Respelled.outcome_evaluateCellIn`
-/

namespace Spreadsheet

------------------------------------------------------------
-- Written Corners
------------------------------------------------------------

namespace Range

/-
  Two ways to write a range that differ in markers and in
  which corner comes first at most.
-/
def SameCorners
    (p q : Address × Address) : Prop :=
  (q.1.relative = p.1.relative
      ∧ q.2.relative = p.2.relative)
    ∨ (q.1.relative = p.2.relative
      ∧ q.2.relative = p.1.relative)

/- The two corners that the written ones lie between. -/
def otherCorners
    (p : Address × Address) : Address × Address :=
  (.ofPosition p.1.row p.2.col, .ofPosition p.2.row p.1.col)

/-
  Two ways to write a range by opposite corners of the same
  rectangle.
-/
def SameRectangle
    (p q : Address × Address) : Prop :=
  SameCorners p q ∨ SameCorners (otherCorners p) q

/- The cells of a range that is written by two corners. -/
def cellsBetween
    (p : Address × Address) : List Address :=
  (spanning p.1 p.2).cells .columnMajor

theorem smaller_comm
    (x y : UInt32) : min x y = min y x := by
  simp only [min]
  split
  · next hxy =>
      split
      · next hyx => exact UInt32.le_antisymm hxy hyx
      · rfl
  · next hxy =>
      rw [if_pos ((UInt32.le_total x y).resolve_left hxy)]

theorem larger_comm
    (x y : UInt32) : max x y = max y x := by
  simp only [max]
  split
  · next hxy =>
      split
      · next hyx => exact UInt32.le_antisymm hyx hxy
      · rfl
  · next hxy =>
      rw [if_pos ((UInt32.le_total x y).resolve_left hxy)]

/- Cells are listed by the positions of the corners. -/
theorem cells_congr
    {r r' : Range}
    (hStart : r'.start.relative = r.start.relative)
    (hStop : r'.stop.relative = r.stop.relative)
    (order : Order) : r'.cells order = r.cells order := by
  have hStartRow : r'.start.row = r.start.row :=
    congrArg (·.row) hStart
  have hStartCol : r'.start.col = r.start.col :=
    congrArg (·.col) hStart
  have hStopRow : r'.stop.row = r.stop.row :=
    congrArg (·.row) hStop
  have hStopCol : r'.stop.col = r.stop.col :=
    congrArg (·.col) hStop
  unfold cells rows cols rowCount colCount
  rw [hStartRow, hStartCol, hStopRow, hStopCol]

/- Markers of corners do not matter for the cells. -/
theorem cells_spanning_congr
    {p q : Address × Address}
    (hFirst : q.1.relative = p.1.relative)
    (hSecond : q.2.relative = p.2.relative)
    (order : Order) :
    (spanning q.1 q.2).cells order =
      (spanning p.1 p.2).cells order := by
  have hFirstRow : q.1.row = p.1.row :=
    congrArg (·.row) hFirst
  have hFirstCol : q.1.col = p.1.col :=
    congrArg (·.col) hFirst
  have hSecondRow : q.2.row = p.2.row :=
    congrArg (·.row) hSecond
  have hSecondCol : q.2.col = p.2.col :=
    congrArg (·.col) hSecond
  apply cells_congr
  · simp only [spanning, Address.relative, hFirstRow,
      hFirstCol, hSecondRow, hSecondCol]
  · simp only [spanning, Address.relative, hFirstRow,
      hFirstCol, hSecondRow, hSecondCol]

/- Nor does it matter which corner comes first. -/
theorem cells_spanning_swap
    (p : Address × Address)
    (order : Order) :
    (spanning p.2 p.1).cells order =
      (spanning p.1 p.2).cells order := by
  apply cells_congr
  · simp only [spanning, Address.relative,
      smaller_comm p.2.row, smaller_comm p.2.col]
  · simp only [spanning, Address.relative,
      larger_comm p.2.row, larger_comm p.2.col]

theorem SameCorners.cells_eq
    {p q : Address × Address}
    (h : SameCorners p q)
    (order : Order) :
    (spanning q.1 q.2).cells order =
      (spanning p.1 p.2).cells order := by
  rcases h with ⟨hFirst, hSecond⟩ | ⟨hFirst, hSecond⟩
  · exact cells_spanning_congr hFirst hSecond order
  · have hSwap :
        (spanning q.1 q.2).cells order =
          (spanning p.2 p.1).cells order :=
      cells_spanning_congr (p := p.swap) hFirst hSecond order
    rw [hSwap, cells_spanning_swap]

/- The other two corners span the same rectangle. -/
theorem cells_spanning_otherCorners
    (p : Address × Address)
    (order : Order) :
    (spanning (otherCorners p).1 (otherCorners p).2).cells
        order =
      (spanning p.1 p.2).cells order := by
  apply cells_congr
  · simp only [spanning, otherCorners, Address.relative,
      Address.ofPosition, smaller_comm p.2.col]
  · simp only [spanning, otherCorners, Address.relative,
      Address.ofPosition, larger_comm p.2.col]

theorem SameRectangle.cells_eq
    {p q : Address × Address}
    (h : SameRectangle p q)
    (order : Order) :
    (spanning q.1 q.2).cells order =
      (spanning p.1 p.2).cells order := by
  rcases h with hCorners | hCorners
  · exact hCorners.cells_eq order
  · rw [hCorners.cells_eq, cells_spanning_otherCorners]

theorem SameCorners.cellsBetween_eq
    {p q : Address × Address}
    (h : SameCorners p q) :
    cellsBetween q = cellsBetween p :=
  h.cells_eq .columnMajor

theorem SameRectangle.cellsBetween_eq
    {p q : Address × Address}
    (h : SameRectangle p q) :
    cellsBetween q = cellsBetween p :=
  h.cells_eq .columnMajor

end Range

------------------------------------------------------------
-- Respelled Expressions
------------------------------------------------------------

/-
  How the corners of a range, as they are written, relate to
  those that are written in place of them.
-/
abbrev Corners :=
  Address × Address → Address × Address → Prop

namespace Expr

mutual

/-
  Two expressions that differ in the markers of references,
  and in ranges with corners that are related.
-/
inductive Respelled
    (corners : Corners) : Expr → Expr → Prop where
  | number (x : Float) :
      Respelled corners (.number x) (.number x)
  | text (s : String) :
      Respelled corners (.text s) (.text s)
  | boolean (b : Bool) :
      Respelled corners (.boolean b) (.boolean b)
  | cell {a a' : Address}
      (hTarget : a'.relative = a.relative) :
      Respelled corners (.cell a) (.cell a')
  | range {first second first' second' : Address}
      (hCorners :
        corners (first, second) (first', second')) :
      Respelled corners
        (.range first second) (.range first' second')
  | binary (op : BinaryOperator)
      {left right left' right' : Expr}
      (hLeft : Respelled corners left left')
      (hRight : Respelled corners right right') :
      Respelled corners
        (.binary op left right) (.binary op left' right')
  | negate {operand operand' : Expr}
      (hOperand : Respelled corners operand operand') :
      Respelled corners (.negate operand) (.negate operand')
  | call (name : String)
      {args args' : List Expr}
      (hArgs : AllRespelled corners args args') :
      Respelled corners (.call name args) (.call name args')

/- Expressions that are respelled one by one. -/
inductive AllRespelled
    (corners : Corners) : List Expr → List Expr → Prop where
  | nil : AllRespelled corners [] []
  | cons {e e' : Expr}
      {rest rest' : List Expr}
      (hFirst : Respelled corners e e')
      (hRest : AllRespelled corners rest rest') :
      AllRespelled corners (e :: rest) (e' :: rest')

end

variable {corners : Corners}

/- What ranges give is up to the cells between corners. -/
theorem outcome_range_congr
    {p q : Address × Address}
    (h : Range.cellsBetween q = Range.cellsBetween p)
    (read : Reader) :
    (read.range (Range.spanning q.1 q.2)).outcome =
      (read.range (Range.spanning p.1 p.2)).outcome := by
  unfold Range.cellsBetween at h
  unfold Reader.range Reader.readable
  rw [h]

/- The corners that are related span the same cells. -/
def KeepsCells
    (corners : Corners) : Prop :=
  ∀ p q, corners p q →
    Range.cellsBetween q = Range.cellsBetween p

mutual

/- An expression gives the same however it is written. -/
theorem Respelled.outcome_evaluate
    (hKeeps : KeepsCells corners)
    (read : Reader)
    {e e' : Expr}
    (h : Respelled corners e e') :
    (e'.evaluate read).outcome =
      (e.evaluate read).outcome := by
  cases h with
  | number x => rfl
  | text s => rfl
  | boolean b => rfl
  | cell hTarget =>
      simp only [evaluate, Reader.outcome_cell, hTarget]
  | range hCorners =>
      simp only [evaluate]
      exact Reads.outcome_bind_congr
        (outcome_range_congr (hKeeps _ _ hCorners) read)
        fun values => rfl
  | binary op hLeft hRight =>
      have hOutcome :=
        Respelled.outcome_evaluate hKeeps read hLeft
      have hOutcome' :=
        Respelled.outcome_evaluate hKeeps read hRight
      simp only [evaluate]
      refine Reads.outcome_bind_congr hOutcome fun x => ?_
      exact Reads.outcome_bind_congr hOutcome' fun y => rfl
  | negate hOperand =>
      have hOutcome :=
        Respelled.outcome_evaluate hKeeps read hOperand
      simp only [evaluate]
      exact Reads.outcome_bind_congr hOutcome fun x => rfl
  | call name hArgs =>
      have hAll :=
        AllRespelled.outcome_evaluateAll hKeeps read hArgs
      have hChoice :=
        AllRespelled.outcome_evaluateChoice hKeeps read hArgs
      simp only [evaluate]
      split
      · rfl
      · exact Reads.outcome_bind_congr hAll fun values => rfl
      · exact hChoice

/- So do the arguments of an aggregate. -/
theorem AllRespelled.outcome_evaluateAll
    (hKeeps : KeepsCells corners)
    (read : Reader)
    {args args' : List Expr}
    (h : AllRespelled corners args args') :
    (evaluateAll read args').outcome =
      (evaluateAll read args).outcome := by
  cases h with
  | nil => rfl
  | cons hFirst hRest =>
      have hOutcome :=
        Respelled.outcome_evaluate hKeeps read hFirst
      have hMore :=
        AllRespelled.outcome_evaluateAll hKeeps read hRest
      cases hFirst with
      | range hCorners =>
          simp only [evaluateAll]
          refine Reads.outcome_bind_congr
            (outcome_range_congr (hKeeps _ _ hCorners) read)
            fun values => ?_
          exact Reads.outcome_bind_congr hMore fun more => rfl
      | _ =>
          simp only [evaluateAll]
          refine Reads.outcome_bind_congr hOutcome fun value => ?_
          exact Reads.outcome_bind_congr hMore fun more => rfl

/- And a choice between arguments. -/
theorem AllRespelled.outcome_evaluateChoice
    (hKeeps : KeepsCells corners)
    (read : Reader)
    {args args' : List Expr}
    (h : AllRespelled corners args args') :
    (evaluateChoice read args').outcome =
      (evaluateChoice read args).outcome := by
  cases h with
  | nil => rfl
  | cons hCondition hBranches =>
      cases hBranches with
      | nil => rfl
      | cons hTrue hRest =>
          have hIf :=
            Respelled.outcome_evaluate hKeeps read hCondition
          have hThen :=
            Respelled.outcome_evaluate hKeeps read hTrue
          cases hRest with
          | nil =>
              simp only [evaluateChoice]
              refine Reads.outcome_bind_congr hIf fun c => ?_
              split
              · exact hThen
              · rfl
          | cons hFalse hMore =>
              have hElse :=
                Respelled.outcome_evaluate hKeeps read hFalse
              simp only [evaluateChoice]
              refine Reads.outcome_bind_congr hIf fun c => ?_
              split
              · exact hThen
              · exact hElse

end

mutual

/-
  With the same corners an expression names the same cells,
  but maybe in another order.
-/
theorem Respelled.mem_endpoints_iff
    {e e' : Expr}
    {a : Address}
    (h : Respelled Range.SameCorners e e') :
    a ∈ e'.endpoints ↔ a ∈ e.endpoints := by
  cases h with
  | number x => exact Iff.rfl
  | text s => exact Iff.rfl
  | boolean b => exact Iff.rfl
  | cell hTarget => simp only [endpoints, hTarget]
  | range hCorners =>
      simp only [endpoints, List.mem_pair]
      rcases hCorners with
        ⟨hFirst, hSecond⟩ | ⟨hFirst, hSecond⟩
      · rw [hFirst, hSecond]
      · rw [hFirst, hSecond, or_comm]
  | binary op hLeft hRight =>
      simp only [endpoints, List.mem_append]
      exact Iff.or (Respelled.mem_endpoints_iff hLeft)
        (Respelled.mem_endpoints_iff hRight)
  | negate hOperand =>
      simp only [endpoints]
      exact Respelled.mem_endpoints_iff hOperand
  | call name hArgs =>
      exact AllRespelled.mem_endpointsOfAll_iff hArgs

theorem AllRespelled.mem_endpointsOfAll_iff
    {args args' : List Expr}
    {a : Address}
    (h : AllRespelled Range.SameCorners args args') :
    a ∈ endpointsOfAll args' ↔ a ∈ endpointsOfAll args := by
  cases h with
  | nil => exact Iff.rfl
  | cons hFirst hRest =>
      simp only [endpointsOfAll, List.mem_append]
      exact Iff.or (Respelled.mem_endpoints_iff hFirst)
        (AllRespelled.mem_endpointsOfAll_iff hRest)

end

/- So it is ordered after the same cells. -/
theorem Respelled.mem_precedents_iff
    {e e' : Expr}
    (h : Respelled Range.SameCorners e e')
    (a : Address) : a ∈ e'.precedents ↔ a ∈ e.precedents := by
  rw [Expr.mem_precedents_iff, Expr.mem_precedents_iff,
    h.mem_endpoints_iff]

end Expr

------------------------------------------------------------
-- Respelled Sheets
------------------------------------------------------------

/-
  Two contents that are the same, but for how expressions
  are written and for sources.
-/
inductive Content.Respelled
    (corners : Corners) : Content → Content → Prop where
  | literal (value : Value) :
      Respelled corners (.literal value) (.literal value)
  | error (code : ErrorCode) (message : String) :
      Respelled corners
        (.error code message) (.error code message)
  | unreadable (source source' : String)
      (error : FormulaError) :
      Respelled corners
        (.formula source (.error error))
        (.formula source' (.error error))
  | formula (source source' : String)
      {e e' : Expr}
      (hExpr : e.Respelled corners e') :
      Respelled corners
        (.formula source (.ok e)) (.formula source' (.ok e'))

namespace Sheet

/- Two sheets that hold respelled contents in all places. -/
def Respelled
    (corners : Corners)
    (sheet sheet' : Sheet) : Prop :=
  ∀ a, Option.Rel (Content.Respelled corners)
    (sheet.content? a) (sheet'.content? a)

variable {corners : Corners}
variable {sheet sheet' : Sheet}

/-
  References read the same. The induction is on the cells
  that are not under evaluation.
-/
theorem Respelled.readReference_eq
    (hKeeps : Expr.KeepsCells corners)
    (h : sheet.Respelled corners sheet')
    (known : CellMap Outcome)
    (visited : List Address)
    (t : Address) :
    sheet'.readReference known visited t =
      sheet.readReference known visited t := by
  induction visited, t using reading_induction sheet with
  | step visited t ih =>
      rw [Sheet.readReference_eq, Sheet.readReference_eq]
      split
      · rfl
      · next hVisited =>
          have hRel := h t
          generalize hContent : sheet.content? t = content
            at hRel
          generalize sheet'.content? t = content' at hRel
          cases hRel with
          | none => rfl
          | some hRespelled =>
              cases hRespelled with
              | literal value => rfl
              | error code message => rfl
              | unreadable source source' error => rfl
              | formula source source' hExpr =>
                  rename_i e e'
                  have hBelow := Expr.evaluate_congr e
                    (ih hVisited e
                      (expr?_of_content? hContent))
                  dsimp only
                  rw [hExpr.outcome_evaluate hKeeps, hBelow]

/-
  So does every cell give the same, whatever is known of
  other cells and whatever is under evaluation.
-/
theorem Respelled.outcome_evaluateCellIn
    (hKeeps : Expr.KeepsCells corners)
    (h : sheet.Respelled corners sheet')
    (known : CellMap Outcome)
    (visited : List Address)
    (explain explain' : Bool)
    (a : Address) :
    (sheet'.evaluateCellIn known visited explain' a).outcome =
      (sheet.evaluateCellIn known visited explain a).outcome
      := by
  rw [Sheet.outcome_evaluateCellIn,
    Sheet.outcome_evaluateCellIn]
  have hRead :
      sheet'.readReference known (a.relative :: visited) =
        sheet.readReference known (a.relative :: visited) :=
    funext (h.readReference_eq hKeeps known _)
  have hRel := h a
  generalize sheet.content? a = content at hRel
  generalize sheet'.content? a = content' at hRel
  cases hRel with
  | none => rfl
  | some hRespelled =>
      cases hRespelled with
      | literal value => rfl
      | error code message => rfl
      | unreadable source source' error => rfl
      | formula source source' hExpr =>
          dsimp only
          rw [hRead, hExpr.outcome_evaluate hKeeps]

/- The expressions of formulas are respelled as well. -/
theorem Respelled.expr?_rel
    (h : sheet.Respelled corners sheet')
    (a : Address) :
    Option.Rel (Expr.Respelled corners)
      (sheet.expr? a) (sheet'.expr? a) := by
  have hRel := h a
  unfold expr?
  generalize sheet.content? a = content at hRel ⊢
  generalize sheet'.content? a = content' at hRel ⊢
  cases hRel with
  | none => exact .none
  | some hRespelled =>
      cases hRespelled with
      | literal value => exact .none
      | error code message => exact .none
      | unreadable source source' error => exact .none
      | formula source source' hExpr => exact .some hExpr

/- Reading all formulas keeps them respelled. -/
theorem Respelled.parseFormulas
    (h : sheet.Respelled corners sheet') :
    sheet.parseFormulas.Respelled corners
      sheet'.parseFormulas := by
  intro a
  rw [content?_parseFormulas, content?_parseFormulas]
  exact h a

end Sheet

end Spreadsheet
