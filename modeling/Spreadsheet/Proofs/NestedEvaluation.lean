import Mathlib.Data.Prod.Lex
import Spreadsheet.Proofs.Expressions
import Spreadsheet.Proofs.Reachability

/-
  Evaluation ends on every sheet, whatever circular
  references and ranges it has. Expressions grow again at
  each cell that is read, but each nested evaluation of a
  cell adds it to those under evaluation, and references to
  these are refused. So there are never more evaluations
  inside each other than formulas that were not under
  evaluation before.

  Key definitions include:
    * `Call` and `Sheet.Makes`
    * `Sheet.Reads` and `Sheet.Evaluates`
    * `Sheet.Returns`

  The main result is `Sheet.evaluation_terminates`.
-/

namespace Spreadsheet

------------------------------------------------------------
-- Calls
------------------------------------------------------------

/-
  A call of one of the functions that evaluate, with the
  cells that are under evaluation when it is made.
-/
inductive Call where
  /- Evaluate an expression. -/
  | expression (visited : List Address) (e : Expr)
  /- Read the cell that a reference names. -/
  | reference (visited : List Address) (a : Address)
  /- Evaluate a cell. -/
  | cell (visited : List Address) (a : Address)

namespace Call

/- The cells that are under evaluation already. -/
def visited : Call → List Address
  | expression visited _ => visited
  | reference visited _ => visited
  | cell visited _ => visited

/- The position that a call evaluates, if it is of a cell. -/
def cell? : Call → Option Address
  | cell _ a => some a.relative
  | _ => none

/- The cells that calls evaluate. -/
def cells
    (calls : List Call) : List Address :=
  calls.filterMap cell?

/-
  A call goes on to evaluate a formula, if it is of a cell:
  the cell holds one and is not under evaluation already.
-/
def Enters
    (sheet : Sheet) : Call → Prop
  | cell visited a =>
      a.relative ∉ visited
        ∧ Engine.holdsFormula sheet a = true
  | _ => True

end Call

namespace Sheet

open Relation

/-
  The calls that a call may make, in any order and whether
  or not its other calls fail: an expression calls for its
  parts and its references, a reference for a formula that
  nothing is known of, and a cell for its formula.
-/
inductive Makes
    (sheet : Sheet)
    (known : CellMap Outcome) : Call → Call → Prop where
  | left {visited op left right} :
      sheet.Makes known
        (.expression visited (.binary op left right))
        (.expression visited left)
  | right {visited op left right} :
      sheet.Makes known
        (.expression visited (.binary op left right))
        (.expression visited right)
  | operand {visited operand} :
      sheet.Makes known
        (.expression visited (.negate operand))
        (.expression visited operand)
  | argument {visited name args e}
      (hMem : e ∈ args) :
      sheet.Makes known
        (.expression visited (.call name args))
        (.expression visited e)
  | target {visited a} :
      sheet.Makes known
        (.expression visited (.cell a))
        (.reference visited a.relative)
  | member {visited first second a}
      (hMem :
        a ∈ (Range.spanning first second).cells
          .columnMajor) :
      sheet.Makes known
        (.expression visited (.range first second))
        (.reference visited a)
  | formula {visited a}
      (hVisited : a.relative ∉ visited)
      (hFormula : Engine.holdsFormula sheet a = true)
      (hKnown : known.get? a = none) :
      sheet.Makes known
        (.reference visited a)
        (.cell visited a)
  | body {visited a e}
      (hVisited : a.relative ∉ visited)
      (hExpr : sheet.expr? a = some e) :
      sheet.Makes known
        (.cell visited a)
        (.expression (a.relative :: visited) e)

variable {sheet : Sheet}
variable {known : CellMap Outcome}
variable {visited : List Address}

------------------------------------------------------------
-- Calls For References
------------------------------------------------------------

mutual

/- An expression calls for each cell that it may read. -/
theorem makes_target :
    ∀ (e : Expr) {a : Address}, a ∈ e.targets →
      ReflTransGen (sheet.Makes known)
        (.expression visited e) (.reference visited a)
  | .number _, _, h => absurd h List.not_mem_nil
  | .text _, _, h => absurd h List.not_mem_nil
  | .boolean _, _, h => absurd h List.not_mem_nil
  | .cell _, _, h => by
      rw [List.mem_singleton.mp h]
      exact .single .target
  | .range _ _, _, h => .single (.member h)
  | .binary _ left right, _, h => by
      rcases List.mem_append.mp h with h | h
      · exact .head .left (makes_target left h)
      · exact .head .right (makes_target right h)
  | .negate operand, _, h =>
      .head .operand (makes_target operand h)
  | .call _ args, _, h => by
      rcases makes_targetOfAll args h with ⟨e, hMem, hCalls⟩
      exact .head (.argument hMem) hCalls

theorem makes_targetOfAll :
    ∀ (args : List Expr) {a : Address},
      a ∈ Expr.targetsOfAll args →
      ∃ e ∈ args, ReflTransGen (sheet.Makes known)
        (.expression visited e) (.reference visited a)
  | [], _, h => absurd h List.not_mem_nil
  | e :: rest, _, h => by
      rcases List.mem_append.mp h with h | h
      · exact ⟨e, List.mem_cons_self, makes_target e h⟩
      · rcases makes_targetOfAll rest h with
          ⟨e', hMem, hCalls⟩
        exact ⟨e', List.mem_cons_of_mem _ hMem, hCalls⟩

end

/-
  So evaluating an expression depends on nothing but the
  references that it calls for.
-/
theorem evaluate_congr_makes
    {e : Expr}
    {read read' : Reader}
    (h :
      ∀ a, ReflTransGen (sheet.Makes known)
          (.expression visited e) (.reference visited a) →
        read a = read' a) :
    e.evaluate read = e.evaluate read' :=
  Expr.evaluate_congr e fun a ha => h a (makes_target e ha)

------------------------------------------------------------
-- Calls Cannot Go On Forever
------------------------------------------------------------

/- Evaluating a formula leaves one fewer to visit. -/
theorem unvisited_cons_lt_of_holdsFormula
    {a : Address}
    (hVisited : a.relative ∉ visited)
    (hFormula : Engine.holdsFormula sheet a = true) :
    sheet.unvisited (a.relative :: visited)
      < sheet.unvisited visited := by
  rcases (Option.any_eq_true _ _).mp hFormula with
    ⟨cell, hCell, hIs⟩
  exact unvisited_cons_lt hVisited hCell hIs

theorem holdsFormula_of_expr?
    {a : Address}
    {e : Expr}
    (h : sheet.expr? a = some e) :
    Engine.holdsFormula sheet a = true :=
  holdsFormula_iff.mpr (Or.inl ⟨e, h⟩)

/-
  How far a call is from the end: first by the formulas left
  to visit, then by the kind of call, and then by the size
  of the expression.
-/
noncomputable def distance
    (sheet : Sheet) : Call → Nat ×ₗ Nat ×ₗ Nat
  | .expression visited e =>
      toLex (sheet.unvisited visited, toLex (2, sizeOf e))
  | .reference visited _ =>
      toLex (sheet.unvisited visited, toLex (1, 0))
  | .cell visited _ =>
      toLex (sheet.unvisited visited, toLex (0, 0))

/- Each call that a call makes is nearer to the end. -/
theorem Makes.distance_lt
    {caller callee : Call}
    (h : sheet.Makes known caller callee) :
    sheet.distance callee < sheet.distance caller := by
  have hPart :
      ∀ {visited} {part whole : Expr},
        sizeOf part < sizeOf whole →
        sheet.distance (.expression visited part)
          < sheet.distance (.expression visited whole) := by
    intro visited part whole hLess
    simp only [distance, Prod.Lex.toLex_lt_toLex, hLess,
      and_self, or_true]
  have hFewer :
      ∀ {m n : Nat} {x y : Nat ×ₗ Nat}, m < n →
        toLex (m, x) < toLex (n, y) := by
    intro m n x y hLess
    exact Prod.Lex.toLex_lt_toLex.mpr (Or.inl hLess)
  have hKind :
      ∀ {n k l x y : Nat}, k < l →
        toLex (n, toLex (k, x)) < toLex (n, toLex (l, y)) := by
    intro n k l x y hLess
    exact Prod.Lex.toLex_lt_toLex.mpr (Or.inr
      ⟨rfl, Prod.Lex.toLex_lt_toLex.mpr (Or.inl hLess)⟩)
  cases h with
  | left =>
      apply hPart
      simp only [Expr.binary.sizeOf_spec]
      omega
  | right =>
      apply hPart
      simp only [Expr.binary.sizeOf_spec]
      omega
  | operand =>
      apply hPart
      simp only [Expr.negate.sizeOf_spec]
      omega
  | argument hMem =>
      apply hPart
      have hLess := List.sizeOf_lt_of_mem hMem
      simp only [Expr.call.sizeOf_spec]
      omega
  | target => exact hKind (by decide)
  | member hMem => exact hKind (by decide)
  | formula hVisited hFormula hKnown =>
      exact hKind (by decide)
  | body hVisited hExpr =>
      exact hFewer (unvisited_cons_lt_of_holdsFormula hVisited
        (holdsFormula_of_expr? hExpr))

/- So no calls go on inside each other forever. -/
theorem wellFounded_makes
    (sheet : Sheet)
    (known : CellMap Outcome) :
    WellFounded fun callee caller =>
      sheet.Makes known caller callee :=
  Subrelation.wf (fun h => h.distance_lt)
    (InvImage.wf sheet.distance wellFounded_lt)

------------------------------------------------------------
-- Calls Inside Each Other
------------------------------------------------------------

/- What is made as a call of a cell evaluates a formula. -/
theorem Makes.enters
    {caller callee : Call}
    (h : sheet.Makes known caller callee) :
    callee.Enters sheet := by
  cases h with
  | formula hVisited hFormula hKnown =>
      exact ⟨hVisited, hFormula⟩
  | _ => trivial

/-
  Calls inside each other from one on evaluate formulas that
  were not under evaluation, none of them twice, and no more
  than there are.
-/
structure Nested
    (sheet : Sheet)
    (visited cells : List Address) : Prop where
  nodup : cells.Nodup
  fresh : ∀ a ∈ cells, a ∉ visited
  formulas :
    ∀ a ∈ cells, Engine.holdsFormula sheet a = true
  bound : cells.length ≤ sheet.unvisited visited

theorem nested_nil
    (sheet : Sheet)
    (visited : List Address) : sheet.Nested visited [] where
  nodup := .nil
  fresh := fun _ h => absurd h List.not_mem_nil
  formulas := fun _ h => absurd h List.not_mem_nil
  bound := Nat.zero_le _

/- One more cell around those evaluated inside it. -/
theorem Nested.cons
    {a : Address}
    {cells : List Address}
    (hVisited : a.relative ∉ visited)
    (hFormula : Engine.holdsFormula sheet a = true)
    (h : sheet.Nested (a.relative :: visited) cells) :
    sheet.Nested visited (a.relative :: cells) where
  nodup := by
    refine List.nodup_cons.mpr ⟨fun hMem => ?_, h.nodup⟩
    exact h.fresh _ hMem List.mem_cons_self
  fresh := by
    intro b hb
    rcases List.mem_cons.mp hb with rfl | hb
    · exact hVisited
    · exact fun hMem =>
        h.fresh b hb (List.mem_cons_of_mem _ hMem)
  formulas := by
    intro b hb
    rcases List.mem_cons.mp hb with rfl | hb
    · exact hFormula
    · exact h.formulas b hb
  bound := by
    have hLess := unvisited_cons_lt_of_holdsFormula hVisited
      hFormula
    have hBound := h.bound
    rw [List.length_cons]
    omega

/-
  Calls each of which makes the next one. The induction is
  on the calls; a call of a cell is the only one that
  changes the cells under evaluation.
-/
theorem nested_of_isChain
    {call : Call}
    {calls : List Call}
    (hChain : (call :: calls).IsChain (sheet.Makes known))
    (hEnters : call.Enters sheet) :
    sheet.Nested call.visited (Call.cells (call :: calls)) := by
  induction calls generalizing call with
  | nil =>
      cases call with
      | expression visited e => exact nested_nil sheet visited
      | reference visited a => exact nested_nil sheet visited
      | cell visited a =>
          exact .cons hEnters.1 hEnters.2 (nested_nil sheet _)
  | cons next calls ih =>
      have ⟨hMakes, hRest⟩ := List.isChain_cons_cons.mp hChain
      have hInside := ih hRest hMakes.enters
      cases hMakes with
      | body hVisited hExpr =>
          exact .cons hEnters.1 hEnters.2 hInside
      | _ => exact hInside

------------------------------------------------------------
-- Finished Evaluations
------------------------------------------------------------

/-
  Reading a reference gives a result after finitely many
  steps: at once, or after all cells that the formula of its
  target may read have been read.
-/
inductive Reads
    (sheet : Sheet)
    (known : CellMap Outcome) :
    List Address → Address →
      Except FormulaError Value → Prop where
  | circular {visited t}
      (hVisited : t.relative ∈ visited) :
      sheet.Reads known visited t
        (.error (.circular t.relative))
  | missing {visited t}
      (hVisited : t.relative ∉ visited)
      (hContent : sheet.content? t = none) :
      sheet.Reads known visited t
        (.error (.badReference t.relative))
  | literal {visited t value}
      (hVisited : t.relative ∉ visited)
      (hContent : sheet.content? t = some (.literal value)) :
      sheet.Reads known visited t (.ok value)
  | stored {visited t code message}
      (hVisited : t.relative ∉ visited)
      (hContent :
        sheet.content? t = some (.error code message)) :
      sheet.Reads known visited t
        (.error (.propagated code message))
  | known {visited t source reading outcome}
      (hVisited : t.relative ∉ visited)
      (hContent :
        sheet.content? t = some (.formula source reading))
      (hKnown : known.get? t = some outcome) :
      sheet.Reads known visited t outcome.toResult
  | unreadable {visited t source e}
      (hVisited : t.relative ∉ visited)
      (hContent :
        sheet.content? t = some (.formula source (.error e)))
      (hKnown : known.get? t = none) :
      sheet.Reads known visited t
        (Outcome.ofResult (.error e)).toResult
  | formula {visited t source e}
      (hVisited : t.relative ∉ visited)
      (hContent :
        sheet.content? t = some (.formula source (.ok e)))
      (hKnown : known.get? t = none)
      (read : Reader)
      (hReads :
        ∀ a ∈ e.targets,
          sheet.Reads known (t.relative :: visited) a
            (read a)) :
      sheet.Reads known visited t
        (Outcome.ofResult (e.evaluate read).outcome).toResult

/- So does evaluating an expression, from what it reads. -/
def Evaluates
    (sheet : Sheet)
    (known : CellMap Outcome)
    (visited : List Address)
    (e : Expr)
    (result : Except FormulaError Value) : Prop :=
  ∃ read : Reader,
    (∀ a ∈ e.targets, sheet.Reads known visited a (read a))
      ∧ (e.evaluate read).outcome = result

/- So does evaluating a cell, from its formula. -/
def Returns
    (sheet : Sheet)
    (known : CellMap Outcome)
    (visited : List Address)
    (a : Address)
    (outcome : Outcome) : Prop :=
  match sheet.content? a with
  | none => outcome = .value .empty
  | some (.literal value) => outcome = .value value
  | some (.error code message) =>
      outcome = .error ⟨code, message⟩
  | some (.formula _ (.error e)) =>
      outcome = Outcome.ofResult (.error e)
  | some (.formula _ (.ok e)) =>
      ∃ result,
        (if a.relative ∈ visited then
          result = .error (.circular a.relative)
        else
          sheet.Evaluates known (a.relative :: visited) e
            result)
          ∧ outcome = Outcome.ofResult result

/- Whatever is read comes out as the function gives it. -/
theorem Reads.eq
    {t : Address}
    {result : Except FormulaError Value}
    (h : sheet.Reads known visited t result) :
    result = sheet.readReference known visited t := by
  induction h with
  | circular hVisited => rw [readReference_eq, if_pos hVisited]
  | missing hVisited hContent =>
      rw [readReference_eq, if_neg hVisited, hContent]
  | literal hVisited hContent =>
      rw [readReference_eq, if_neg hVisited, hContent]
  | stored hVisited hContent =>
      rw [readReference_eq, if_neg hVisited, hContent]
  | known hVisited hContent hKnown =>
      rw [readReference_eq, if_neg hVisited, hContent]
      simp only [hKnown]
  | unreadable hVisited hContent hKnown =>
      rw [readReference_eq, if_neg hVisited, hContent]
      simp only [hKnown]
  | formula hVisited hContent hKnown read _ ih =>
      rw [readReference_eq, if_neg hVisited, hContent]
      simp only [hKnown]
      rw [Expr.evaluate_congr _ ih]

/-
  Every reference is read. The induction is on the formulas
  left to visit.
-/
theorem reads_readReference
    (sheet : Sheet)
    (known : CellMap Outcome)
    (visited : List Address)
    (t : Address) :
    sheet.Reads known visited t
      (sheet.readReference known visited t) := by
  induction visited, t using reading_induction sheet with
  | step visited t ih =>
      rw [readReference_eq]
      split
      · next hVisited => exact .circular hVisited
      · next hVisited =>
          split
          · next hContent => exact .missing hVisited hContent
          · next value hContent =>
              exact .literal hVisited hContent
          · next code message hContent =>
              exact .stored hVisited hContent
          · next source reading hContent =>
              split
              · next outcome hKnown =>
                  exact .known hVisited hContent hKnown
              · next hKnown =>
                  cases reading with
                  | error e =>
                      exact .unreadable hVisited hContent hKnown
                  | ok e =>
                      refine .formula hVisited hContent hKnown
                        _ fun a ha => ?_
                      exact ih hVisited e
                        (expr?_of_content? hContent) a ha

theorem evaluates_iff
    {e : Expr}
    {result : Except FormulaError Value} :
    sheet.Evaluates known visited e result ↔
      result =
        (e.evaluate (sheet.readReference known visited)
          ).outcome := by
  constructor
  · rintro ⟨read, hReads, rfl⟩
    rw [Expr.evaluate_congr e fun a ha => (hReads a ha).eq]
  · rintro rfl
    exact ⟨_, fun a _ => reads_readReference sheet known
      visited a, rfl⟩

/- The outcome of a cell, by its content. -/
theorem outcome_evaluateCellIn
    (sheet : Sheet)
    (known : CellMap Outcome)
    (visited : List Address)
    (explain : Bool)
    (a : Address) :
    (sheet.evaluateCellIn known visited explain a).outcome =
      match sheet.content? a with
      | none => .value .empty
      | some (.literal value) => .value value
      | some (.error code message) => .error ⟨code, message⟩
      | some (.formula _ (.error e)) =>
          Outcome.ofResult (.error e)
      | some (.formula _ (.ok e)) =>
          Outcome.ofResult
            (if a.relative ∈ visited then
              .error (.circular a.relative)
            else
              (e.evaluate (sheet.readReference known
                (a.relative :: visited))).outcome) := by
  unfold evaluateCellIn content?
  cases sheet.get? a with
  | none => rfl
  | some cell =>
      cases cell with
      | literal value => rfl
      | error code message => rfl
      | formula source parsed =>
          simp only [Option.map_some, Cell.content]
          cases Cell.expr source parsed with
          | error e => rfl
          | ok e =>
              dsimp only
              split
              · rfl
              · cases explain <;>
                  simp only [Bool.false_eq_true, ↓reduceIte,
                    Context.evaluate, Context.enableTrace,
                    Context.reader, Context.ofCell] <;>
                  split <;> simp_all [Outcome.ofResult]

/-
  A formula that is read while it is not under evaluation
  gives what is known of it, or what it evaluates to.
-/
theorem readReference_formula
    {target : Address}
    {source : String}
    {reading : Except FormulaError Expr}
    (hVisited : target.relative ∉ visited)
    (hContent :
      sheet.content? target =
        some (.formula source reading)) :
    sheet.readReference known visited target =
      ((known.get? target).getD
        (sheet.evaluateCellIn known visited false target
          ).outcome).toResult := by
  rw [readReference_eq, if_neg hVisited, hContent,
    outcome_evaluateCellIn, hContent]
  cases known.get? target with
  | some found => rfl
  | none =>
      cases reading with
      | error e => rfl
      | ok e => simp [hVisited]

theorem readReference_relative
    {target : Address} :
    sheet.readReference known visited target.relative =
      sheet.readReference known visited target := by
  rw [readReference_eq, readReference_eq]
  rfl

theorem returns_iff
    {explain : Bool}
    {a : Address}
    {outcome : Outcome} :
    sheet.Returns known visited a outcome ↔
      outcome =
        (sheet.evaluateCellIn known visited explain a
          ).outcome := by
  rw [outcome_evaluateCellIn]
  unfold Returns
  split
  · rfl
  · rfl
  · rfl
  · rfl
  · split
    · simp
    · simp [evaluates_iff]

------------------------------------------------------------
-- Termination
------------------------------------------------------------

/-
  Evaluation ends, on every sheet and whatever is known and
  under evaluation. Calls cannot make calls forever; calls
  of cells inside each other evaluate formulas that were not
  under evaluation, none of them twice, and no more than
  there are; an expression depends on the references that it
  calls for alone; and evaluating an expression or a cell
  gives a result after finitely many steps, the one that the
  functions give.
-/
theorem evaluation_terminates
    (sheet : Sheet)
    (known : CellMap Outcome) :
    (WellFounded fun callee caller =>
      sheet.Makes known caller callee)
    ∧ (∀ call calls,
        (call :: calls).IsChain (sheet.Makes known) →
        call.Enters sheet →
        sheet.Nested call.visited
          (Call.cells (call :: calls)))
    ∧ (∀ visited e (read read' : Reader),
        (∀ a, ReflTransGen (sheet.Makes known)
            (.expression visited e) (.reference visited a) →
          read a = read' a) →
        e.evaluate read = e.evaluate read')
    ∧ (∀ visited e result,
        sheet.Evaluates known visited e result ↔
          result =
            (e.evaluate (sheet.readReference known visited)
              ).outcome)
    ∧ ∀ visited explain a outcome,
        sheet.Returns known visited a outcome ↔
          outcome =
            (sheet.evaluateCellIn known visited explain a
              ).outcome :=
  ⟨wellFounded_makes sheet known,
    fun _ _ => nested_of_isChain,
    fun _ _ _ _ => evaluate_congr_makes,
    fun _ _ _ => evaluates_iff,
    fun _ _ _ _ => returns_iff⟩

/- A sheet on which two formulas read each other. -/
def mutualSheet : Sheet :=
  { Sheet.blank "Mutual" 2 1 .epoch with
    cells := CellMap.ofList
      [(.ofPosition 0 0,
          .formula "=A2" (some (.cell (.ofPosition 1 0)))),
        (.ofPosition 1 0,
          .formula "=A1"
            (some (.cell (.ofPosition 0 0))))] }

/- The calls until the first formula is read once more. -/
def mutualCalls : List Call :=
  let first := Address.ofPosition 0 0
  let second := Address.ofPosition 1 0
  [.cell [] first, .expression [first] (.cell second),
    .reference [first] second, .cell [first] second,
    .expression [second, first] (.cell first),
    .reference [second, first] first]

/- They evaluate both formulas, and no more than these. -/
theorem nested_mutualCalls :
    mutualSheet.Nested []
      [.ofPosition 0 0, .ofPosition 1 0] := by
  have hChain :
      mutualCalls.IsChain
        (mutualSheet.Makes CellMap.empty) := by
    refine .cons_cons (.body ?_ rfl) (.cons_cons .target
      (.cons_cons (.formula ?_ ?_ rfl) (.cons_cons
        (.body ?_ rfl) (.cons_cons .target (.singleton _)))))
    all_goals decide
  exact (evaluation_terminates mutualSheet CellMap.empty).2.1
    _ _ hChain ⟨by decide, by decide⟩

end Sheet

end Spreadsheet
