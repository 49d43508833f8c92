import Spreadsheet.Proofs.Explanations
import Spreadsheet.Proofs.RangeCycles

/-
  Errors travel unchanged. The error of an expression is
  that of its first operand that fails, from left to right.
  Where that operand refers to a formula, the error has been
  reported of that formula, and reporting it once more
  changes neither its code nor its message. So it arrives as
  it is at the end of any chain of such references, and only
  errors of a formula's text come with different messages.

  Key definitions include:
    * `Expr.operands` and `Expr.firstFailing?`
    * `ErrorCode.message?`
    * `Sheet.FailsAt`

  The main result is `Sheet.errors_unchanged`.
-/

namespace Spreadsheet

open Relation

namespace Expr

------------------------------------------------------------
-- Operands In Order
------------------------------------------------------------

mutual

/-
  The operands of an expression in the order in which
  evaluation is done with them, from left to right and each
  after its own operands, so that the expression itself is
  the last one. The list goes on past operands that fail.
-/
def operands
    (read : Reader) : Expr → List Expr
  | number x => [number x]
  | text s => [text s]
  | boolean b => [boolean b]
  | cell a => [cell a]
  | range first second => [range first second]
  | binary op left right =>
      (left.operands read ++ right.operands read)
        ++ [binary op left right]
  | negate operand =>
      operand.operands read ++ [negate operand]
  | call name args =>
      (match Function.named? name with
        | none => []
        | some (.aggregate _) => operandsOfAll read args
        | some .conditional => operandsOfChoice read args)
        ++ [call name args]

def operandsOfAll
    (read : Reader) : List Expr → List Expr
  | [] => []
  | e :: rest => e.operands read ++ operandsOfAll read rest

/- Arguments that a choice passes over are no operands. -/
def operandsOfChoice
    (read : Reader) : List Expr → List Expr
  | condition :: whenTrue :: rest =>
      condition.operands read ++
        if condition.holds read then whenTrue.operands read
        else
          match rest with
          | whenFalse :: _ => whenFalse.operands read
          | [] => []
  | _ => []

end

/- Whether the evaluation of an expression fails. -/
def fails
    (read : Reader)
    (e : Expr) : Bool :=
  !(e.evaluate read).outcome.isOk

/- The operand at which evaluation first fails. -/
def firstFailing?
    (read : Reader)
    (e : Expr) : Option Expr :=
  (e.operands read).find? (fails read)

variable {read : Reader}

theorem fails_of_ok
    {e : Expr}
    {v : Value}
    (h : (e.evaluate read).outcome = .ok v) :
    e.fails read = false := by
  rw [fails, h]
  rfl

theorem fails_of_error
    {e : Expr}
    {err : FormulaError}
    (h : (e.evaluate read).outcome = .error err) :
    e.fails read = true := by
  rw [fails, h]
  rfl

------------------------------------------------------------
-- The Error Of The First Failing Operand
------------------------------------------------------------

/-
  What comes of evaluating operands one after another: a
  value if none of them fails, and otherwise the error of
  the first one that does.
-/
def ComesOf {α : Type}
    (read : Reader)
    (operands : List Expr)
    (result : Except FormulaError α) : Prop :=
  match operands.find? (fails read) with
  | none => ∃ a, result = .ok a
  | some operand =>
      ∃ err, result = .error err
        ∧ (operand.evaluate read).outcome = .error err

namespace ComesOf

variable {α β : Type}
variable {operands more : List Expr}

/- After operands without a failure others follow. -/
theorem bind
    {first : Reads α}
    {next : α → Reads β}
    (hFirst : ComesOf read operands first.outcome)
    (hNext :
      ∀ a, first.outcome = .ok a →
        ComesOf read more (next a).outcome) :
    ComesOf read (operands ++ more)
      (first >>= next).outcome := by
  unfold ComesOf at hFirst ⊢
  rw [List.find?_append, Reads.outcome_bind]
  cases hFind : operands.find? (fails read) with
  | none =>
      rw [hFind] at hFirst
      rcases hFirst with ⟨a, ha⟩
      rw [ha, Option.none_or]
      exact hNext a ha
  | some operand =>
      rw [hFind] at hFirst
      rcases hFirst with ⟨err, hErr, hOperand⟩
      rw [hErr, Option.some_or]
      exact ⟨err, rfl, hOperand⟩

/- What is made of a value does not fail. -/
theorem bind_pure
    {first : Reads α}
    (f : α → β)
    (h : ComesOf read operands first.outcome) :
    ComesOf read operands
      (first >>= fun a => pure (f a)).outcome := by
  rw [← List.append_nil operands]
  exact h.bind fun a _ => ⟨f a, rfl⟩

/-
  An expression that fails wherever its own operands do
  comes after them.
-/
theorem append_self
    {e : Expr}
    {result : Except FormulaError α}
    (h : ComesOf read operands result)
    (hError :
      ∀ err, result = .error err →
        (e.evaluate read).outcome = .error err) :
    ComesOf read (operands ++ [e])
      (e.evaluate read).outcome := by
  unfold ComesOf at h ⊢
  rw [List.find?_append]
  cases hFind : operands.find? (fails read) with
  | none =>
      rw [Option.none_or, List.find?_singleton]
      cases hOutcome : (e.evaluate read).outcome with
      | ok v => simp [fails_of_ok hOutcome]
      | error err =>
          simp [fails_of_error hOutcome, hOutcome]
  | some operand =>
      rw [hFind] at h
      rcases h with ⟨err, hErr, hOperand⟩
      exact ⟨err, hError err hErr, hOperand⟩

/- What has no operands is evaluated by itself. -/
theorem self
    (e : Expr) :
    ComesOf read [e] (e.evaluate read).outcome := by
  have hNone : ComesOf read [] (.ok ()) := ⟨(), rfl⟩
  exact hNone.append_self fun err h => by cases h

end ComesOf

/- Ranges do not fail, whatever is read of their cells. -/
theorem comesOf_range
    (first second : Address) :
    ComesOf read [range first second]
      (read.range (Range.spanning first second)).outcome := by
  rcases Reader.outcome_range read
      (Range.spanning first second) with
    ⟨values, hValues⟩
  have hValue :
      ((range first second).evaluate read).outcome =
        .ok (values.headD .empty) := by
    rw [evaluate, Reads.outcome_bind_pure, hValues]
    rfl
  unfold ComesOf
  rw [List.find?_singleton, fails_of_ok hValue, hValues]
  exact ⟨values, rfl⟩

mutual

/-
  The outcome of an expression comes of its operands. The
  induction is on the expression, whose steps are those of
  its operands, with itself at their end.
-/
theorem comesOf_operands :
    ∀ e : Expr,
      ComesOf read (e.operands read)
        (e.evaluate read).outcome
  | number x => .self (number x)
  | text s => .self (text s)
  | boolean b => .self (boolean b)
  | cell a => .self (cell a)
  | range first second => .self (range first second)
  | binary op left right => by
      have hBoth :=
        (comesOf_operands left).bind fun _ _ =>
          comesOf_operands right
      rw [operands]
      refine hBoth.append_self fun err h => ?_
      rw [evaluate, Reads.outcome_bind_error_iff]
      rcases Reads.outcome_bind_error_iff.mp h with
        hLeft | ⟨x, hLeft, hRight⟩
      · exact Or.inl hLeft
      · refine Or.inr ⟨x, hLeft, ?_⟩
        exact Reads.outcome_bind_error_iff.mpr (Or.inl hRight)
  | negate operand => by
      rw [operands]
      refine (comesOf_operands operand).append_self
        fun err h => ?_
      rw [evaluate, Reads.outcome_bind_error_iff]
      exact Or.inl h
  | call name args => by
      rw [operands]
      cases hName : Function.named? name with
      | none => exact .self (call name args)
      | some function =>
          cases function with
          | aggregate f =>
              refine (comesOf_operandsOfAll args).append_self
                fun err h => ?_
              simp only [evaluate, hName]
              exact Reads.outcome_bind_error_iff.mpr
                (Or.inl h)
          | conditional =>
              refine (comesOf_operandsOfChoice args
                ).append_self fun err h => ?_
              simp only [evaluate, hName]
              exact h

theorem comesOf_operandsOfAll :
    ∀ args : List Expr,
      ComesOf read (operandsOfAll read args)
        (evaluateAll read args).outcome
  | [] => ⟨[], rfl⟩
  | e :: rest => by
      have hRest := comesOf_operandsOfAll rest
      cases e with
      | range first second =>
          simp only [operandsOfAll, operands, evaluateAll]
          exact (comesOf_range first second).bind
            fun values _ => hRest.bind_pure _
      | _ =>
          simp only [operandsOfAll, evaluateAll]
          exact (comesOf_operands _).bind
            fun value _ => hRest.bind_pure _

theorem comesOf_operandsOfChoice :
    ∀ args : List Expr,
      ComesOf read (operandsOfChoice read args)
        (evaluateChoice read args).outcome
  | [] => ⟨.empty, rfl⟩
  | [_] => ⟨.empty, rfl⟩
  | [condition, whenTrue] => by
      simp only [operandsOfChoice, evaluateChoice]
      refine (comesOf_operands condition).bind
        fun c hCondition => ?_
      rw [holds_of_ok hCondition]
      split
      · exact comesOf_operands whenTrue
      · exact ⟨.empty, rfl⟩
  | condition :: whenTrue :: whenFalse :: _ => by
      simp only [operandsOfChoice, evaluateChoice]
      refine (comesOf_operands condition).bind
        fun c hCondition => ?_
      rw [holds_of_ok hCondition]
      split
      · exact comesOf_operands whenTrue
      · exact comesOf_operands whenFalse

end

/- The error of an expression is that of the operand. -/
theorem error_of_firstFailing?
    {e operand : Expr}
    (h : e.firstFailing? read = some operand) :
    ∃ err, (e.evaluate read).outcome = .error err
      ∧ (operand.evaluate read).outcome = .error err := by
  have hComes :
      ComesOf read (e.operands read)
        (e.evaluate read).outcome :=
    comesOf_operands e
  unfold ComesOf at hComes
  rw [firstFailing?] at h
  rw [h] at hComes
  exact hComes

------------------------------------------------------------
-- What Operands Refer To
------------------------------------------------------------

/- What a call evaluates are operands of its arguments. -/
theorem exists_of_mem_operandsOfAll
    {args : List Expr}
    {operand : Expr}
    (h : operand ∈ operandsOfAll read args) :
    ∃ e ∈ args, operand ∈ e.operands read := by
  induction args with
  | nil => exact absurd h List.not_mem_nil
  | cons e rest ih =>
      rw [operandsOfAll] at h
      rcases List.mem_append.mp h with h | h
      · exact ⟨e, List.mem_cons_self, h⟩
      · rcases ih h with ⟨e', hMem, h⟩
        exact ⟨e', List.mem_cons_of_mem _ hMem, h⟩

theorem exists_of_mem_operandsOfChoice
    {args : List Expr}
    {operand : Expr}
    (h : operand ∈ operandsOfChoice read args) :
    ∃ e ∈ args, operand ∈ e.operands read := by
  match args, h with
  | [], h => exact absurd h List.not_mem_nil
  | [_], h => exact absurd h List.not_mem_nil
  | [condition, whenTrue], h =>
      rcases List.mem_append.mp h with h | h
      · exact ⟨condition, by simp, h⟩
      · split at h
        · exact ⟨whenTrue, by simp, h⟩
        · exact absurd h List.not_mem_nil
  | condition :: whenTrue :: whenFalse :: _, h =>
      rcases List.mem_append.mp h with h | h
      · exact ⟨condition, by simp, h⟩
      · split at h
        · exact ⟨whenTrue, by simp, h⟩
        · exact ⟨whenFalse, by simp, h⟩

mutual

/- Operands refer to nothing but what the whole does. -/
theorem targets_of_mem_operands :
    ∀ (e : Expr) {operand : Expr},
      operand ∈ e.operands read →
        operand.targets ⊆ e.targets
  | number _, _, h => by rw [List.mem_singleton.mp h]; simp
  | text _, _, h => by rw [List.mem_singleton.mp h]; simp
  | boolean _, _, h => by rw [List.mem_singleton.mp h]; simp
  | cell _, _, h => by rw [List.mem_singleton.mp h]; simp
  | range _ _, _, h => by rw [List.mem_singleton.mp h]; simp
  | binary _ left right, _, h => by
      rw [operands] at h
      rcases List.mem_append.mp h with h | h
      · rcases List.mem_append.mp h with h | h
        · exact List.subset_append_of_subset_left _
            (targets_of_mem_operands left h)
        · exact List.subset_append_of_subset_right _
            (targets_of_mem_operands right h)
      · rw [List.mem_singleton.mp h]
        exact List.Subset.refl _
  | negate operand, _, h => by
      rw [operands] at h
      rcases List.mem_append.mp h with h | h
      · exact targets_of_mem_operands operand h
      · rw [List.mem_singleton.mp h]
        exact List.Subset.refl _
  | call name args, operand, h => by
      rw [operands] at h
      rcases List.mem_append.mp h with h | h
      · have hArgument :
            ∃ e ∈ args, operand ∈ e.operands read := by
          split at h
          · exact absurd h List.not_mem_nil
          · exact exists_of_mem_operandsOfAll h
          · exact exists_of_mem_operandsOfChoice h
        exact targets_of_argument args hArgument
      · rw [List.mem_singleton.mp h]
        exact List.Subset.refl _

theorem targets_of_argument :
    ∀ (args : List Expr) {operand : Expr},
      (∃ e ∈ args, operand ∈ e.operands read) →
        operand.targets ⊆ targetsOfAll args
  | [], _, h => by
      rcases h with ⟨e, hMem, -⟩
      exact absurd hMem List.not_mem_nil
  | e :: rest, _, h => by
      rcases h with ⟨e', hMem, h⟩
      rcases List.mem_cons.mp hMem with hEq | hMem
      · rw [hEq] at h
        exact List.subset_append_of_subset_left _
          (targets_of_mem_operands e h)
      · exact List.subset_append_of_subset_right _
          (targets_of_argument rest ⟨e', hMem, h⟩)

end

end Expr

------------------------------------------------------------
-- Messages
------------------------------------------------------------

/-
  The one message that errors of a code are reported with.
  Only errors of a formula's text have messages of their
  own.
-/
def ErrorCode.message? : ErrorCode → Option String
  | parse => none
  | reference => some "Bad reference"
  | cycle => some "Circular reference"
  | divisionByZero => some "Division by zero"

namespace CellError

/- Errors are reported with the message of their code. -/
theorem ofFormulaError_eq
    (e : FormulaError) :
    ofFormulaError e =
      ⟨e.code, e.code.message?.getD e.message⟩ := by
  cases h : e.code <;>
    simp [ofFormulaError, ErrorCode.message?, h]

/- Reporting an error that was reported changes nothing. -/
theorem ofFormulaError_toFormulaError
    (e : FormulaError) :
    ofFormulaError (ofFormulaError e).toFormulaError =
      ofFormulaError e := by
  have hReported :
      ∀ err : CellError,
        ofFormulaError err.toFormulaError =
          ⟨err.code, err.code.message?.getD err.message⟩ :=
    fun err => ofFormulaError_eq err.toFormulaError
  rw [hReported, ofFormulaError_eq]
  generalize e.message = message
  cases e.code <;> rfl

/- Errors of a formula's text aside, a code has a message. -/
theorem message?_code_ofFormulaError
    {e : FormulaError}
    (h : (ofFormulaError e).code ≠ .parse) :
    (ofFormulaError e).code.message? =
      some (ofFormulaError e).message := by
  rw [ofFormulaError_eq] at h ⊢
  generalize e.message = message
  cases hCode : e.code with
  | parse => exact absurd hCode h
  | reference => rfl
  | cycle => rfl
  | divisionByZero => rfl

end CellError

namespace Sheet

variable {sheet : Sheet}
variable {a b c t : Address}

------------------------------------------------------------
-- Errors Of Formulas
------------------------------------------------------------

/- The operand at which the formula of a cell first fails. -/
def firstFailing?
    (sheet : Sheet)
    (a : Address) : Option Expr :=
  (sheet.expr? a).bind
    (Expr.firstFailing?
      (sheet.readReference .empty [a.relative]))

/-
  The first operand of a formula that fails is a reference
  to a cell that holds a formula.
-/
def FailsAt
    (sheet : Sheet)
    (b a : Address) : Prop :=
  ∃ t, sheet.firstFailing? b = some (.cell t)
    ∧ t.relative = a.relative
    ∧ Engine.holdsFormula sheet a = true

/- Two cells have the same error, code and message. -/
def ShareError
    (sheet : Sheet)
    (b a : Address) : Prop :=
  ∃ err, ∀ explain,
    (sheet.evaluateCell explain b).outcome = .error err
      ∧ (sheet.evaluateCell explain a).outcome = .error err

theorem ShareError.trans
    (h : sheet.ShareError c b)
    (h' : sheet.ShareError b a) : sheet.ShareError c a := by
  rcases h with ⟨err, h⟩
  rcases h' with ⟨err', h'⟩
  have hSame : err = err' := by
    have hb := (h false).2
    rw [(h' false).1] at hb
    cases hb
    rfl
  exact ⟨err, fun explain =>
    ⟨(h explain).1, hSame ▸ (h' explain).2⟩⟩

/- The outcome of a formula that can be read. -/
theorem outcome_of_expr?
    {e : Expr}
    (h : sheet.expr? b = some e)
    (explain : Bool) :
    (sheet.evaluateCell explain b).outcome =
      Outcome.ofResult
        (e.evaluate
          (sheet.readReference .empty [b.relative])
          ).outcome := by
  rcases content?_of_expr? h with ⟨source, hContent⟩
  exact outcome_of_formula hContent .empty explain

/- It is a value just in case no operand fails. -/
theorem firstFailing?_eq_none_iff
    {e : Expr}
    (h : sheet.expr? b = some e)
    (explain : Bool) :
    sheet.firstFailing? b = none ↔
      ∃ v, (sheet.evaluateCell explain b).outcome =
        .value v := by
  rw [outcome_of_expr? h, firstFailing?, h, Option.bind_some,
    Expr.firstFailing?]
  generalize sheet.readReference .empty [b.relative] = read
  have hComes :
      Expr.ComesOf read (e.operands read)
        (e.evaluate read).outcome :=
    Expr.comesOf_operands e
  unfold Expr.ComesOf at hComes
  cases hFind : (e.operands _).find? _ with
  | none =>
      rw [hFind] at hComes
      rcases hComes with ⟨v, hOutcome⟩
      rw [hOutcome]
      exact ⟨fun _ => ⟨v, rfl⟩, fun _ => rfl⟩
  | some operand =>
      rw [hFind] at hComes
      rcases hComes with ⟨err, hOutcome, -⟩
      simp [hOutcome, Outcome.ofResult]

/-
  What is reported of a formula is a result, of which an
  error is in the form of reports.
-/
theorem exists_ofResult
    (h : Engine.holdsFormula sheet a = true) :
    ∃ result, ∀ explain,
      (sheet.evaluateCell explain a).outcome =
        Outcome.ofResult result := by
  rw [holdsFormula_eq, Option.any_eq_true] at h
  rcases h with ⟨content, hContent, hFormula⟩
  cases content with
  | literal value => cases hFormula
  | error code message => cases hFormula
  | formula source reading =>
      exact ⟨_, outcome_of_formula hContent .empty⟩

/- What is read of a formula is its outcome. -/
theorem readPlain_of_holdsFormula
    (h : Engine.holdsFormula sheet a = true) :
    sheet.readPlain a =
      (sheet.evaluateCell false a).outcome.toResult := by
  rcases (Option.any_eq_true _ _).mp h with ⟨cell, hGet, -⟩
  rw [readPlain, hGet]

/-
  A formula that reaches no cycle and first fails at a
  reference has the error that is read there.
-/
theorem error_of_firstFailing?
    (hFirst : sheet.firstFailing? b = some (.cell t))
    (hCycle : ¬ sheet.ReachesCycle Expr.targets b) :
    sheet.Refers Expr.targets b t.relative
      ∧ ∃ e, sheet.readPlain t = .error e
        ∧ ∀ explain,
          (sheet.evaluateCell explain b).outcome =
            .error (CellError.ofFormulaError e) := by
  rcases Option.bind_eq_some_iff.mp hFirst with
    ⟨expr, hExpr, hOperand⟩
  have hRefers : sheet.Refers Expr.targets b t.relative :=
    ⟨expr, hExpr,
      Expr.targets_of_mem_operands expr
        (List.mem_of_find?_eq_some hOperand)
        List.mem_cons_self⟩
  rcases Expr.error_of_firstFailing? hOperand with
    ⟨e, hError, hCell⟩
  refine ⟨hRefers, e, ?_, fun explain => ?_⟩
  · rw [Expr.evaluate, Reader.outcome_cell,
      readReference_of_refers hRefers hCycle,
      readReference_relative] at hCell
    rw [readPlain_eq, hCell]
  · rw [outcome_of_expr? hExpr, hError]
    rfl

/- So a formula that it refers to has the same error. -/
theorem FailsAt.shareError
    (h : sheet.FailsAt b a)
    (hCycle : ¬ sheet.ReachesCycle Expr.targets b) :
    sheet.ShareError b a
      ∧ ¬ sheet.ReachesCycle Expr.targets a := by
  rcases h with ⟨t, hFirst, hKey, hFormula⟩
  rcases error_of_firstFailing? hFirst hCycle with
    ⟨hRefers, e, hRead, hOutcome⟩
  rw [hKey] at hRefers
  constructor
  · rcases exists_ofResult hFormula with ⟨result, hResult⟩
    have hPlain :
        sheet.readPlain t =
          (Outcome.ofResult result).toResult := by
      rw [← hResult false, ← readPlain_of_holdsFormula hFormula]
      unfold readPlain evaluateCell
      rw [evaluateCellWith_congr_relative hKey,
        ← get?_relative, hKey, get?_relative]
    rw [hPlain] at hRead
    cases result with
    | ok v => cases hRead
    | error cause =>
        cases hRead
        refine ⟨CellError.ofFormulaError cause,
          fun explain => ⟨?_, hResult explain⟩⟩
        rw [hOutcome,
          CellError.ofFormulaError_toFormulaError]
  · intro hBelow
    exact hCycle
      ((reachesCycle_relative_iff.mpr hBelow).of_refers
        hRefers)

/-
  The same holds at the end of a chain of such references,
  none of which leads to a cycle.
-/
theorem shareError_of_chain
    (h : TransGen sheet.FailsAt b a)
    (hCycle : ¬ sheet.ReachesCycle Expr.targets b) :
    sheet.ShareError b a
      ∧ ¬ sheet.ReachesCycle Expr.targets a := by
  induction h with
  | single h => exact h.shareError hCycle
  | tail _ h ih =>
      rcases h.shareError ih.2 with ⟨hShare, hBelow⟩
      exact ⟨ih.1.trans hShare, hBelow⟩

/-
  A formula that first fails at a stored error has its code,
  and the message of that code if there is one.
-/
theorem outcome_of_storedError
    {code : ErrorCode}
    {message : String}
    (hFirst : sheet.firstFailing? b = some (.cell t))
    (hCycle : ¬ sheet.ReachesCycle Expr.targets b)
    (hStored :
      sheet.content? t = some (.error code message))
    (explain : Bool) :
    (sheet.evaluateCell explain b).outcome =
      .error ⟨code, code.message?.getD message⟩ := by
  rcases error_of_firstFailing? hFirst hCycle with
    ⟨-, e, hRead, hOutcome⟩
  have hStored' :
      sheet.readPlain t =
        .error (.propagated code message) := by
    rw [readPlain_eq, readReference_eq, hStored,
      if_neg List.not_mem_nil, CellMap.get?_empty]
  rw [hStored'] at hRead
  cases hRead
  rw [hOutcome, CellError.ofFormulaError_eq]
  rfl

/- Errors of formulas have the message of their code. -/
theorem message?_of_error
    {err : CellError}
    (hFormula : Engine.holdsFormula sheet b = true)
    (hParse : err.code ≠ .parse)
    (explain : Bool)
    (h :
      (sheet.evaluateCell explain b).outcome = .error err) :
    err.code.message? = some err.message := by
  rcases exists_ofResult hFormula with ⟨result, hResult⟩
  rw [hResult explain] at h
  cases result with
  | ok v => cases h
  | error e =>
      cases h
      exact CellError.message?_code_ofFormulaError hParse

/-
  Errors travel unchanged. A formula that can be read fails
  just in case one of its operands does. Where it reaches no
  cycle and the first such operand refers to a formula, it
  has the error of that formula, and so on to the end of any
  chain. Where the operand refers to a stored error, it has
  the stored code. Formulas have no other messages than
  those of the codes, but for errors of their text.
-/
theorem errors_unchanged
    (sheet : Sheet)
    (b : Address) :
    (∀ e explain, sheet.expr? b = some e →
      (sheet.firstFailing? b = none ↔
        ∃ v, (sheet.evaluateCell explain b).outcome =
          .value v))
      ∧ (¬ sheet.ReachesCycle Expr.targets b →
        (∀ a, sheet.FailsAt b a → sheet.ShareError b a)
          ∧ (∀ a, TransGen sheet.FailsAt b a →
            sheet.ShareError b a)
          ∧ ∀ t code message explain,
            sheet.firstFailing? b = some (.cell t) →
            sheet.content? t = some (.error code message) →
            (sheet.evaluateCell explain b).outcome =
              .error ⟨code, code.message?.getD message⟩)
      ∧ ∀ explain err,
        Engine.holdsFormula sheet b = true →
        (sheet.evaluateCell explain b).outcome =
          .error err →
        err.code ≠ .parse →
        err.code.message? = some err.message := by
  refine ⟨fun e explain h =>
      firstFailing?_eq_none_iff h explain,
    fun hCycle => ⟨?_, ?_, ?_⟩, ?_⟩
  · intro a h
    exact (h.shareError hCycle).1
  · intro a h
    exact (shareError_of_chain h hCycle).1
  · intro t code message explain hFirst hStored
    exact outcome_of_storedError hFirst hCycle hStored explain
  · intro explain err hFormula hError hParse
    exact message?_of_error hFormula hParse explain hError

/-
  Three formulas that refer to one another, with operators
  and an aggregate around the references, above an error
  that is stored with a message of its own.
-/
def relayedErrorSheet : Sheet :=
  { blank "Relayed" 4 1 .epoch with
    cells := CellMap.ofList
      [(.ofPosition 0 0,
          .formula "=SUM(A4:A4,-A2)"
            (some (.call "SUM"
              [.range (.ofPosition 3 0) (.ofPosition 3 0),
                .negate (.cell (.ofPosition 1 0))]))),
        (.ofPosition 1 0,
          .formula "=A3*(1/0)"
            (some (.binary .multiply
              (.cell (.ofPosition 2 0))
              (.binary .divide (.number 1) (.number 0))))),
        (.ofPosition 2 0,
          .formula "=$A$4"
            (some (.cell
              ⟨3, 0, true, true⟩))),
        (.ofPosition 3 0, .error .reference "gone")] }

/- References on the sheet end at the stored error. -/
theorem not_reachesCycle_relayedErrorSheet :
    ¬ relayedErrorSheet.ReachesCycle Expr.targets
      (.ofPosition 0 0) := by
  have hStored :
      ¬ relayedErrorSheet.ReachesCycle Expr.targets
        (.ofPosition 3 0) :=
    not_reachesCycle_of_expr? rfl
  have hLast :
      ¬ relayedErrorSheet.ReachesCycle Expr.targets
        (.ofPosition 2 0) :=
    not_reachesCycle_of_targets rfl
      (List.forall_mem_singleton.mpr hStored)
  have hMiddle :
      ¬ relayedErrorSheet.ReachesCycle Expr.targets
        (.ofPosition 1 0) :=
    not_reachesCycle_of_targets rfl
      (List.forall_mem_singleton.mpr hLast)
  exact not_reachesCycle_of_targets rfl
    (List.forall_mem_cons.mpr
      ⟨hStored, List.forall_mem_singleton.mpr hMiddle⟩)

/- The first operand that fails in each of the formulas. -/
theorem firstFailing?_relayedErrorSheet :
    relayedErrorSheet.firstFailing? (.ofPosition 0 0) =
        some (.cell (.ofPosition 1 0))
      ∧ relayedErrorSheet.firstFailing? (.ofPosition 1 0) =
        some (.cell (.ofPosition 2 0))
      ∧ relayedErrorSheet.firstFailing? (.ofPosition 2 0) =
        some (.cell ⟨3, 0, true, true⟩) := by
  refine ⟨?_, ?_, ?_⟩ <;> cbv

/-
  The last of the formulas has the stored code with another
  message, and the first one has the error of the last.
-/
theorem errors_unchanged_relayedErrorSheet :
    ¬ relayedErrorSheet.ReachesCycle Expr.targets
        (.ofPosition 0 0)
      ∧ (relayedErrorSheet.evaluateCell true
          (.ofPosition 2 0)).outcome =
        .error ⟨.reference, "Bad reference"⟩
      ∧ relayedErrorSheet.ShareError (.ofPosition 0 0)
        (.ofPosition 2 0)
      ∧ ErrorCode.reference.message? =
        some "Bad reference" := by
  have hCycle := not_reachesCycle_relayedErrorSheet
  rcases firstFailing?_relayedErrorSheet with
    ⟨hFirst, hMiddle, hLast⟩
  have hToMiddle :
      relayedErrorSheet.FailsAt (.ofPosition 0 0)
        (.ofPosition 1 0) :=
    ⟨_, hFirst, rfl, rfl⟩
  have hToLast :
      relayedErrorSheet.FailsAt (.ofPosition 1 0)
        (.ofPosition 2 0) :=
    ⟨_, hMiddle, rfl, rfl⟩
  have hChain := (TransGen.single hToMiddle).tail hToLast
  have hBelow := (shareError_of_chain hChain hCycle).2
  have hStored :=
    ((relayedErrorSheet.errors_unchanged
      (.ofPosition 2 0)).2.1 hBelow).2.2 ⟨3, 0, true, true⟩
        .reference "gone" true hLast rfl
  refine ⟨hCycle, hStored, ?_, ?_⟩
  · exact ((relayedErrorSheet.errors_unchanged
      (.ofPosition 0 0)).2.1 hCycle).2.1 _ hChain
  · exact (relayedErrorSheet.errors_unchanged
      (.ofPosition 2 0)).2.2 true _ rfl hStored (by decide)

end Sheet

end Spreadsheet
