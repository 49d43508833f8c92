import Spreadsheet.Evaluation.Arithmetic
import Spreadsheet.Evaluation.Function
import Spreadsheet.Formula.Expr

/-
  This file defines how an expression is evaluated, given a
  way to read the cells it refers to. Evaluation keeps a log
  of what it has read, also when it fails.

  Key definitions include:
    * `Reading`, its cells, ranges and value
    * `Reads`
    * `Reader`
    * `Reader.cell`
    * `Reader.range`
    * `Expr.evaluate`
    * `Function.evaluate`
-/

namespace Spreadsheet

------------------------------------------------------------
-- Logs
------------------------------------------------------------

/- One thing that an evaluation has read. -/
inductive Reading where
  /- The value of a cell. -/
  | reference (target : Address) (value : Value)
  /- A range, all readable cells of which were read. -/
  | expansion (range : Range)
deriving DecidableEq

namespace Reading

/- The cells that a reading lists. -/
def dependencies : Reading → List Address
  | reference target _ => [target]
  | expansion _ => []

/- The ranges that a reading lists. -/
def ranges : Reading → List Range
  | reference _ _ => []
  | expansion range => [range]

/- The value that a reading shows. Ranges show as empty. -/
def value : Reading → Value
  | reference _ v => v
  | expansion _ => .empty

end Reading

/- A result, and what was read to get it. -/
structure Reads (α : Type) where
  outcome : Except FormulaError α
  log : List Reading

namespace Reads

variable {α β : Type}

/- A result for which nothing was read. -/
def ofExcept
    (outcome : Except FormulaError α) : Reads α :=
  ⟨outcome, []⟩

/-
  Go on with a result. After an error nothing more is read,
  and what was read before it stays in the log.
-/
def bind
    (first : Reads α)
    (next : α → Reads β) : Reads β :=
  match first.outcome with
  | .error e => ⟨.error e, first.log⟩
  | .ok a =>
      let second := next a
      ⟨second.outcome, first.log ++ second.log⟩

instance : Monad Reads where
  pure a := ofExcept (.ok a)
  bind := bind

end Reads

------------------------------------------------------------
-- Reading Cells
------------------------------------------------------------

/- A way to read the cell at an address. -/
abbrev Reader :=
  Address → Except FormulaError Value

namespace Reader

/- Read one cell. Only a cell with a value is logged. -/
def cell
    (read : Reader)
    (a : Address) : Reads Value :=
  match read a.relative with
  | .ok v => ⟨.ok v, [.reference a.relative v]⟩
  | .error e => ⟨.error e, []⟩

/-
  The cells of a range that can be read, with their values,
  column by column.
-/
def readable
    (read : Reader)
    (r : Range) : List (Address × Value) :=
  (r.cells .columnMajor).filterMap fun a =>
    match read a with
    | .ok v => some (a, v)
    | .error _ => none

/- Read what can be read of a range. -/
def range
    (read : Reader)
    (r : Range) : Reads (List Value) :=
  let found := readable read r
  ⟨.ok (found.map (·.2)),
    found.map (fun p => .reference p.1 p.2)
      ++ [.expansion r]⟩

end Reader

------------------------------------------------------------
-- Evaluating Expressions
------------------------------------------------------------

mutual

/-
  Evaluate an expression. Both operands of an operator are
  evaluated, the left one first. Outside of the arguments of
  an aggregate, a range gives its first readable value.
-/
def Expr.evaluate
    (read : Reader) : Expr → Reads Value
  | .number x => pure (.number x)
  | .text s => pure (.text s)
  | .boolean b => pure (.boolean b)
  | .cell a => read.cell a
  | .range first second => do
      let values ← read.range (Range.spanning first second)
      pure (values.headD .empty)
  | .binary op left right => do
      let x ← left.evaluate read
      let y ← right.evaluate read
      Reads.ofExcept (op.apply x y)
  | .negate operand => do
      let x ← operand.evaluate read
      pure x.negate
  | .call name args =>
      match Function.named? name with
      | none =>
          Reads.ofExcept (.error (.unknownFunction name))
      | some (.aggregate f) => do
          let values ← evaluateAll read args
          pure (.number (f.apply values))
      | some .conditional => evaluateChoice read args

/-
  The values of the arguments of an aggregate. A range gives
  all its readable values and never fails.
-/
def evaluateAll
    (read : Reader) : List Expr → Reads (List Value)
  | [] => pure []
  | .range first second :: rest => do
      let values ← read.range (Range.spanning first second)
      let more ← evaluateAll read rest
      pure (values ++ more)
  | e :: rest => do
      let value ← e.evaluate read
      let more ← evaluateAll read rest
      pure (value :: more)

/-
  Evaluate a condition and the argument that it chooses. A
  missing argument, and a condition with nothing to choose
  from, give nothing.
-/
def evaluateChoice
    (read : Reader) : List Expr → Reads Value
  | condition :: whenTrue :: rest => do
      let c ← condition.evaluate read
      if c.isTruthy then whenTrue.evaluate read
      else
        match rest with
        | whenFalse :: _ => whenFalse.evaluate read
        | [] => pure .empty
  | _ => pure .empty

end

/- Evaluate a call of a function. -/
def Function.evaluate
    (read : Reader)
    (args : List Expr) : Function → Reads Value
  | .aggregate f => do
      let values ← evaluateAll read args
      pure (.number (f.apply values))
  | .conditional => evaluateChoice read args

/- A call evaluates the function of its name, if any. -/
theorem Expr.evaluate_call
    (read : Reader)
    (name : String)
    (args : List Expr) :
    (Expr.call name args).evaluate read =
      match Function.named? name with
      | none =>
          Reads.ofExcept (.error (.unknownFunction name))
      | some f => f.evaluate read args := by
  rw [Expr.evaluate]
  cases Function.named? name with
  | none => rfl
  | some f => cases f <;> rfl

end Spreadsheet
