import Spreadsheet.Address.Notation

/-
  This file defines rectangular ranges of cells, their
  written form, and the two orders in which their cells are
  listed: all at once, or one at a time by a walk that knows
  how many cells are still to come.

  Key definitions include:
    * `Range`
    * `Range.spanning`
    * `Range.parse`
    * `Range.contains`
    * `Range.cells`
    * `Range.Walk`
    * `Range.Walk.next?`
-/

namespace Spreadsheet

------------------------------------------------------------
-- Ranges
------------------------------------------------------------

/-
  A rectangle of cells from its top left corner `start` to
  its bottom right corner `stop`.
-/
structure Range where
  start : Address
  stop : Address
  row_le : start.row ≤ stop.row
  col_le : start.col ≤ stop.col
deriving DecidableEq

namespace Range

theorem smaller_le_larger
    (x y : UInt32) : min x y ≤ max x y := by
  rcases UInt32.le_total x y with h | h
  · simp [min, max, h]
  · by_cases h' : x ≤ y
    · simp [min, max, h']
    · simpa [min, minOfLe, max, maxOfLe, h'] using h

/-
  The smallest range that holds two addresses. The top left
  corner takes the markers of the first address and the
  bottom right corner those of the second, wherever the two
  addresses lie.
-/
def spanning
    (a b : Address) : Range where
  start :=
    ⟨min a.row b.row, min a.col b.col,
      a.rowAbsolute, a.colAbsolute⟩
  stop :=
    ⟨max a.row b.row, max a.col b.col,
      b.rowAbsolute, b.colAbsolute⟩
  row_le := smaller_le_larger a.row b.row
  col_le := smaller_le_larger a.col b.col

/- The range of one cell. -/
def single
    (a : Address) : Range where
  start := a
  stop := a
  row_le := UInt32.le_refl _
  col_le := UInt32.le_refl _

/- Whether an address lies in the rectangle. -/
def contains
    (r : Range)
    (a : Address) : Bool :=
  r.start.row ≤ a.row && a.row ≤ r.stop.row
    && r.start.col ≤ a.col && a.col ≤ r.stop.col

------------------------------------------------------------
-- Size
------------------------------------------------------------

def rowCount
    (r : Range) : Nat :=
  r.stop.row.toNat - r.start.row.toNat + 1

def colCount
    (r : Range) : Nat :=
  r.stop.col.toNat - r.start.col.toNat + 1

def cellCount
    (r : Range) : Nat :=
  r.rowCount * r.colCount

/- The product as it is in a word of 64 bits. -/
def cellCountInWord
    (r : Range) : UInt64 :=
  r.rowCount.toUInt64 * r.colCount.toUInt64

------------------------------------------------------------
-- Notation
------------------------------------------------------------

/- The written form of a range. -/
def text
    (r : Range) : String :=
  r.start.text ++ ":" ++ r.stop.text

instance : ToString Range :=
  ⟨text⟩

/- Why a text is no range. -/
inductive Fault where
  | shape (text : String)
  | address (fault : Address.Fault)
deriving DecidableEq

def Fault.message : Fault → String
  | .shape text =>
      "Invalid range: expected START:END, got '"
        ++ text ++ "'"
  | .address fault => fault.message

/- Read two addresses with one colon between them. -/
def parse
    (text : String) : Except Fault Range :=
  let cs := text.toList
  match cs.dropWhile (· ≠ ':') with
  | [] => .error (.shape text)
  | _ :: second =>
      if second.contains ':' then .error (.shape text)
      else
        let first := cs.takeWhile (· ≠ ':')
        match Address.parse (String.ofList first) with
        | .error fault => .error (.address fault)
        | .ok a =>
            match Address.parse (String.ofList second) with
            | .error fault => .error (.address fault)
            | .ok b => .ok (spanning a b)

------------------------------------------------------------
-- Listing The Cells
------------------------------------------------------------

/- The order in which the cells of a range are listed. -/
inductive Order where
  /- Down a column, then on to the next column. -/
  | columnMajor
  /- Along a row, then on to the next row. -/
  | rowMajor
deriving DecidableEq

/- The row numbers of a range, top to bottom. -/
def rows
    (r : Range) : List UInt32 :=
  (List.range' r.start.row.toNat r.rowCount).map
    Nat.toUInt32

/- The column numbers of a range, left to right. -/
def cols
    (r : Range) : List UInt32 :=
  (List.range' r.start.col.toNat r.colCount).map
    Nat.toUInt32

/- The cells of a range, without markers. -/
def cells
    (r : Range) : Order → List Address
  | .columnMajor =>
      r.cols.flatMap fun col =>
        r.rows.map fun row => Address.ofPosition row col
  | .rowMajor =>
      r.rows.flatMap fun row =>
        r.cols.map fun col => Address.ofPosition row col

------------------------------------------------------------
-- Walking The Cells
------------------------------------------------------------

/-
  A walk that stands before the cell in row `row` and column
  `col`, or past the last cell.
-/
structure Walk where
  range : Range
  order : Order
  position : Option (UInt32 × UInt32)
  remaining : Nat

/- A walk over the whole range. -/
def walk
    (r : Range)
    (order : Order) : Walk :=
  ⟨r, order, some (r.start.row, r.start.col), r.cellCount⟩

namespace Walk

/- The position after a given one. -/
def positionAfter
    (r : Range)
    (order : Order)
    (row col : UInt32) : Option (UInt32 × UInt32) :=
  match order with
  | .columnMajor =>
      if row < r.stop.row then some (row + 1, col)
      else if col < r.stop.col then
        some (r.start.row, col + 1)
      else none
  | .rowMajor =>
      if col < r.stop.col then some (row, col + 1)
      else if row < r.stop.row then
        some (row + 1, r.start.col)
      else none

/- The next cell and the walk after it. -/
def next?
    (w : Walk) : Option (Address × Walk) :=
  w.position.map fun (row, col) =>
    (Address.ofPosition row col,
      { w with
        position := positionAfter w.range w.order row col
        remaining := w.remaining - 1 })

/- The next cells, at most `n`, and the walk after them. -/
def take
    (w : Walk) : Nat → List Address × Walk
  | 0 => ([], w)
  | n + 1 =>
      match w.next? with
      | none => ([], w)
      | some (a, w') =>
          let (rest, last) := w'.take n
          (a :: rest, last)

end Walk

end Range

end Spreadsheet
