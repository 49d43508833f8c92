import Mathlib.Algebra.Group.Nat.Defs
import Spreadsheet.Proofs.AddressCodec
import Spreadsheet.Proofs.RangeCells
import Spreadsheet.Proofs.Respelling

/-
  Walks over ranges. A walk keeps the position of the cell
  that comes next and the number of cells that are still to
  come. Before each step the number is right, and the cells
  from that position on are what is left of the list of all
  cells. So a walk shows the cells of the rectangle in their
  order and each of them once, by whatever corners the
  rectangle is named.

  Key definitions include:
    * `Range.cellsFrom`
    * `Range.Walk.upcoming`
    * `Range.Walk.Sound`

  The main result is `Range.walks_exact`.
-/

namespace Spreadsheet

namespace Range

------------------------------------------------------------
-- Consecutive Words
------------------------------------------------------------

variable {first last x : UInt32}

theorem words_self
    (x : UInt32) : words x x = [x] := by
  simp [words]

theorem toNat_add_one
    (h : x < last) : (x + 1).toNat = x.toNat + 1 := by
  have hLast := last.toNat_lt
  rw [UInt32.lt_iff_toNat_lt] at h
  rw [UInt32.toNat_add]
  change (x.toNat + 1) % 2 ^ 32 = x.toNat + 1
  omega

theorem add_one_le
    (h : x < last) : x + 1 ≤ last := by
  rw [UInt32.le_iff_toNat_le, toNat_add_one h]
  exact UInt32.lt_iff_toNat_lt.mp h

theorem words_of_lt
    (h : x < last) : words x last = x :: words (x + 1) last := by
  have hLess := UInt32.lt_iff_toNat_lt.mp h
  have hCount :
      last.toNat - x.toNat + 1 =
        last.toNat - (x.toNat + 1) + 1 + 1 := by
    omega
  unfold words
  rw [hCount, List.range'_succ, List.map_cons,
    toNat_add_one h]
  simp

theorem words_eq_cons
    (h : x ≤ last) : words x last = x :: (words x last).tail := by
  by_cases hLess : x < last
  · rw [words_of_lt hLess, List.tail_cons]
  · rw [UInt32.le_antisymm h (UInt32.not_lt.mp hLess),
      words_self, List.tail_cons]

------------------------------------------------------------
-- Lines Of Cells
------------------------------------------------------------

/-
  The cells from `x` on in the line `line`, and those of the
  lines after it. Lines run from `first` to `last`.
-/
def sweep
    (place : UInt32 → UInt32 → Address)
    (first last lastLine line x : UInt32) : List Address :=
  (words x last).map (place line)
    ++ (words line lastLine).tail.flatMap fun line =>
      (words first last).map (place line)

variable {place : UInt32 → UInt32 → Address}
variable {line lastLine : UInt32}

/- Within a line the next cell is the one beside. -/
theorem sweep_beside
    (h : x < last) :
    sweep place first last lastLine line x =
      place line x ::
        sweep place first last lastLine line (x + 1) := by
  rw [sweep, words_of_lt h, List.map_cons, List.cons_append]
  rfl

/- At the end of a line the next one starts. -/
theorem sweep_turn
    (h : line < lastLine) :
    sweep place first last lastLine line last =
      place line last ::
        sweep place first last lastLine (line + 1) first := by
  have hLine := words_eq_cons (add_one_le h)
  rw [sweep, sweep, words_self, words_of_lt h, List.tail_cons,
    hLine, List.flatMap_cons, List.tail_cons]
  rfl

theorem sweep_last :
    sweep place first last lastLine lastLine last =
      [place lastLine last] := by
  rw [sweep, words_self, words_self]
  rfl

/- From the start on these are all lines. -/
theorem sweep_first
    (h : line ≤ lastLine) :
    sweep place first last lastLine line first =
      (words line lastLine).flatMap fun line =>
        (words first last).map (place line) := by
  rw [words_eq_cons h, List.flatMap_cons]
  rfl

------------------------------------------------------------
-- The Number Of The Cells
------------------------------------------------------------

theorem length_cells
    (r : Range)
    (order : Order) : (r.cells order).length = r.cellCount := by
  have hRows : r.rows.length = r.rowCount := by
    simp [rows]
  have hCols : r.cols.length = r.colCount := by
    simp [cols]
  cases order with
  | columnMajor =>
      simp [cells, List.length_flatMap, hRows, hCols,
        cellCount, Nat.mul_comm]
  | rowMajor =>
      simp [cells, List.length_flatMap, hRows, hCols,
        cellCount]

/- Two counts of cells from zero on have a small product. -/
theorem cellCount_lt
    {a b : Address}
    (ha : a.Fits)
    (hb : b.Fits) : (spanning a b).cellCount < 2 ^ 64 := by
  have hCount {x y : UInt32}
      (hx : x.toNat < UInt32.size - 1)
      (hy : y.toNat < UInt32.size - 1) :
      (max x y).toNat - (min x y).toNat + 1
        ≤ 2 ^ 32 - 1 := by
    have hSize : UInt32.size = 2 ^ 32 := rfl
    have hMax : (max x y).toNat < UInt32.size - 1 := by
      simp only [max]
      split <;> assumption
    omega
  calc
    (spanning a b).cellCount
      ≤ (2 ^ 32 - 1) * (2 ^ 32 - 1) :=
        Nat.mul_le_mul (hCount ha.row_lt hb.row_lt)
          (hCount ha.col_lt hb.col_lt)
    _ < 2 ^ 64 := by decide

theorem rowCount_le
    (r : Range) : r.rowCount ≤ 2 ^ 32 := by
  have := r.stop.row.toNat_lt
  unfold rowCount
  omega

theorem colCount_le
    (r : Range) : r.colCount ≤ 2 ^ 32 := by
  have := r.stop.col.toNat_lt
  unfold colCount
  omega

theorem toNat_cellCountInWord
    (r : Range) :
    r.cellCountInWord.toNat = r.cellCount % 2 ^ 64 := by
  simp [cellCountInWord, cellCount, Nat.mul_mod]

/-
  A word of 64 bits has room for the number of cells, with
  one exception: in the grid of all positions there is one
  cell too many, and the word is back at zero.
-/
theorem toNat_cellCountInWord_eq_iff
    (r : Range) :
    r.cellCountInWord.toNat = r.cellCount ↔
      ¬ (r.rowCount = 2 ^ 32 ∧ r.colCount = 2 ^ 32) := by
  have hRows := r.rowCount_le
  have hCols := r.colCount_le
  rw [toNat_cellCountInWord]
  constructor
  · rintro hSame ⟨hAllRows, hAllCols⟩
    rw [cellCount, hAllRows, hAllCols] at hSame
    exact absurd hSame (by decide)
  · intro hNot
    have hFits : r.cellCount < 2 ^ 32 * 2 ^ 32 := by
      rcases hRows.lt_or_eq with hLess | hAllRows
      · exact Nat.mul_lt_mul_of_lt_of_le hLess hCols
          (by decide)
      · have hLess : r.colCount < 2 ^ 32 :=
          lt_of_le_of_ne hCols fun h => hNot ⟨hAllRows, h⟩
        exact Nat.mul_lt_mul_of_le_of_lt hRows hLess
          (by decide)
    exact Nat.mod_eq_of_lt hFits

/- That grid is no range of addresses that can be written. -/
theorem toNat_cellCountInWord_spanning
    {a b : Address}
    (ha : a.Fits)
    (hb : b.Fits) :
    (spanning a b).cellCountInWord.toNat =
      (spanning a b).cellCount := by
  rw [toNat_cellCountInWord,
    Nat.mod_eq_of_lt (cellCount_lt ha hb)]

------------------------------------------------------------
-- Positions
------------------------------------------------------------

/- The cells from a position on. -/
def cellsFrom
    (r : Range)
    (order : Order)
    (row col : UInt32) : List Address :=
  match order with
  | .columnMajor =>
      sweep (fun col row => Address.ofPosition row col)
        r.start.row r.stop.row r.stop.col col row
  | .rowMajor =>
      sweep Address.ofPosition
        r.start.col r.stop.col r.stop.row row col

/- A position that is not beyond the last corner. -/
def Reaches
    (r : Range)
    (row col : UInt32) : Prop :=
  row ≤ r.stop.row ∧ col ≤ r.stop.col

/- All cells are those from the first corner on. -/
theorem cellsFrom_start
    (r : Range)
    (order : Order) :
    r.cellsFrom order r.start.row r.start.col =
      r.cells order := by
  cases order with
  | columnMajor =>
      change sweep (fun col row => Address.ofPosition row col)
        _ _ _ _ _ = _
      exact sweep_first r.col_le
  | rowMajor => exact sweep_first r.row_le

/-
  The cells from a position on are the one there and those
  from the position after it on.
-/
theorem cellsFrom_eq
    {r : Range}
    {row col : UInt32}
    (order : Order)
    (h : r.Reaches row col) :
    match Walk.positionAfter r order row col with
    | none =>
        r.cellsFrom order row col =
          [Address.ofPosition row col]
    | some (row', col') =>
        r.cellsFrom order row col =
            Address.ofPosition row col ::
              r.cellsFrom order row' col'
          ∧ r.Reaches row' col' := by
  have hRow : ¬ row < r.stop.row → row = r.stop.row :=
    fun hNot => UInt32.le_antisymm h.1 (UInt32.not_lt.mp hNot)
  have hCol : ¬ col < r.stop.col → col = r.stop.col :=
    fun hNot => UInt32.le_antisymm h.2 (UInt32.not_lt.mp hNot)
  cases order with
  | columnMajor =>
      simp only [Walk.positionAfter, cellsFrom]
      by_cases hBelow : row < r.stop.row
      · rw [if_pos hBelow]
        exact ⟨sweep_beside hBelow, add_one_le hBelow, h.2⟩
      · rw [if_neg hBelow, hRow hBelow]
        by_cases hBeside : col < r.stop.col
        · rw [if_pos hBeside]
          exact ⟨sweep_turn hBeside, r.row_le,
            add_one_le hBeside⟩
        · rw [if_neg hBeside, hCol hBeside]
          exact sweep_last
  | rowMajor =>
      simp only [Walk.positionAfter, cellsFrom]
      by_cases hBeside : col < r.stop.col
      · rw [if_pos hBeside]
        exact ⟨sweep_beside hBeside, h.1, add_one_le hBeside⟩
      · rw [if_neg hBeside, hCol hBeside]
        by_cases hBelow : row < r.stop.row
        · rw [if_pos hBelow]
          exact ⟨sweep_turn hBelow, add_one_le hBelow,
            r.col_le⟩
        · rw [if_neg hBelow, hRow hBelow]
          exact sweep_last

------------------------------------------------------------
-- Walks
------------------------------------------------------------

namespace Walk

/- The cells that a walk has still to show. -/
def upcoming
    (w : Walk) : List Address :=
  match w.position with
  | none => []
  | some (row, col) => w.range.cellsFrom w.order row col

/-
  A walk that stands in its range and knows how many cells
  are still to come.
-/
structure Sound
    (w : Walk) : Prop where
  reaches :
    ∀ p, w.position = some p → w.range.Reaches p.1 p.2
  remaining_eq : w.remaining = w.upcoming.length

variable {w : Walk}

theorem upcoming_walk
    (r : Range)
    (order : Order) :
    (r.walk order).upcoming = r.cells order :=
  r.cellsFrom_start order

theorem sound_walk
    (r : Range)
    (order : Order) : (r.walk order).Sound where
  reaches := by
    rintro p ⟨⟩
    exact ⟨r.row_le, r.col_le⟩
  remaining_eq := by
    rw [upcoming_walk, length_cells]
    rfl

/- A step takes the first of the upcoming cells, if any. -/
theorem Sound.next?
    (h : w.Sound) :
    (w.upcoming = [] ∧ w.next? = none)
      ∨ ∃ a w', w.next? = some (a, w')
        ∧ w.upcoming = a :: w'.upcoming
        ∧ w'.Sound := by
  rcases w with ⟨r, order, - | ⟨row, col⟩, remaining⟩
  · exact Or.inl ⟨rfl, rfl⟩
  · have hReaches : r.Reaches row col := h.reaches _ rfl
    have hCells := cellsFrom_eq order hReaches
    have hRemaining :
        remaining = (r.cellsFrom order row col).length :=
      h.remaining_eq
    refine Or.inr ⟨_, _, rfl, ?_⟩
    simp only [upcoming]
    cases hAfter : positionAfter r order row col with
    | none =>
        rw [hAfter] at hCells
        change r.cellsFrom order row col = _ at hCells
        refine ⟨hCells, nofun, ?_⟩
        change remaining - 1 = 0
        rw [hRemaining, hCells]
        rfl
    | some next =>
        rw [hAfter] at hCells
        refine ⟨hCells.1, ?_, ?_⟩
        · rintro p ⟨⟩
          exact hCells.2
        · change remaining - 1 =
            (r.cellsFrom order next.1 next.2).length
          rw [hRemaining, hCells.1]
          rfl

/-
  Steps take the upcoming cells one after another, and the
  walk after them is sound.
-/
theorem Sound.take
    (h : w.Sound)
    (n : Nat) :
    (w.take n).1 = w.upcoming.take n
      ∧ (w.take n).2.upcoming = w.upcoming.drop n
      ∧ (w.take n).2.Sound := by
  induction n generalizing w with
  | zero => exact ⟨rfl, rfl, h⟩
  | succ n ih =>
      unfold Walk.take
      rcases h.next? with
        ⟨hNone, hNext⟩ | ⟨a, w', hNext, hCells, hSound⟩
      · rw [hNext, hNone]
        exact ⟨rfl, rfl, h⟩
      · rw [hNext, hCells]
        have ⟨hTaken, hLeft, hAfter⟩ := ih hSound
        exact ⟨congrArg (a :: ·) hTaken, hLeft, hAfter⟩

/- A walk is over when no cell is still to come. -/
theorem Sound.next?_eq_none_iff
    (h : w.Sound) : w.next? = none ↔ w.remaining = 0 := by
  rw [h.remaining_eq, List.length_eq_zero_iff]
  rcases h.next? with
    ⟨hNone, hNext⟩ | ⟨a, w', hNext, hCells, -⟩
  · exact iff_of_true hNext hNone
  · rw [hNext, hCells]
    exact iff_of_false nofun nofun

/- A step counts the cell that it shows. -/
theorem Sound.remaining_of_next?
    {w' : Walk}
    {a : Address}
    (h : w.Sound)
    (hNext : w.next? = some (a, w')) :
    w.remaining = w'.remaining + 1 := by
  rcases h.next? with
    ⟨-, hNone⟩ | ⟨b, w'', hSome, hCells, hSound⟩
  · rw [hNone] at hNext
    cases hNext
  · rw [hSome] at hNext
    cases hNext
    rw [h.remaining_eq, hCells, hSound.remaining_eq]
    rfl

end Walk

------------------------------------------------------------
-- Exact Walks
------------------------------------------------------------

/-
  A walk enumerates its rectangle exactly. It shows the
  cells of the range without markers, all of them and no
  others, in the order of the walk and therefore each once.
  Before every step it knows how many cells are still to
  come: all of them at first, a number of 64 bits, one less
  after each step, and none just when there is no step. And
  the walk over any two opposite corners of the rectangle
  shows the same.
-/
theorem walks_exact
    {a b : Address}
    (ha : a.Fits)
    (hb : b.Fits)
    (order : Order) :
    (∀ n, (((spanning a b).walk order).take n).1 =
      ((spanning a b).cells order).take n)
    ∧ (∀ x, x ∈ (spanning a b).cells order ↔
      x.relative = x ∧ (spanning a b).contains x = true)
    ∧ ((spanning a b).cells order).Pairwise order.Before
    ∧ ((spanning a b).walk order).remaining =
      (spanning a b).cellCount
    ∧ (spanning a b).cellCount < 2 ^ 64
    ∧ (∀ n w, (((spanning a b).walk order).take n).2 = w →
      w.remaining =
          (((spanning a b).cells order).drop n).length
        ∧ (w.next? = none ↔ w.remaining = 0)
        ∧ ∀ x w', w.next? = some (x, w') →
          w.remaining = w'.remaining + 1)
    ∧ ∀ c d, SameRectangle (a, b) (c, d) →
      ∀ n, (((spanning c d).walk order).take n).1 =
        (((spanning a b).walk order).take n).1 := by
  have hTake (r : Range) (n : Nat) :=
    (Walk.sound_walk r order).take n
  simp only [Walk.upcoming_walk] at hTake
  refine ⟨fun n => (hTake _ n).1, fun x => mem_cells_iff,
    pairwise_cells _ order, rfl, cellCount_lt ha hb, ?_, ?_⟩
  · rintro n w rfl
    rcases hTake (spanning a b) n with
      ⟨-, hUpcoming, hSound⟩
    refine ⟨?_, hSound.next?_eq_none_iff,
      fun _ _ => hSound.remaining_of_next?⟩
    rw [hSound.remaining_eq, hUpcoming]
  · intro c d hCorners n
    rw [(hTake _ n).1, (hTake _ n).1, hCorners.cells_eq order]

/- The last corner that can be written, and the first. -/
def lastCorner : Address :=
  ⟨0xfffffffe, 0xfffffffe, true, false⟩

def firstCorner : Address :=
  ⟨0, 0, false, true⟩

/-
  The largest range, named by the bottom left and the top
  right corner, and by the two others.
-/
theorem walks_exact_largest :
    (spanning ⟨0xfffffffe, 0, false, false⟩
        ⟨0, 0xfffffffe, true, true⟩).cellCount < 2 ^ 64
      ∧ ((spanning firstCorner lastCorner).walk
          .rowMajor).remaining = (2 ^ 32 - 1) * (2 ^ 32 - 1)
      ∧ ∀ n,
        (((spanning firstCorner lastCorner).walk
            .rowMajor).take n).1 =
          (((spanning ⟨0xfffffffe, 0, false, false⟩
            ⟨0, 0xfffffffe, true, true⟩).walk
              .rowMajor).take n).1 := by
  have hFirst : Address.Fits ⟨0xfffffffe, 0, false, false⟩ :=
    ⟨by decide, by decide⟩
  have hSecond : Address.Fits ⟨0, 0xfffffffe, true, true⟩ :=
    ⟨by decide, by decide⟩
  have hCorners :
      SameRectangle
        (⟨0xfffffffe, 0, false, false⟩,
          ⟨0, 0xfffffffe, true, true⟩)
        (firstCorner, lastCorner) :=
    Or.inr (Or.inr ⟨rfl, rfl⟩)
  rcases walks_exact hFirst hSecond .rowMajor with
    ⟨-, -, -, -, hCount, -, hSame⟩
  exact ⟨hCount, rfl, hSame _ _ hCorners⟩

end Range

end Spreadsheet
