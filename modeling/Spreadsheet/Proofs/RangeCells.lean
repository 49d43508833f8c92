import Spreadsheet.Range

/-
  The cells that a range lists, in either order, are the
  positions of its rectangle. Each is listed once and in its
  place.

  Main declarations:
    * `Range.mem_cells_iff`
    * `Range.first_mem_cells` and `Range.second_mem_cells`
    * `Range.pairwise_cells`
-/

namespace Spreadsheet

namespace Range

------------------------------------------------------------
-- Rows And Columns
------------------------------------------------------------

/- The words of 32 bits from the first to the last. -/
def words
    (first last : UInt32) : List UInt32 :=
  (List.range' first.toNat
    (last.toNat - first.toNat + 1)).map Nat.toUInt32

theorem mem_words_iff
    {start stop x : UInt32}
    (h : start ≤ stop) :
    x ∈ words start stop ↔ start ≤ x ∧ x ≤ stop := by
  have hLe : start.toNat ≤ stop.toNat :=
    UInt32.le_iff_toNat_le.mp h
  have hStop := stop.toNat_lt
  simp only [words, List.mem_map, List.mem_range'_1,
    UInt32.le_iff_toNat_le]
  constructor
  · rintro ⟨n, ⟨hFrom, hTo⟩, rfl⟩
    have hBound : n < UInt32.size := by
      simp only [UInt32.size]
      omega
    have hWord : n.toUInt32.toNat = n :=
      UInt32.toNat_ofNat_of_lt' hBound
    rw [hWord]
    omega
  · rintro ⟨hFrom, hTo⟩
    refine ⟨x.toNat, by omega, ?_⟩
    exact UInt32.ofNat_toNat

theorem mem_rows_iff
    {r : Range}
    {row : UInt32} :
    row ∈ r.rows ↔ r.start.row ≤ row ∧ row ≤ r.stop.row :=
  mem_words_iff r.row_le

theorem mem_cols_iff
    {r : Range}
    {col : UInt32} :
    col ∈ r.cols ↔ r.start.col ≤ col ∧ col ≤ r.stop.col :=
  mem_words_iff r.col_le

------------------------------------------------------------
-- Cells
------------------------------------------------------------

/- The cells listed are the positions in the rectangle. -/
theorem mem_cells_iff
    {r : Range}
    {order : Order}
    {a : Address} :
    a ∈ r.cells order ↔
      a.relative = a ∧ r.contains a = true := by
  have hContains :
      r.contains a = true ↔
        a.row ∈ r.rows ∧ a.col ∈ r.cols := by
    simp only [contains, Bool.and_eq_true, decide_eq_true_eq,
      mem_rows_iff, mem_cols_iff, and_assoc]
  rw [hContains]
  cases order with
  | columnMajor =>
      simp only [cells, List.mem_flatMap, List.mem_map]
      constructor
      · rintro ⟨col, hCol, row, hRow, rfl⟩
        exact ⟨rfl, hRow, hCol⟩
      · rintro ⟨hKey, hRow, hCol⟩
        exact ⟨a.col, hCol, a.row, hRow, hKey⟩
  | rowMajor =>
      simp only [cells, List.mem_flatMap, List.mem_map]
      constructor
      · rintro ⟨row, hRow, col, hCol, rfl⟩
        exact ⟨rfl, hRow, hCol⟩
      · rintro ⟨hKey, hRow, hCol⟩
        exact ⟨a.row, hRow, a.col, hCol, hKey⟩

/- The smaller of two words is at most each of them. -/
theorem min_le_both
    (x y : UInt32) : min x y ≤ x ∧ min x y ≤ y := by
  simp only [min]
  split
  · next h => exact ⟨UInt32.le_refl x, h⟩
  · next h =>
      exact ⟨(UInt32.le_total x y).resolve_left h,
        UInt32.le_refl y⟩

/- The larger of two words is at least each of them. -/
theorem both_le_max
    (x y : UInt32) : x ≤ max x y ∧ y ≤ max x y := by
  simp only [max]
  split
  · next h => exact ⟨h, UInt32.le_refl y⟩
  · next h =>
      exact ⟨UInt32.le_refl x,
        (UInt32.le_total x y).resolve_left h⟩

/- Both written corners lie in the range they span. -/
theorem first_mem_cells
    (first second : Address)
    (order : Order) :
    first.relative ∈ (spanning first second).cells order := by
  have hRow := min_le_both first.row second.row
  have hRow' := both_le_max first.row second.row
  have hCol := min_le_both first.col second.col
  have hCol' := both_le_max first.col second.col
  refine mem_cells_iff.mpr ⟨rfl, ?_⟩
  simp only [contains, spanning, Address.relative,
    Address.ofPosition, hRow.1, hRow'.1, hCol.1, hCol'.1,
    decide_true, Bool.and_self]

theorem second_mem_cells
    (first second : Address)
    (order : Order) :
    second.relative ∈ (spanning first second).cells order := by
  have hRow := min_le_both first.row second.row
  have hRow' := both_le_max first.row second.row
  have hCol := min_le_both first.col second.col
  have hCol' := both_le_max first.col second.col
  refine mem_cells_iff.mpr ⟨rfl, ?_⟩
  simp only [contains, spanning, Address.relative,
    Address.ofPosition, hRow.2, hRow'.2, hCol.2, hCol'.2,
    decide_true, Bool.and_self]

/- Cells of a range are listed without markers. -/
theorem relative_of_mem_cells
    {r : Range}
    {order : Order}
    {a : Address}
    (h : a ∈ r.cells order) : a.relative = a :=
  (mem_cells_iff.mp h).1

------------------------------------------------------------
-- The Order Of The Cells
------------------------------------------------------------

/- Consecutive words increase. -/
theorem pairwise_words
    {start stop : UInt32}
    (h : start ≤ stop) :
    (words start stop).Pairwise (· < ·) := by
  have hLe : start.toNat ≤ stop.toNat :=
    UInt32.le_iff_toNat_le.mp h
  have hStop := stop.toNat_lt
  have hWord :
      ∀ n ∈ List.range' start.toNat
          (stop.toNat - start.toNat + 1),
        n.toUInt32.toNat = n := by
    intro n hn
    rw [List.mem_range'_1] at hn
    apply UInt32.toNat_ofNat_of_lt'
    simp only [UInt32.size]
    omega
  rw [words, List.pairwise_map]
  have hRange :
      (List.range' start.toNat
        (stop.toNat - start.toNat + 1)).Pairwise (· < ·) :=
    List.pairwise_lt_range'
  refine hRange.imp_of_mem ?_
  intro m n hm hn hLess
  rw [UInt32.lt_iff_toNat_lt, hWord m hm, hWord n hn]
  exact hLess

/- Lines in order, each in its order, are in order. -/
theorem pairwise_lines
    {first last line lastLine : UInt32}
    {before : Address → Address → Prop}
    (place : UInt32 → UInt32 → Address)
    (hFirst : first ≤ last)
    (hLine : line ≤ lastLine)
    (hBeside : ∀ line x y, x < y →
      before (place line x) (place line y))
    (hBelow : ∀ line line' x y, line < line' →
      before (place line x) (place line' y)) :
    ((words line lastLine).flatMap fun line =>
      (words first last).map (place line)).Pairwise before := by
  have hWords : (words first last).Pairwise (· < ·) :=
    pairwise_words hFirst
  have hLines : (words line lastLine).Pairwise (· < ·) :=
    pairwise_words hLine
  rw [List.pairwise_flatMap]
  constructor
  · intro line _
    rw [List.pairwise_map]
    exact hWords.imp (hBeside line _ _)
  · refine hLines.imp fun hLess a ha b hb => ?_
    rcases List.mem_map.mp ha with ⟨x, -, rfl⟩
    rcases List.mem_map.mp hb with ⟨y, -, rfl⟩
    exact hBelow _ _ x y hLess

/- One cell comes before another, column by column. -/
def ColumnBefore
    (a b : Address) : Prop :=
  a.col < b.col ∨ (a.col = b.col ∧ a.row < b.row)

/- One cell comes before another, row by row. -/
def RowBefore
    (a b : Address) : Prop :=
  a.row < b.row ∨ (a.row = b.row ∧ a.col < b.col)

/- One cell comes before another in an order. -/
def Order.Before : Order → Address → Address → Prop
  | .columnMajor => ColumnBefore
  | .rowMajor => RowBefore

/- The cells are listed in that order. -/
theorem pairwise_cells
    (r : Range)
    (order : Order) :
    (r.cells order).Pairwise order.Before := by
  cases order with
  | columnMajor =>
      exact pairwise_lines
        (fun col row => Address.ofPosition row col)
        r.row_le r.col_le
        (fun _ _ _ hLess => Or.inr ⟨rfl, hLess⟩)
        (fun _ _ _ _ hLess => Or.inl hLess)
  | rowMajor =>
      exact pairwise_lines Address.ofPosition
        r.col_le r.row_le
        (fun _ _ _ hLess => Or.inr ⟨rfl, hLess⟩)
        (fun _ _ _ _ hLess => Or.inl hLess)

end Range

end Spreadsheet
