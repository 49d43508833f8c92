/-
  This file defines cell addresses: a row, a column, and for
  each of the two whether it carries a `$` marker.

  Key definitions include:
    * `Address`
    * `Address.relative`
    * `Address.rank`
-/

namespace Spreadsheet

------------------------------------------------------------
-- Addresses
------------------------------------------------------------

/-
  An address as it is written in a formula. Rows and columns
  count from zero. The markers take part in equality, so
  `Address.relative` is applied before addresses are
  compared as positions.
-/
structure Address where
  row : UInt32
  col : UInt32
  rowAbsolute : Bool
  colAbsolute : Bool
deriving DecidableEq, Inhabited

namespace Address

/- The address of a position, without markers. -/
def ofPosition
    (row col : UInt32) : Address :=
  ⟨row, col, false, false⟩

/- The address of a position with both markers. -/
def absolute
    (row col : UInt32) : Address :=
  ⟨row, col, true, true⟩

/- The same position with both markers cleared. -/
def relative
    (a : Address) : Address :=
  ofPosition a.row a.col

/- Whether either part carries a marker. -/
def isAbsolute
    (a : Address) : Bool :=
  a.rowAbsolute || a.colAbsolute

@[simp]
theorem relative_relative
    (a : Address) :
    a.relative.relative = a.relative :=
  rfl

@[simp]
theorem relative_ofPosition
    (row col : UInt32) :
    (ofPosition row col).relative = ofPosition row col :=
  rfl

------------------------------------------------------------
-- Order
------------------------------------------------------------

/-
  The place of an address in the order by row, then column,
  then row marker, then column marker.
-/
def rank
    (a : Address) : Nat :=
  ((a.row.toNat * UInt32.size + a.col.toNat) * 2
      + a.rowAbsolute.toNat) * 2
    + a.colAbsolute.toNat

/- No two addresses share a rank. -/
theorem rank_injective
    {a b : Address}
    (h : a.rank = b.rank) : a = b := by
  obtain ⟨ar, ac, arf, acf⟩ := a
  obtain ⟨br, bc, brf, bcf⟩ := b
  have hac := ac.toNat_lt
  have hbc := bc.toNat_lt
  have h1 := arf.toNat_lt
  have h2 := acf.toNat_lt
  have h3 := brf.toNat_lt
  have h4 := bcf.toNat_lt
  simp only [rank, UInt32.size] at h
  have hr : ar = br :=
    UInt32.toNat_inj.mp (by omega)
  have hc : ac = bc :=
    UInt32.toNat_inj.mp (by omega)
  have hrf : arf.toNat = brf.toNat := by omega
  have hcf : acf.toNat = bcf.toNat := by omega
  have hb : ∀ x y : Bool, x.toNat = y.toNat → x = y := by
    decide
  rw [hr, hc, hb _ _ hrf, hb _ _ hcf]

instance : LT Address :=
  ⟨fun a b => a.rank < b.rank⟩

instance : LE Address :=
  ⟨fun a b => a.rank ≤ b.rank⟩

instance
    (a b : Address) : Decidable (a < b) :=
  inferInstanceAs (Decidable (a.rank < b.rank))

instance
    (a b : Address) : Decidable (a ≤ b) :=
  inferInstanceAs (Decidable (a.rank ≤ b.rank))

theorem lt_def
    {a b : Address} : a < b ↔ a.rank < b.rank :=
  Iff.rfl

theorem le_def
    {a b : Address} : a ≤ b ↔ a.rank ≤ b.rank :=
  Iff.rfl

theorem lt_irrefl
    (a : Address) : ¬ a < a :=
  Nat.lt_irrefl a.rank

theorem lt_trans
    {a b c : Address}
    (hab : a < b)
    (hbc : b < c) : a < c :=
  Nat.lt_trans hab hbc

/- Of two different addresses, one comes first. -/
theorem lt_of_not_lt_of_ne
    {a b : Address}
    (hlt : ¬ a < b)
    (hne : a ≠ b) : b < a := by
  have hr : a.rank ≠ b.rank :=
    fun h => hne (rank_injective h)
  simp only [lt_def] at *
  omega

end Address

end Spreadsheet
