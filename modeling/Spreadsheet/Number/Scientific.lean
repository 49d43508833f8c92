import Spreadsheet.Number.Binary64

/-
  This file defines the decimal digits that are chosen for a
  double: the fewest that read back as the same double, and
  among those the nearest.

  Key definitions include:
    * `Scientific`
    * `Scientific.ReadsBack`
    * `Scientific.Tie`
    * `Scientific.ofExact`
-/

namespace Spreadsheet

------------------------------------------------------------
-- Scientific Form
------------------------------------------------------------

/-
  Decimal digits with the point after the first one, times
  ten to the power `exponent`.
-/
structure Scientific where
  digits : List Char
  exponent : Int
deriving DecidableEq

namespace Scientific

/-
  The scientific form of `n * 10 ^ grid`, without zeros at
  the end.
-/
def ofGrid
    (n : Nat)
    (grid : Int) : Scientific where
  digits :=
    ((Nat.toDigits 10 n).reverse.dropWhile
      (· == '0')).reverse
  exponent := grid + ((Nat.toDigits 10 n).length - 1 : Nat)

------------------------------------------------------------
-- The Decimals That Read Back
------------------------------------------------------------

/- Compare `a * 10 ^ i` with `b * 2 ^ j`. -/
def compareScaled
    (a : Nat)
    (i : Int)
    (b : Nat)
    (j : Int) : Ordering :=
  compare
    (a * Nat.pow 10 i.toNat * Nat.pow 2 (-j).toNat)
    (b * Nat.pow 2 j.toNat * Nat.pow 10 (-i).toNat)

/-
  Whether `n * 10 ^ grid` is nearer to the double than to
  its neighbours. A number halfway between two doubles
  belongs to the one with the even mantissa.
-/
def readsBack
    (x : Binary64.Exact)
    (n : Nat)
    (grid : Int) : Bool :=
  let low :=
    if x.closeBelow then 4 * x.mantissa - 1
    else 4 * x.mantissa - 2
  let high := 4 * x.mantissa + 2
  let even := x.mantissa % 2 == 0
  let toLow := compareScaled n grid low (x.exponent - 2)
  let toHigh := compareScaled n grid high (x.exponent - 2)
  (toLow == .gt || (even && toLow == .eq))
    && (toHigh == .lt || (even && toHigh == .eq))

------------------------------------------------------------
-- Choosing The Digits
------------------------------------------------------------

/- Where a value halfway between two decimals goes. -/
inductive Tie where
  | toEven
  | away
deriving DecidableEq

/- The exponent of the leading decimal digit. -/
def leadingExponent
    (x : Binary64.Exact) : Int :=
  let log2 := (x.mantissa.log2 : Int) + x.exponent
  let guess := Int.fdiv (log2 * 30103) 100000
  let isBelow (k : Int) : Bool :=
    compareScaled 1 k x.mantissa x.exponent == .gt
  if isBelow guess then guess - 1
  else if isBelow (guess + 1) then guess
  else guess + 1

/-
  The nearest of the two neighbours of the value on the grid
  of multiples of `10 ^ grid`, if one of them reads back.
-/
def onGrid?
    (tie : Tie)
    (x : Binary64.Exact)
    (grid : Int) : Option Scientific :=
  let num :=
    x.mantissa * Nat.pow 2 x.exponent.toNat
      * Nat.pow 10 (-grid).toNat
  let den :=
    Nat.pow 10 grid.toNat * Nat.pow 2 (-x.exponent).toNat
  let below := num / den
  let above := below + 1
  let twice := 2 * (num % den)
  let preferred :=
    if twice < den then below
    else if den < twice then above
    else
      match tie with
      | .away => above
      | .toEven => below + below % 2
  let other := if preferred = below then above else below
  if readsBack x preferred grid then
    some (ofGrid preferred grid)
  else if readsBack x other grid then
    some (ofGrid other grid)
  else none

/- Seventeen digits always read back. -/
def mostDigits : Nat := 17

/-
  The fewest digits that read back as a positive double. The
  grids are tried from one digit on, and the last one is
  taken even if the search finds nothing before it.
-/
def ofExact
    (tie : Tie)
    (x : Binary64.Exact) : Scientific :=
  let leading := leadingExponent x
  let grids :=
    (List.range mostDigits).map fun (k : Nat) =>
      leading - (k : Int)
  match grids.findSome? (onGrid? tie x) with
  | some s => s
  | none =>
      ofGrid
        (x.mantissa * Nat.pow 2 x.exponent.toNat
          * Nat.pow 5 (-x.exponent).toNat)
        (min x.exponent 0)

end Scientific

end Spreadsheet
