/-
  This file defines digits and the natural numbers that runs
  of digits denote.

  Key definitions include:
    * `Digit.value?`
    * `Digit.number`
    * `Digit.decimal`
-/

namespace Spreadsheet

namespace Digit

------------------------------------------------------------
-- Single Digits
------------------------------------------------------------

/-
  The value of a digit in a base of at most sixteen. Letters
  count from ten in either case.
-/
def value?
    (base : Nat)
    (c : Char) : Option Nat :=
  let v :=
    if c.isDigit then c.toNat - '0'.toNat
    else if 'a' ≤ c ∧ c ≤ 'f' then
      c.toNat - 'a'.toNat + 10
    else if 'A' ≤ c ∧ c ≤ 'F' then
      c.toNat - 'A'.toNat + 10
    else base
  if v < base then some v else none

------------------------------------------------------------
-- Runs Of Digits
------------------------------------------------------------

/- The number that digit values denote, leading one first. -/
def number
    (base : Nat)
    (digits : List Nat) : Nat :=
  digits.foldl (fun n d => n * base + d) 0

/-
  The number that decimal digit characters denote. It is
  meant for characters that `Char.isDigit` accepts.
-/
def decimal
    (digits : List Char) : Nat :=
  number 10 (digits.map fun c => c.toNat - '0'.toNat)

end Digit

end Spreadsheet
