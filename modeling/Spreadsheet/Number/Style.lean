import Spreadsheet.Number.Scientific

/-
  This file defines how the chosen digits of a number are
  laid out as text.

  Key definitions include:
    * `NumberStyle`
    * `NumberStyle.layout`
    * `NumberStyle.magnitude`
-/

namespace Spreadsheet

------------------------------------------------------------
-- Styles
------------------------------------------------------------

/- The decisions of a way to write numbers. -/
structure NumberStyle where
  /- Exponents of the leading digit written in full. -/
  isPlain : Int → Bool
  /- Whether an integer written in full ends in `.0`. -/
  pointZero : Bool
  tie : Scientific.Tie

namespace NumberStyle

def zeros
    (n : Nat) : List Char :=
  List.replicate n '0'

/- A point and what follows it, if anything does. -/
def afterPoint :
    List Char → List Char
  | [] => []
  | digits => '.' :: digits

------------------------------------------------------------
-- Layout
------------------------------------------------------------

/-
  Digits written in full. The point comes after `point` of
  them, and zeros fill up whatever lies between.
-/
def plain
    (pointZero : Bool)
    (digits : List Char)
    (point : Int) : List Char :=
  if point ≤ 0 then
    '0' :: '.' :: zeros (-point).toNat ++ digits
  else if digits.length ≤ point.toNat then
    digits ++ zeros (point.toNat - digits.length)
      ++ (if pointZero then ['.', '0'] else [])
  else
    digits.take point.toNat
      ++ '.' :: digits.drop point.toNat

/-
  Digits with the point after the first one, and an exponent
  with its sign.
-/
def exponential
    (digits : List Char)
    (exponent : Int) : List Char :=
  digits.take 1 ++ afterPoint (digits.drop 1)
    ++ 'e' :: (if exponent < 0 then '-' else '+')
    :: Nat.toDigits 10 exponent.natAbs

/- The text of a positive number in scientific form. -/
def layout
    (style : NumberStyle)
    (s : Scientific) : List Char :=
  if style.isPlain s.exponent then
    plain style.pointZero s.digits (s.exponent + 1)
  else exponential s.digits s.exponent

/- The text of the magnitude of a finite non-zero double. -/
def magnitude
    (style : NumberStyle)
    (x : Float) : List Char :=
  style.layout
    (Scientific.ofExact style.tie (Binary64.exact x))

/- A minus sign for a negative double. -/
def sign
    (x : Float) : List Char :=
  if x < 0 then ['-'] else []

end NumberStyle

end Spreadsheet
