import Spreadsheet.Formula.Error
import Spreadsheet.Value

/-
  This file defines what operators do with values.

  Key definitions include:
    * `Arithmetic.power`
    * `Value.compare?`
    * `BinaryOperator.apply`
    * `Value.negate`
-/

namespace Spreadsheet

------------------------------------------------------------
-- Powers
------------------------------------------------------------

namespace Arithmetic

/-
  A power of doubles. The exponent zero gives one, whatever
  the base is. An undefined exponent, and an infinite one
  with a base of magnitude one, give an undefined power.
-/
def power
    (base exponent : Float) : Float :=
  if exponent == 0 then 1
  else if exponent.isNaN
      || (base.abs == 1 && exponent.isInf) then
    0 / 0
  else base.pow exponent

end Arithmetic

------------------------------------------------------------
-- Comparison
------------------------------------------------------------

namespace Value

/- Whether two values are compared and added as numbers. -/
def areNumeric
    (left right : Value) : Bool :=
  left.isNumeric && right.isNumeric

/-
  Whether two values are equal, as numbers if both are
  numeric and as text otherwise.
-/
def areEqual
    (left right : Value) : Bool :=
  if areNumeric left right then
    left.toNumber == right.toNumber
  else left.toText == right.toText

/-
  How two values compare, as numbers if both are numeric and
  as text by code point otherwise. Undefined numbers do not
  compare.
-/
def compare?
    (left right : Value) : Option Ordering :=
  if areNumeric left right then
    let x := left.toNumber
    let y := right.toNumber
    if x < y then some .lt
    else if x == y then some .eq
    else if y < x then some .gt
    else none
  else
    let s := left.toText
    let t := right.toText
    if s < t then some .lt
    else if s = t then some .eq
    else some .gt

------------------------------------------------------------
-- Operators
------------------------------------------------------------

/-
  The sum of two values. Unless both are numeric their texts
  are joined.
-/
def add
    (left right : Value) : Value :=
  if areNumeric left right then
    number (left.toNumber + right.toNumber)
  else text (left.toText ++ right.toText)

/-
  The negative of a value. What is not a number gives zero,
  and so does `FALSE`, without a sign.
-/
def negate : Value → Value
  | empty => number 0
  | boolean true => number (-1)
  | boolean false => number 0
  | number x => number (-x)
  | text s =>
      match parseNumber s with
      | some x => number (-x)
      | none => number 0

end Value

namespace BinaryOperator

open Value

/- Apply an operator to the values of its operands. -/
def apply
    (op : BinaryOperator)
    (left right : Value) : Except FormulaError Value :=
  match op with
  | add => .ok (left.add right)
  | subtract =>
      .ok (number (left.toNumber - right.toNumber))
  | multiply =>
      .ok (number (left.toNumber * right.toNumber))
  | divide =>
      let divisor := right.toNumber
      if divisor == 0 then .error .divisionByZero
      else .ok (number (left.toNumber / divisor))
  | power =>
      .ok (number
        (Arithmetic.power left.toNumber right.toNumber))
  | equal => .ok (boolean (areEqual left right))
  | notEqual => .ok (boolean (!areEqual left right))
  | less =>
      .ok (boolean (compare? left right == some .lt))
  | lessEqual =>
      .ok (boolean
        (compare? left right == some .lt
          || compare? left right == some .eq))
  | greater =>
      .ok (boolean (compare? left right == some .gt))
  | greaterEqual =>
      .ok (boolean
        (compare? left right == some .gt
          || compare? left right == some .eq))

end BinaryOperator

end Spreadsheet
