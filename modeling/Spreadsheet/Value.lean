import Spreadsheet.Number.Numeral
import Spreadsheet.Number.Style

/-
  This file defines the values that cells hold and formulas
  produce, and how each kind of value is read as a number,
  as text and as a truth value.

  Key definitions include:
    * `formatNumber`
    * `Value`
    * `Value.isNumeric`
    * `Value.toNumber`
    * `Value.toText`
    * `Value.isTruthy`
-/

namespace Spreadsheet

------------------------------------------------------------
-- Numbers As Text
------------------------------------------------------------

/-
  Numbers in cells have the fewest digits that read back, are
  written in full between a millionth and 10 ^ 21, and carry
  a signed exponent outside of that.
-/
def cellNumberStyle : NumberStyle where
  isPlain exponent := -6 ≤ exponent && exponent ≤ 20
  pointZero := false
  tie := .away

/- The text of a number. Both zeros are written `0`. -/
def formatNumber
    (x : Float) : String :=
  if x.isNaN then "NaN"
  else if x.isInf then
    if 0 < x then "Infinity" else "-Infinity"
  else if x == 0 then "0"
  else
    String.ofList
      (NumberStyle.sign x ++ cellNumberStyle.magnitude x)

------------------------------------------------------------
-- Values
------------------------------------------------------------

inductive Value where
  | empty
  | boolean (b : Bool)
  | number (x : Float)
  | text (s : String)
deriving DecidableEq, Inhabited

namespace Value

def isEmpty : Value → Bool
  | empty => true
  | _ => false

/- The number, if the value is one without conversion. -/
def number? : Value → Option Float
  | number x => some x
  | _ => none

/- The truth value, if the value is one. -/
def boolean? : Value → Option Bool
  | boolean b => some b
  | _ => none

/- The text, if the value is text. -/
def text? : Value → Option String
  | text s => some s
  | _ => none

/-
  Whether arithmetic and comparison take the value as a
  number. Text is one if it reads as a number, so empty text
  is; the empty value is not.
-/
def isNumeric : Value → Bool
  | empty => false
  | boolean _ => true
  | number _ => true
  | text s => (parseNumber s).isSome

/- The value as a number. What is none counts as zero. -/
def toNumber : Value → Float
  | empty => 0
  | boolean b => if b then 1 else 0
  | number x => x
  | text s => (parseNumber s).getD 0

/- The value as text. -/
def toText : Value → String
  | empty => ""
  | boolean b => if b then "true" else "false"
  | number x => formatNumber x
  | text s => s

/-
  Nothing, false, zero, an undefined number and empty text
  are not true.
-/
def isTruthy : Value → Bool
  | empty => false
  | boolean b => b
  | number x => x != 0 && !x.isNaN
  | text s => !s.isEmpty

def kind : Value → String
  | empty => "empty"
  | boolean _ => "boolean"
  | number _ => "number"
  | text _ => "string"

end Value

end Spreadsheet
