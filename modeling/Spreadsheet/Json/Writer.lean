import Spreadsheet.Json.Basic
import Spreadsheet.Json.Quoted
import Spreadsheet.Number.Style

/-
  This file defines how JSON values are written: one item or
  field a line, each level two blanks further in.

  Key definitions include:
    * `Json.numberStyle`
    * `Json.write`
    * `Json.written`
-/

namespace Spreadsheet

namespace Json

------------------------------------------------------------
-- Numbers
------------------------------------------------------------

/-
  Numbers from a hundred-thousandth up to sixteen digits are
  written in full, and every double shows that it is one by
  a point or an exponent.
-/
def numberStyle : NumberStyle where
  isPlain exponent := -5 ≤ exponent && exponent ≤ 15
  pointZero := true
  tie := .toEven

/- The written form of a finite double. -/
def writeNumber
    (x : Float) : List Char :=
  if x == 0 then
    (if x.toBits == 0 then [] else ['-']) ++ "0.0".toList
  else NumberStyle.sign x ++ numberStyle.magnitude x

------------------------------------------------------------
-- Values
------------------------------------------------------------

/- The start of a line at a level. -/
def newLine
    (level : Nat) : List Char :=
  '\n' :: List.replicate (2 * level) ' '

mutual

/-
  The written form of a value at a level. What stands for no
  value is written like one that is missing, and so are the
  doubles that JSON has no numbers for.
-/
def write
    (level : Nat) : Json → List Char
  | null => "null".toList
  | boolean true => "true".toList
  | boolean false => "false".toList
  | natural n => Nat.toDigits 10 n
  | number x =>
      if x.isFinite then writeNumber x else "null".toList
  | text s => Quoted.quote s
  | list [] => ['[', ']']
  | list (item :: rest) =>
      '[' :: newLine (level + 1) ++ item.write (level + 1)
        ++ writeItems (level + 1) rest
        ++ newLine level ++ [']']
  | object [] => ['\x7b', '\x7d']
  | object ((name, value) :: rest) =>
      '\x7b' :: newLine (level + 1) ++ Quoted.quote name
        ++ ':' :: ' ' :: value.write (level + 1)
        ++ writeFields (level + 1) rest
        ++ newLine level ++ ['\x7d']
  | unreadable => "null".toList

/- Items after the first one, a comma before each. -/
def writeItems
    (level : Nat) : List Json → List Char
  | [] => []
  | item :: rest =>
      ',' :: newLine level ++ item.write level
        ++ writeItems level rest

/- Fields after the first one, a comma before each. -/
def writeFields
    (level : Nat) : List (String × Json) → List Char
  | [] => []
  | (name, value) :: rest =>
      ',' :: newLine level ++ Quoted.quote name
        ++ ':' :: ' ' :: value.write level
        ++ writeFields level rest

end

/- The text of a value. -/
def written
    (value : Json) : String :=
  String.ofList (value.write 0)

end Json

end Spreadsheet
