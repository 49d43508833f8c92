import Spreadsheet.Address.Basic

/-
  This file defines the letters that name columns: `A` to
  `Z`, then `AA`, in base twenty-six without a zero digit.

  Key definitions include:
    * `Column.letters`
    * `Column.LettersFault`
    * `Column.ofLetters`
-/

namespace Spreadsheet

namespace Column

------------------------------------------------------------
-- Writing
------------------------------------------------------------

/- The letter of a digit counted from zero. -/
def letter
    (digit : Nat) : Char :=
  Char.ofNat ('A'.toNat + digit)

/-
  The letters of a column counted from one. The last letter
  counts units, and every letter counts at least one of its
  unit, so one is taken off before each division.
-/
def lettersFromOne
    (n : Nat) : List Char :=
  if n = 0 then []
  else
    lettersFromOne ((n - 1) / 26)
      ++ [letter ((n - 1) % 26)]
termination_by n

/- The letters of a column counted from zero. -/
def letters
    (col : UInt32) : String :=
  String.ofList (lettersFromOne (col.toNat + 1))

------------------------------------------------------------
-- Reading
------------------------------------------------------------

/- Why letters name no column. -/
inductive LettersFault where
  | empty
  | notALetter (c : Char)
  | tooLarge (text : String)
deriving DecidableEq

def LettersFault.detail :
    LettersFault → String
  | .empty => "empty column letters"
  | .notALetter c =>
      "invalid column letter '" ++ c.toString ++ "'"
  | .tooLarge text =>
      "column '" ++ text ++ "' is too large"

/- The value of a letter as a digit: one to twenty-six. -/
def letterValue
    (c : Char) : Nat :=
  c.toNat - 'A'.toNat + 1

/- Columns counted from one go up to this number. -/
def largest : Nat :=
  UInt32.size - 1

/-
  Read letters after a run that denotes `n`. The bound is
  checked after every letter, so a run that is too large is
  refused before a later character is looked at.
-/
def readFrom
    (text : String)
    (n : Nat) : List Char → Except LettersFault Nat
  | [] => .ok n
  | c :: rest =>
      if c.isUpper then
        let next := n * 26 + letterValue c
        if largest < next then .error (.tooLarge text)
        else readFrom text next rest
      else .error (.notALetter c)

/- The column, counted from zero, that letters name. -/
def ofLetters
    (cs : List Char) : Except LettersFault UInt32 :=
  match cs with
  | [] => .error .empty
  | cs =>
      (readFrom (String.ofList cs) 0 cs).map
        fun n => (n - 1).toUInt32

end Column

end Spreadsheet
