import Spreadsheet.Address.Column
import Spreadsheet.Text.Digit

/-
  This file defines how addresses are written: column
  letters and a row number counted from one, each with an
  optional `$` in front.

  Key definitions include:
    * `Address.text`
    * `Address.Fault`
    * `Address.parse`
-/

namespace Spreadsheet

namespace Address

------------------------------------------------------------
-- Writing
------------------------------------------------------------

/- The marker of a part of an address. -/
def marker
    (isMarked : Bool) : String :=
  if isMarked then "$" else ""

/- The written form of an address. -/
def text
    (a : Address) : String :=
  marker a.colAbsolute ++ Column.letters a.col
    ++ marker a.rowAbsolute ++ toString (a.row.toNat + 1)

instance : ToString Address :=
  ⟨text⟩

------------------------------------------------------------
-- Faults
------------------------------------------------------------

/- Why a text is no address. -/
inductive Fault where
  | empty
  | noLetters (text : String)
  | letters (fault : Column.LettersFault)
  | noRow (text : String)
  | invalidRow (text : String)
  | rowTooLarge (text : String)
  | rowZero (text : String)
deriving DecidableEq

def Fault.detail : Fault → String
  | .empty => "empty address"
  | .noLetters text =>
      "no column letters in '" ++ text ++ "'"
  | .letters fault => fault.detail
  | .noRow text => "no row number in '" ++ text ++ "'"
  | .invalidRow text =>
      "invalid row number in '" ++ text ++ "'"
  | .rowTooLarge text =>
      "row number too large in '" ++ text ++ "'"
  | .rowZero text =>
      "row number must be >= 1 in '" ++ text ++ "'"

def Fault.message
    (fault : Fault) : String :=
  "Invalid address: " ++ fault.detail

------------------------------------------------------------
-- Reading
------------------------------------------------------------

/- Take an optional marker off the front. -/
def takeMarker :
    List Char → Bool × List Char
  | '$' :: rest => (true, rest)
  | cs => (false, cs)

/- Rows counted from one go up to this number. -/
def lastRow : Nat :=
  UInt32.size - 1

/- The row, counted from zero, that digits name. -/
def rowOfDigits
    (text : String)
    (digits : List Char) : Except Fault UInt32 :=
  if digits.isEmpty then .error (.noRow text)
  else if !digits.all Char.isDigit then
    .error (.invalidRow text)
  else
    let n := Digit.decimal digits
    if lastRow < n then .error (.rowTooLarge text)
    else if n = 0 then .error (.rowZero text)
    else .ok (n - 1).toUInt32

/-
  Read an address. The whole text has to be one, letters are
  upper case, and the row is at least one.
-/
def parse
    (text : String) : Except Fault Address :=
  match text.toList with
  | [] => .error .empty
  | cs =>
      let (colAbsolute, cs) := takeMarker cs
      let letters := cs.takeWhile Char.isUpper
      let cs := cs.dropWhile Char.isUpper
      if letters.isEmpty then .error (.noLetters text)
      else
        match Column.ofLetters letters with
        | .error fault => .error (.letters fault)
        | .ok col =>
            let (rowAbsolute, digits) := takeMarker cs
            match rowOfDigits text digits with
            | .error fault => .error fault
            | .ok row =>
                .ok ⟨row, col, rowAbsolute, colAbsolute⟩

end Address

end Spreadsheet
