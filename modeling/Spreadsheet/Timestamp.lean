import Spreadsheet.Text.Blank
import Spreadsheet.Text.Digit

/-
  This file defines points in time, their date and time of
  day in UTC, and how they are written: `2024-01-31`, a `T`,
  `23:59:59`, fractions of a second, and an offset.

  Key definitions include:
    * `Timestamp`
    * `Timestamp.daysOfDate`
    * `Timestamp.dateOfDays`
    * `Timestamp.date`
    * `Timestamp.text`
    * `Timestamp.read?`
-/

namespace Spreadsheet

/-
  Seconds since the start of 1970 in UTC, and nanoseconds
  after that second. During a leap second they count on from
  the second before it, so they go up to two thousand
  million.
-/
structure Timestamp where
  seconds : Int
  nanoseconds : Nat
deriving DecidableEq, Inhabited

namespace Timestamp

/- The start of 1970. -/
def epoch : Timestamp := ⟨0, 0⟩

def secondsPerDay : Nat := 86400

def nanosPerSecond : Nat := 1000000000

------------------------------------------------------------
-- Dates
------------------------------------------------------------

/- A day of the calendar. -/
structure Date where
  year : Int
  month : Nat
  day : Nat
deriving DecidableEq

def isLeapYear
    (year : Int) : Bool :=
  year % 4 == 0 && (year % 100 != 0 || year % 400 == 0)

def daysInMonth
    (year : Int)
    (month : Nat) : Nat :=
  if month = 2 then if isLeapYear year then 29 else 28
  else if month = 4 ∨ month = 6 ∨ month = 9 ∨ month = 11
  then 30
  else 31

/- The years that a date may lie in. -/
def isYearInRange
    (year : Int) : Bool :=
  -262143 ≤ year && year ≤ 262142

/- Whether the calendar has a date. -/
def Date.isValid
    (d : Date) : Bool :=
  isYearInRange d.year && 1 ≤ d.month && d.month ≤ 12
    && 1 ≤ d.day && d.day ≤ daysInMonth d.year d.month

/-
  The number of days from the start of 1970 to a date. Years
  are counted from March, so that a leap day comes last.
-/
def daysOfDate
    (d : Date) : Int :=
  let year := if d.month ≤ 2 then d.year - 1 else d.year
  let month := (d.month + 9) % 12
  let dayOfYear := (153 * month + 2) / 5 + (d.day - 1)
  365 * year + Int.fdiv year 4 - Int.fdiv year 100
    + Int.fdiv year 400 + dayOfYear - 719468

/- The date that is a number of days after 1970 began. -/
def dateOfDays
    (days : Int) : Date :=
  let z := days + 719468
  let era := Int.fdiv z 146097
  let dayOfEra := (z - era * 146097).toNat
  let yearOfEra :=
    (dayOfEra - dayOfEra / 1460 + dayOfEra / 36524
      - dayOfEra / 146096) / 365
  let dayOfYear :=
    dayOfEra
      - (365 * yearOfEra + yearOfEra / 4 - yearOfEra / 100)
  let month := (5 * dayOfYear + 2) / 153
  let day := dayOfYear - (153 * month + 2) / 5 + 1
  let year := (yearOfEra : Int) + era * 400
  if month < 10 then ⟨year, month + 3, day⟩
  else ⟨year + 1, month - 9, day⟩

/- The number of whole days from the start of 1970. -/
def days
    (t : Timestamp) : Int :=
  Int.fdiv t.seconds secondsPerDay

/- The date in UTC. -/
def date
    (t : Timestamp) : Date :=
  dateOfDays t.days

------------------------------------------------------------
-- Writing
------------------------------------------------------------

/- A number with zeros in front up to a width. -/
def padded
    (width n : Nat) : String :=
  let digits := Nat.toDigits 10 n
  String.ofList
    (List.replicate (width - digits.length) '0' ++ digits)

/- A year. Only years of four digits go without a sign. -/
def yearText
    (year : Int) : String :=
  if 0 ≤ year ∧ year ≤ 9999 then padded 4 year.toNat
  else
    (if year < 0 then "-" else "+")
      ++ padded 4 year.natAbs

/-
  The fraction of a second in milliseconds, microseconds or
  nanoseconds, whichever is the coarsest exact one.
-/
def fractionText
    (nanos : Nat) : String :=
  if nanos = 0 then ""
  else if nanos % 1000000 = 0 then
    "." ++ padded 3 (nanos / 1000000)
  else if nanos % 1000 = 0 then
    "." ++ padded 6 (nanos / 1000)
  else "." ++ padded 9 nanos

/- The written form in UTC. -/
def text
    (t : Timestamp) : String :=
  let date := t.date
  let ofDay := (t.seconds - t.days * secondsPerDay).toNat
  let isLeap := nanosPerSecond ≤ t.nanoseconds
  let second := ofDay % 60 + if isLeap then 1 else 0
  yearText date.year ++ "-" ++ padded 2 date.month
    ++ "-" ++ padded 2 date.day
    ++ "T" ++ padded 2 (ofDay / 3600)
    ++ ":" ++ padded 2 (ofDay / 60 % 60)
    ++ ":" ++ padded 2 second
    ++ fractionText (t.nanoseconds % nanosPerSecond)
    ++ "Z"

------------------------------------------------------------
-- Reading
------------------------------------------------------------

def skipBlanks
    (cs : List Char) : List Char :=
  cs.dropWhile Blank.isBlank

/- Take a given character off the front. -/
def takeChar?
    (c : Char) : List Char → Option (List Char)
  | [] => none
  | d :: rest => if c = d then some rest else none

/- Take at least one and at most `most` digits. -/
def takeNumber?
    (most : Nat)
    (cs : List Char) : Option (Nat × List Char) :=
  let digits := (cs.take most).takeWhile Char.isDigit
  if digits.isEmpty then none
  else some (Digit.decimal digits, cs.drop digits.length)

/- Take a number of at most two digits after blanks. -/
def takePart?
    (cs : List Char) : Option (Nat × List Char) :=
  takeNumber? 2 (skipBlanks cs)

/-
  Take a year after blanks. Without a sign it has at most
  four digits.
-/
def takeYear?
    (cs : List Char) : Option (Int × List Char) :=
  match skipBlanks cs with
  | '-' :: rest =>
      (takeNumber? rest.length rest).map fun (n, rest) =>
        (-(n : Int), rest)
  | '+' :: rest =>
      (takeNumber? rest.length rest).map fun (n, rest) =>
        ((n : Int), rest)
  | cs =>
      (takeNumber? 4 cs).map fun (n, rest) =>
        ((n : Int), rest)

def takeDate?
    (cs : List Char) : Option (Date × List Char) := do
  let (year, cs) ← takeYear? cs
  let (month, cs) ←
    takePart? (← takeChar? '-' (skipBlanks cs))
  let (day, cs) ←
    takePart? (← takeChar? '-' (skipBlanks cs))
  if Date.isValid ⟨year, month, day⟩ then
    some (⟨year, month, day⟩, cs)
  else none

/-
  Take a fraction of a second in nanoseconds. Digits after
  the ninth are dropped.
-/
def takeFraction?
    (cs : List Char) : Option (Nat × List Char) :=
  match cs with
  | '.' :: rest =>
      (takeNumber? 9 rest).map fun (n, after) =>
        (n * Nat.pow 10 (9 - (rest.length - after.length)),
          after.dropWhile Char.isDigit)
  | cs => some (0, cs)

/-
  Take a time of day as seconds and nanoseconds. Second
  sixty is a leap second and counts on from second
  fifty-nine.
-/
def takeTime?
    (cs : List Char) :
    Option ((Nat × Nat) × List Char) := do
  let (hour, cs) ← takePart? cs
  let (minute, cs) ←
    takePart? (← takeChar? ':' (skipBlanks cs))
  let (second, cs) ←
    takePart? (← takeChar? ':' (skipBlanks cs))
  let (nanos, cs) ← takeFraction? cs
  if 23 < hour ∨ 59 < minute ∨ 60 < second then none
  else
    let ofDay := hour * 3600 + minute * 60 + min second 59
    let leap := if second = 60 then nanosPerSecond else 0
    some ((ofDay, nanos + leap), cs)

/- Take two digits, the first of them below a bound. -/
def takeTwo?
    (bound : Nat) :
    List Char → Option (Nat × List Char)
  | c :: d :: rest =>
      let n := Digit.decimal [c, d]
      if c.isDigit ∧ d.isDigit ∧ n < 10 * bound then
        some (n, rest)
      else none
  | _ => none

/- Take the sign of an offset. -/
def takeOffsetSign? :
    List Char → Option (Int × List Char)
  | '+' :: rest => some (1, rest)
  | '-' :: rest => some (-1, rest)
  | '\u2212' :: rest => some (-1, rest)
  | _ => none

/-
  Take an offset from UTC in seconds: `Z`, `UTC`, or a sign
  with hours and minutes. Colons and blanks may stand
  between hours and minutes, and an offset is less than a
  day.
-/
def takeOffset?
    (cs : List Char) : Option (Int × List Char) :=
  if (cs.take 3).map Char.toUpper = "UTC".toList then
    some (0, cs.drop 3)
  else
    match cs with
    | 'Z' :: rest => some (0, rest)
    | 'z' :: rest => some (0, rest)
    | cs => do
        let (sign, cs) ← takeOffsetSign? cs
        let (hours, cs) ← takeTwo? 10 cs
        let (minutes, cs) ←
          takeTwo? 6
            (cs.dropWhile fun c =>
              c == ':' || Blank.isBlank c)
        let offset := hours * 3600 + minutes * 60
        if offset < secondsPerDay then
          some (sign * offset, cs)
        else none

/- Take the mark between a date and a time. -/
def takeSeparator? :
    List Char → Option (List Char)
  | c :: rest =>
      if c == 'T' || c == 't' || c == ' ' then some rest
      else none
  | [] => none

/-
  Read a written point in time. Its year must be in range
  both as written and in UTC.
-/
def read?
    (text : String) : Option Timestamp := do
  let (date, cs) ← takeDate? text.toList
  let ((ofDay, nanos), cs) ←
    takeTime? (← takeSeparator? cs)
  let (offset, cs) ← takeOffset? (skipBlanks cs)
  let t : Timestamp :=
    ⟨daysOfDate date * secondsPerDay + ofDay - offset,
      nanos⟩
  if (skipBlanks cs).isEmpty && isYearInRange t.date.year then
    some t
  else none

end Timestamp

end Spreadsheet
