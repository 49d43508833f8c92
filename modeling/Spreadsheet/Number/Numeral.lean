import Spreadsheet.Number.Binary64
import Spreadsheet.Text.Blank
import Spreadsheet.Text.Digit

/-
  This file defines the texts that stand for numbers, and
  the doubles they stand for: decimal literals, whole
  numbers in base sixteen, eight and two, and `Infinity`.

  Key definitions include:
    * `DecimalLiteral`
    * `Numeral`
    * `Numeral.read`
    * `Numeral.value`
    * `parseNumber`
-/

namespace Spreadsheet

------------------------------------------------------------
-- Decimal Literals
------------------------------------------------------------

/-
  An unsigned decimal literal: the digits before and after
  the point, and the exponent.
-/
structure DecimalLiteral where
  whole : List Char
  fraction : List Char
  exponent : Int
deriving DecidableEq

namespace DecimalLiteral

/- The literal without its point, and the power of ten. -/
def significand
    (d : DecimalLiteral) : Nat :=
  Digit.decimal (d.whole ++ d.fraction)

def scale
    (d : DecimalLiteral) : Int :=
  d.exponent - d.fraction.length

/-
  The double nearest to a decimal literal. A literal beyond
  the range of doubles is settled by its leading digit, so
  that a huge exponent needs no huge power of ten.
-/
def value
    (d : DecimalLiteral) : Float :=
  let n := d.significand
  let top := d.scale + (Nat.toDigits 10 n).length
  if n = 0 ∨ top < -323 then 0
  else if 309 < top then Binary64.infinity
  else
    Binary64.ofRatio
      (n * Nat.pow 10 d.scale.toNat)
      (Nat.pow 10 (-d.scale).toNat)

------------------------------------------------------------
-- Reading Decimal Literals
------------------------------------------------------------

/- Take an optional sign off the front. -/
def takeSign :
    List Char → Bool × List Char
  | '-' :: rest => (true, rest)
  | '+' :: rest => (false, rest)
  | cs => (false, cs)

/-
  Take digits with an optional point off the front. There
  may be no digit at all.
-/
def takeDigits
    (cs : List Char) :
    (List Char × List Char) × List Char :=
  let whole := cs.takeWhile Char.isDigit
  match cs.dropWhile Char.isDigit with
  | '.' :: rest =>
      ((whole, rest.takeWhile Char.isDigit),
        rest.dropWhile Char.isDigit)
  | rest => ((whole, []), rest)

/- Read an exponent that takes up the whole text. -/
def readExponent? :
    List Char → Option Int
  | [] => some 0
  | c :: rest =>
      if c == 'e' || c == 'E' then
        let (negative, digits) := takeSign rest
        if digits.isEmpty || !digits.all Char.isDigit then
          none
        else
          let n : Int := Digit.decimal digits
          some (if negative then -n else n)
      else none

/- Read a literal that takes up the whole text. -/
def read?
    (cs : List Char) : Option DecimalLiteral :=
  let ((whole, fraction), rest) := takeDigits cs
  if whole.isEmpty && fraction.isEmpty then none
  else
    (readExponent? rest).map fun exponent =>
      ⟨whole, fraction, exponent⟩

end DecimalLiteral

------------------------------------------------------------
-- Numerals
------------------------------------------------------------

/- What a text that stands for a number says. -/
inductive Numeral where
  | blank
  | radix (base : Nat) (digits : List Nat)
  | infinity (negative : Bool)
  | decimal (negative : Bool) (literal : DecimalLiteral)
deriving DecidableEq

namespace Numeral

/- Characters that may surround a numeral. -/
def isPadding
    (c : Char) : Bool :=
  Blank.isBlank c || c == '\ufeff'

/- The base that a letter after a leading zero announces. -/
def baseOf?
    (c : Char) : Option Nat :=
  if c == 'x' || c == 'X' then some 16
  else if c == 'o' || c == 'O' then some 8
  else if c == 'b' || c == 'B' then some 2
  else none

/- Read digits of a base that take up the whole text. -/
def readRadix?
    (base : Nat)
    (cs : List Char) : Option Numeral :=
  if cs.isEmpty then none
  else (cs.mapM (Digit.value? base)).map (radix base)

/- Read a decimal literal or `Infinity` with its sign. -/
def readSigned?
    (cs : List Char) : Option Numeral :=
  let (negative, unsigned) := DecimalLiteral.takeSign cs
  if unsigned = "Infinity".toList then
    some (infinity negative)
  else
    (DecimalLiteral.read? unsigned).map (decimal negative)

/-
  Read a text without padding. A zero with a base letter
  after it commits to that base, so `0x` alone is refused.
-/
def readBare? :
    List Char → Option Numeral
  | [] => some blank
  | '0' :: c :: rest =>
      match baseOf? c with
      | some base => readRadix? base rest
      | none => readSigned? ('0' :: c :: rest)
  | cs => readSigned? cs

/- Read a text that stands for a number. -/
def read?
    (cs : List Char) : Option Numeral :=
  readBare? (Blank.trimBy isPadding cs)

------------------------------------------------------------
-- Values
------------------------------------------------------------

/-
  The number that digits denote when the product with the
  base and the sum with the next digit are both rounded to
  the precision of a double, digit after digit.
-/
def roundedFold
    (base : Nat)
    (digits : List Nat) : Nat :=
  digits.foldl
    (fun n d =>
      Binary64.roundNat (Binary64.roundNat (n * base) + d))
    0

/- The double that a numeral stands for. -/
def value :
    Numeral → Float
  | blank => 0
  | radix base digits =>
      Binary64.ofNat (roundedFold base digits)
  | infinity negative =>
      Binary64.signed negative Binary64.infinity
  | decimal negative literal =>
      Binary64.signed negative literal.value

end Numeral

/-
  The number that a text stands for, if it stands for one.
  Blank text is zero.
-/
def parseNumber
    (text : String) : Option Float :=
  (Numeral.read? text.toList).map Numeral.value

end Spreadsheet
