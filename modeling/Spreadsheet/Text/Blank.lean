/-
  This file defines the blank characters of Unicode and the
  removal of characters from both ends of a text.

  Key definitions include:
    * `Blank.isBlank`
    * `Blank.trimBy`
    * `Blank.trim`
-/

namespace Spreadsheet

namespace Blank

/-
  The characters with the Unicode property White_Space. The
  byte order mark and the zero width space do not have it.
-/
def isBlank
    (c : Char) : Bool :=
  let n := c.toNat
  (9 ≤ n && n ≤ 13) || n == 0x20 || n == 0x85 || n == 0xA0
    || n == 0x1680 || (0x2000 ≤ n && n ≤ 0x200A)
    || n == 0x2028 || n == 0x2029 || n == 0x202F
    || n == 0x205F || n == 0x3000

/- Drop the characters of a class from both ends. -/
def trimBy
    (drops : Char → Bool)
    (cs : List Char) : List Char :=
  ((cs.dropWhile drops).reverse.dropWhile drops).reverse

/- Drop blanks from both ends. -/
def trim
    (cs : List Char) : List Char :=
  trimBy isBlank cs

end Blank

end Spreadsheet
