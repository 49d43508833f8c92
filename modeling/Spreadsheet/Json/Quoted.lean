import Spreadsheet.Text.Digit

/-
  This file defines how JSON quotes text: which characters
  are written as escapes, and how escapes are read. An
  escape of four digits is a code unit of UTF-16, and two of
  them can make up one character.

  Key definitions include:
    * `Json.Quoted.quote`
    * `Json.Quoted.takeCodes?`
    * `Json.Quoted.ofCodes?`
-/

namespace Spreadsheet

namespace Json

namespace Quoted

------------------------------------------------------------
-- Writing
------------------------------------------------------------

/- Characters before this one have to be escaped. -/
def firstPlain : Nat := 32

/- The written form of a character within quotes. -/
def escape
    (c : Char) : List Char :=
  match c with
  | '"' => ['\\', '"']
  | '\\' => ['\\', '\\']
  | '\x08' => ['\\', 'b']
  | '\x0c' => ['\\', 'f']
  | '\n' => ['\\', 'n']
  | '\r' => ['\\', 'r']
  | '\t' => ['\\', 't']
  | c =>
      if c.toNat < firstPlain then
        ['\\', 'u', '0', '0', (c.toNat / 16).digitChar,
          (c.toNat % 16).digitChar]
      else [c]

/- A text in quotes. -/
def quote
    (s : String) : List Char :=
  '"' :: s.toList.flatMap escape ++ ['"']

------------------------------------------------------------
-- Codes
------------------------------------------------------------

/- The code that a letter after a backslash stands for. -/
def escaped? : Char → Option Nat
  | '"' => some '"'.toNat
  | '\\' => some '\\'.toNat
  | '/' => some '/'.toNat
  | 'b' => some 8
  | 'f' => some 12
  | 'n' => some 10
  | 'r' => some 13
  | 't' => some 9
  | _ => none

/- The code unit that four digits in base sixteen denote. -/
def unit?
    (digits : List Char) : Option Nat :=
  (digits.mapM (Digit.value? 16)).map (Digit.number 16)

/-
  Take the rest of a quoted text off the front, with its
  closing quote. Each character and each escape is a code.
-/
def takeCodes? :
    List Char → Option (List Nat × List Char)
  | [] => none
  | '"' :: rest => some ([], rest)
  | '\\' :: 'u' :: a :: b :: c :: d :: rest => do
      let code ← unit? [a, b, c, d]
      let (codes, after) ← takeCodes? rest
      some (code :: codes, after)
  | '\\' :: c :: rest => do
      let code ← escaped? c
      let (codes, after) ← takeCodes? rest
      some (code :: codes, after)
  | c :: rest =>
      if c.toNat < firstPlain then none
      else do
        let (codes, after) ← takeCodes? rest
        some (c.toNat :: codes, after)

/- Taking a quoted text takes its closing quote. -/
theorem length_takeCodes?
    {cs after : List Char}
    {codes : List Nat}
    (h : takeCodes? cs = some (codes, after)) :
    after.length < cs.length := by
  fun_induction takeCodes? cs generalizing codes after with
  | case1 => simp at h
  | case2 rest =>
      simp only [Option.some.injEq, Prod.mk.injEq] at h
      simp [h.2]
  | case3 a b c d rest ih =>
      simp only [Option.bind_eq_bind,
        Option.bind_eq_some_iff, Option.some.injEq,
        Prod.mk.injEq, Prod.exists] at h
      obtain ⟨_, _, codes', rest', ht, _, rfl⟩ := h
      have := ih ht
      simp only [List.length_cons]
      omega
  | case4 c rest _ ih =>
      simp only [Option.bind_eq_bind,
        Option.bind_eq_some_iff, Option.some.injEq,
        Prod.mk.injEq, Prod.exists] at h
      obtain ⟨_, _, codes', rest', ht, _, rfl⟩ := h
      have := ih ht
      simp only [List.length_cons]
      omega
  | case5 => simp at h
  | case6 c rest _ _ _ _ ih =>
      simp only [Option.bind_eq_bind,
        Option.bind_eq_some_iff, Option.some.injEq,
        Prod.mk.injEq, Prod.exists] at h
      obtain ⟨codes', rest', ht, _, rfl⟩ := h
      have := ih ht
      simp only [List.length_cons]
      omega

------------------------------------------------------------
-- Characters
------------------------------------------------------------

/- The first half of a character of two code units. -/
def isFirstHalf
    (code : Nat) : Bool :=
  0xD800 ≤ code && code < 0xDC00

/- The second half of a character of two code units. -/
def isSecondHalf
    (code : Nat) : Bool :=
  0xDC00 ≤ code && code < 0xE000

/- The character that two halves make up. -/
def joinHalves
    (first second : Nat) : Char :=
  Char.ofNat
    (0x10000 + (first - 0xD800) * 0x400
      + (second - 0xDC00))

/-
  The characters that codes stand for. Half of a character
  without the other half stands for none.
-/
def ofCodes? : List Nat → Option (List Char)
  | [] => some []
  | [code] =>
      if isFirstHalf code || isSecondHalf code then none
      else some [Char.ofNat code]
  | code :: next :: rest =>
      if isFirstHalf code then
        if isSecondHalf next then
          (ofCodes? rest).map (joinHalves code next :: ·)
        else none
      else if isSecondHalf code then none
      else (ofCodes? (next :: rest)).map (Char.ofNat code :: ·)

end Quoted

end Json

end Spreadsheet
