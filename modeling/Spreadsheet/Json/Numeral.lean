import Spreadsheet.Json.Basic
import Spreadsheet.Text.Digit

/-
  This file defines how JSON writes numbers, and the values
  that are read for them. A number keeps the leading digits
  that fit into sixty-four bits and is then scaled by powers
  of ten in double arithmetic.

  Key definitions include:
    * `Json.Numeral`
    * `Json.Numeral.take?`
    * `Json.Numeral.scale?`
    * `Json.Numeral.value`
-/

namespace Spreadsheet

namespace Json

/-
  A number as it is written: the digits before and after the
  point, and the exponent, if there is one.
-/
structure Numeral where
  negative : Bool
  whole : List Char
  fraction : List Char
  exponent : Option Int
deriving DecidableEq

namespace Numeral

------------------------------------------------------------
-- Written Form
------------------------------------------------------------

/- Take at least one digit off the front. -/
def takeDigits?
    (cs : List Char) : Option (List Char × List Char) :=
  let digits := cs.takeWhile Char.isDigit
  if digits.isEmpty then none
  else some (digits, cs.dropWhile Char.isDigit)

/- Take digits that have no zero in front. -/
def takeWhole?
    (cs : List Char) : Option (List Char × List Char) :=
  match takeDigits? cs with
  | some ('0' :: _ :: _, _) => none
  | taken => taken

/- Take a point and the digits after it, if there is one. -/
def takeFraction? :
    List Char → Option (List Char × List Char)
  | '.' :: rest => takeDigits? rest
  | cs => some ([], cs)

/- Take a sign off the front and tell if it is a minus. -/
def takeSign :
    List Char → Bool × List Char
  | '-' :: rest => (true, rest)
  | '+' :: rest => (false, rest)
  | cs => (false, cs)

/- Take an exponent, if there is one. -/
def takeExponent? :
    List Char → Option (Option Int × List Char)
  | c :: rest =>
      if c == 'e' || c == 'E' then
        let (negative, rest) := takeSign rest
        (takeDigits? rest).map fun (digits, after) =>
          let n : Int := Digit.decimal digits
          (some (if negative then -n else n), after)
      else some (none, c :: rest)
  | [] => some (none, [])

/- Take a minus sign off the front, if there is one. -/
def takeMinus :
    List Char → Bool × List Char
  | '-' :: rest => (true, rest)
  | cs => (false, cs)

/- Take a number off the front of a text. -/
def take?
    (cs : List Char) : Option (Numeral × List Char) := do
  let (negative, cs) := takeMinus cs
  let (whole, cs) ← takeWhole? cs
  let (fraction, cs) ← takeFraction? cs
  let (exponent, cs) ← takeExponent? cs
  some (⟨negative, whole, fraction, exponent⟩, cs)

/- Taking digits takes at least one character. -/
theorem length_takeDigits?
    {cs digits after : List Char}
    (h : takeDigits? cs = some (digits, after)) :
    after.length < cs.length := by
  simp only [takeDigits?] at h
  split at h
  · simp at h
  · next hne =>
      simp only [Option.some.injEq, Prod.mk.injEq] at h
      have hsplit :=
        congrArg List.length
          (List.takeWhile_append_dropWhile
            (p := Char.isDigit) (l := cs))
      have hpos : 0 < (cs.takeWhile Char.isDigit).length :=
        List.length_pos_iff.mpr (by simpa using hne)
      rw [List.length_append] at hsplit
      rw [← h.2]
      omega

theorem length_takeWhole?
    {cs digits after : List Char}
    (h : takeWhole? cs = some (digits, after)) :
    after.length < cs.length := by
  unfold takeWhole? at h
  split at h
  · simp at h
  · exact length_takeDigits? h

theorem length_takeFraction?
    {cs digits after : List Char}
    (h : takeFraction? cs = some (digits, after)) :
    after.length ≤ cs.length := by
  unfold takeFraction? at h
  split at h
  · have := length_takeDigits? h
    simp only [List.length_cons]
    omega
  · simp only [Option.some.injEq, Prod.mk.injEq] at h
    simp [h.2]

theorem length_takeSign
    (cs : List Char) :
    (takeSign cs).2.length ≤ cs.length := by
  unfold takeSign
  split <;> simp

theorem length_takeExponent?
    {cs after : List Char}
    {exponent : Option Int}
    (h : takeExponent? cs = some (exponent, after)) :
    after.length ≤ cs.length := by
  unfold takeExponent? at h
  split at h
  · next c rest =>
      split at h
      · simp only [Option.map_eq_some_iff,
          Prod.mk.injEq, Prod.exists] at h
        obtain ⟨digits, rest', ht, _, rfl⟩ := h
        have h1 := length_takeDigits? ht
        have h2 := length_takeSign rest
        simp only [List.length_cons]
        omega
      · simp only [Option.some.injEq, Prod.mk.injEq] at h
        simp [← h.2]
  · simp only [Option.some.injEq, Prod.mk.injEq] at h
    simp [← h.2]

theorem length_takeMinus
    (cs : List Char) :
    (takeMinus cs).2.length ≤ cs.length := by
  unfold takeMinus
  split <;> simp

/- Taking a number takes at least one character. -/
theorem length_take?
    {cs after : List Char}
    {d : Numeral}
    (h : take? cs = some (d, after)) :
    after.length < cs.length := by
  simp only [take?, Option.bind_eq_bind,
    Option.bind_eq_some_iff, Prod.exists] at h
  obtain ⟨whole, r₁, h₁, fraction, r₂, h₂, exponent, r₃,
    h₃, h⟩ := h
  simp only [Option.some.injEq, Prod.mk.injEq] at h
  have := length_takeMinus cs
  have := length_takeWhole? h₁
  have := length_takeFraction? h₂
  have := length_takeExponent? h₃
  rw [← h.2]
  omega

------------------------------------------------------------
-- Significands
------------------------------------------------------------

/- Significands and natural numbers are less than this. -/
def bound : Nat := UInt64.size

/-
  Append digits to a significand as long as it stays below
  the bound, and give back those that were not appended.
-/
def appendDigits
    (n : Nat) : List Char → Nat × List Char
  | [] => (n, [])
  | c :: rest =>
      let next := n * 10 + Digit.decimal [c]
      if next < bound then appendDigits next rest
      else (n, c :: rest)

/-
  The significand of a number and the power of ten that it
  is multiplied with. Digits of the whole part that do not
  fit still count in the power.
-/
def significand
    (d : Numeral) : Nat × Int :=
  let (whole, dropped) := appendDigits 0 d.whole
  let (all, unused) := appendDigits whole d.fraction
  let kept := d.fraction.length - unused.length
  (all, d.exponent.getD 0 + dropped.length - kept)

------------------------------------------------------------
-- Scaling
------------------------------------------------------------

/- The largest power of ten that is a finite double. -/
def largestPower : Nat := 308

def powerOfTen
    (n : Nat) : Float :=
  Binary64.ofNat (Nat.pow 10 n)

/-
  Divide by a power of ten, with several divisions if the
  power is beyond the range of doubles.
-/
def divide
    (x : Float)
    (n : Nat) : Float :=
  if n ≤ largestPower then x / powerOfTen n
  else if x == 0 then x
  else
    divide (x / powerOfTen largestPower) (n - largestPower)
termination_by n
decreasing_by
  simp only [largestPower] at *
  omega

/-
  Multiply with a power of ten. There is no result if it is
  beyond the range of doubles.
-/
def scale?
    (x : Float)
    (exponent : Int) : Option Float :=
  if exponent < 0 then some (divide x exponent.natAbs)
  else if exponent ≤ largestPower then
    let y := x * powerOfTen exponent.toNat
    if y.isInf then none else some y
  else if x == 0 then some x
  else none

------------------------------------------------------------
-- Values
------------------------------------------------------------

/-
  The value of a number. Only a number without a sign, a
  point and an exponent is a natural number, and only below
  the bound.
-/
def value
    (d : Numeral) : Json :=
  let (n, exponent) := d.significand
  let isWhole :=
    d.fraction.isEmpty && d.exponent.isNone
      && exponent == 0
  if isWhole && !d.negative then natural n
  else
    match scale? (Binary64.ofNat n) exponent with
    | some x => number (Binary64.signed d.negative x)
    | none => unreadable

end Numeral

end Json

end Spreadsheet
