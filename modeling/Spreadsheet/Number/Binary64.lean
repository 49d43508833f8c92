/-
  This file relates doubles to exact numbers: which double
  is nearest to a quotient of natural numbers, and which
  multiple of a power of two a double is.

  Key definitions include:
    * `Binary64.nearestQuotient`
    * `Binary64.ofRatio`
    * `Binary64.roundNat`
    * `Binary64.Exact`
    * `Binary64.exact`
-/

namespace Spreadsheet

namespace Binary64

------------------------------------------------------------
-- Rounding To Integers
------------------------------------------------------------

/-
  The integer nearest to a quotient. A quotient halfway
  between two integers goes to the even one.
-/
def nearestQuotient
    (num den : Nat) : Nat :=
  let floor := num / den
  let twice := 2 * (num % den)
  if twice < den then floor
  else if den < twice then floor + 1
  else floor + floor % 2

/- A significand has this many bits. -/
def precision : Nat := 53

/-
  The integer of at most fifty-three significant bits that
  is nearest to a natural number, ties going to the even
  significand.
-/
def roundNat
    (n : Nat) : Nat :=
  let unit := Nat.pow 2 (n.log2 + 1 - precision)
  nearestQuotient n unit * unit

------------------------------------------------------------
-- Rounding To Doubles
------------------------------------------------------------

/- The exponent of the unit of the smallest doubles. -/
def leastExponent : Int := -1074

/- Numerator and denominator of a quotient over `2 ^ q`. -/
def scaled
    (num den : Nat)
    (q : Int) : Nat × Nat :=
  (num * Nat.pow 2 (-q).toNat, den * Nat.pow 2 q.toNat)

/-
  The exponent of the unit in which a quotient is rounded:
  the quotient is less than `2 ^ 53` units, and it is at
  least half of that unless the unit is the smallest one.
-/
def unitExponent
    (num den : Nat) : Int :=
  let e := (num.log2 : Int) - (den.log2 : Int)
  let q := max (e - precision) leastExponent
  let (n, d) := scaled num den q
  if Nat.pow 2 precision ≤ n / d then q + 1 else q

/- The bits of positive infinity. -/
def infinityBits : Nat :=
  2047 * Nat.pow 2 52

/-
  The bits of the non-negative double `m * 2 ^ q`. A
  significand that was rounded up to `2 ^ 53` carries into
  the exponent, and what is too large becomes infinity.
-/
def bitsOf
    (m : Nat)
    (q : Int) : Nat :=
  min ((q - leastExponent).toNat * Nat.pow 2 52 + m)
    infinityBits

/- The double nearest to a quotient, ties to even. -/
def ofRatio
    (num den : Nat) : Float :=
  if num = 0 then 0
  else
    let q := unitExponent num den
    let (n, d) := scaled num den q
    Float.ofBits (bitsOf (nearestQuotient n d) q).toUInt64

/- The double nearest to a natural number, ties to even. -/
def ofNat
    (n : Nat) : Float :=
  ofRatio n 1

def infinity : Float :=
  Float.ofBits infinityBits.toUInt64

/- A double with its sign turned if `negative` is set. -/
def signed
    (negative : Bool)
    (x : Float) : Float :=
  if negative then -x else x

------------------------------------------------------------
-- Exact Values
------------------------------------------------------------

/-
  The magnitude of a finite double as `mantissa` units of
  `2 ^ exponent`. Below a power of two the doubles lie twice
  as close as above it, which `closeBelow` says.
-/
structure Exact where
  mantissa : Nat
  exponent : Int
  closeBelow : Bool
deriving DecidableEq

/- The exact magnitude of a finite double. -/
def exact
    (x : Float) : Exact :=
  let bits := x.toBits.toNat
  let field := bits / Nat.pow 2 52 % Nat.pow 2 11
  let fraction := bits % Nat.pow 2 52
  if field = 0 then ⟨fraction, leastExponent, false⟩
  else
    ⟨Nat.pow 2 52 + fraction,
      leastExponent + (field - 1 : Nat),
      fraction == 0 && 1 < field⟩

end Binary64

end Spreadsheet
