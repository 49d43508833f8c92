import Spreadsheet.Formula.Operator
import Spreadsheet.Number.Numeral
import Spreadsheet.Number.Style

/-
  This file defines the tokens of formulas and how one token
  is taken off the front of a text.

  Key definitions include:
    * `Token`
    * `Token.description`
    * `Token.isReferenceShape`
    * `Token.take?`
-/

namespace Spreadsheet

------------------------------------------------------------
-- Tokens
------------------------------------------------------------

inductive Token where
  | number (x : Float)
  | text (s : String)
  | boolean (b : Bool)
  /- A name with the shape of an address, in upper case. -/
  | reference (name : String)
  /- Any other name, in upper case. -/
  | identifier (name : String)
  | operator (op : BinaryOperator)
  | colon
  | comma
  | leftParenthesis
  | rightParenthesis
  | endOfInput
deriving DecidableEq, Inhabited

namespace Token

/-
  Numbers in messages are written in full, however large or
  small they are.
-/
def messageNumberStyle : NumberStyle where
  isPlain _ := true
  pointZero := false
  tie := .away

def messageNumber
    (x : Float) : String :=
  if x.isNaN then "NaN"
  else if x.isInf then if 0 < x then "inf" else "-inf"
  else if x == 0 then
    if x.toBits == 0 then "0" else "-0"
  else
    String.ofList
      (NumberStyle.sign x ++ messageNumberStyle.magnitude x)

/- The token as messages name it. -/
def description : Token → String
  | number x => "number " ++ messageNumber x
  | text s => "string \"" ++ s ++ "\""
  | boolean b => if b then "TRUE" else "FALSE"
  | reference name => "reference " ++ name
  | identifier name => "identifier " ++ name
  | operator op => "operator " ++ op.symbol
  | colon => "':'"
  | comma => "','"
  | leftParenthesis => "'('"
  | rightParenthesis => "')'"
  | endOfInput => "end of input"

------------------------------------------------------------
-- Names
------------------------------------------------------------

/- Characters a name may start with. -/
def startsName
    (c : Char) : Bool :=
  c.isAlpha || c == '_' || c == '$'

/- Characters a name may go on with. -/
def continuesName
    (c : Char) : Bool :=
  startsName c || c.isDigit

/- Drop one `$` off the front, if there is one. -/
def dropMarker :
    List Char → List Char
  | '$' :: rest => rest
  | cs => cs

/-
  Whether a name has the shape of an address: letters and
  digits, each with an optional `$` in front.
-/
def isReferenceShape
    (cs : List Char) : Bool :=
  let cs := dropMarker cs
  let digits := dropMarker (cs.dropWhile Char.isAlpha)
  !(cs.takeWhile Char.isAlpha).isEmpty
    && !digits.isEmpty && digits.all Char.isDigit

/- The token of a name. Case does not matter. -/
def ofName
    (cs : List Char) : Token :=
  let upper := cs.map Char.toUpper
  if isReferenceShape upper then
    reference (String.ofList upper)
  else if upper = "TRUE".toList then boolean true
  else if upper = "FALSE".toList then boolean false
  else identifier (String.ofList upper)

------------------------------------------------------------
-- Quoted Text
------------------------------------------------------------

/-
  Take the rest of a quoted text off the front. A backslash
  stands for itself unless a quote follows, and a missing
  closing quote ends the text with the input.
-/
def takeText :
    List Char → List Char × List Char
  | [] => ([], [])
  | '"' :: rest => ([], rest)
  | '\\' :: '"' :: rest =>
      let (s, rest) := takeText rest
      ('"' :: s, rest)
  | c :: rest =>
      let (s, rest) := takeText rest
      (c :: s, rest)

theorem length_takeText
    (cs : List Char) :
    (takeText cs).2.length ≤ cs.length := by
  fun_induction takeText cs <;> simp_all <;> omega

------------------------------------------------------------
-- Numbers
------------------------------------------------------------

/- Whether a number starts with `c`, given what follows. -/
def startsNumber
    (c : Char)
    (rest : List Char) : Bool :=
  c.isDigit || (c == '.' && rest.head?.any Char.isDigit)

theorem length_dropWhile_le
    (p : Char → Bool)
    (cs : List Char) :
    (cs.dropWhile p).length ≤ cs.length :=
  (List.dropWhile_suffix p).length_le

theorem length_takeDigits
    {c : Char}
    {rest : List Char}
    (h : startsNumber c rest = true) :
    (DecimalLiteral.takeDigits (c :: rest)).2.length
      ≤ rest.length := by
  have hle := length_dropWhile_le Char.isDigit
  by_cases hc : c.isDigit = true
  · simp only [DecimalLiteral.takeDigits,
      List.dropWhile_cons, hc, ↓reduceIte]
    split
    · next tail heq =>
        have h1 := hle rest
        have h2 := hle tail
        simp only [heq, List.length_cons] at h1
        simp only
        omega
    · exact hle rest
  · have hdot : c = '.' := by
      simp only [startsNumber, hc] at h
      simp_all
    subst hdot
    simpa [DecimalLiteral.takeDigits] using hle rest

------------------------------------------------------------
-- Taking One Token
------------------------------------------------------------

def punctuation? : Char → Option Token
  | '(' => some leftParenthesis
  | ')' => some rightParenthesis
  | ',' => some comma
  | ':' => some colon
  | _ => none

/-
  Take a token off the front of a text that starts with `c`.
  Numbers have at most one point and no exponent.
-/
def take?
    (c : Char)
    (rest : List Char) : Option (Token × List Char) :=
  match punctuation? c with
  | some token => some (token, rest)
  | none =>
      if c = '"' then
        let (s, rest) := takeText rest
        some (text (String.ofList s), rest)
      else if startsNumber c rest then
        let ((whole, fraction), rest) :=
          DecimalLiteral.takeDigits (c :: rest)
        some
          (number
            (DecimalLiteral.value ⟨whole, fraction, 0⟩),
            rest)
      else
        match BinaryOperator.take? (c :: rest) with
        | some (op, rest) => some (operator op, rest)
        | none =>
            if startsName c then
              some
                (ofName
                  (c :: rest.takeWhile continuesName),
                  rest.dropWhile continuesName)
            else none

/- Taking a token takes at least one character. -/
theorem length_of_take?
    {c : Char}
    {rest after : List Char}
    {token : Token}
    (h : take? c rest = some (token, after)) :
    after.length ≤ rest.length := by
  unfold take? at h
  split at h
  · simp only [Option.some.injEq, Prod.mk.injEq] at h
    simp [h.2]
  · split at h
    · simp only [Option.some.injEq, Prod.mk.injEq] at h
      simpa [← h.2] using length_takeText rest
    · split at h
      · next hn =>
          simp only [Option.some.injEq,
            Prod.mk.injEq] at h
          simpa [← h.2] using length_takeDigits hn
      · split at h
        · next ho =>
            have hl := BinaryOperator.length_of_take? ho
            simp only [Option.some.injEq,
              Prod.mk.injEq] at h
            simp only [List.length_cons, h.2] at hl
            omega
        · split at h
          · simp only [Option.some.injEq,
              Prod.mk.injEq] at h
            simpa [← h.2] using
              length_dropWhile_le continuesName rest
          · simp at h

end Token

end Spreadsheet
