import Spreadsheet.Json.Numeral
import Spreadsheet.Json.Quoted

/-
  This file defines the tokens of JSON and how a text is
  divided into them.

  Key definitions include:
    * `Json.Token`
    * `Json.Token.take?`
    * `Json.tokens?`
-/

namespace Spreadsheet

namespace Json

/-
  A token. Text may be quoted correctly and still stand for
  no characters.
-/
inductive Token where
  | beginList
  | endList
  | beginObject
  | endObject
  | colon
  | comma
  | text (s : Option String)
  | plain (value : Json)

namespace Token

/- Blanks between tokens. -/
def isBlank
    (c : Char) : Bool :=
  c == ' ' || c == '\t' || c == '\n' || c == '\r'

def punctuation? : Char → Option Token
  | '[' => some beginList
  | ']' => some endList
  | '\x7b' => some beginObject
  | '\x7d' => some endObject
  | ':' => some colon
  | ',' => some comma
  | _ => none

/- Take a word off the front of a text. -/
def takeWord?
    (cs : List Char) : Option (Token × List Char) :=
  if "null".toList.isPrefixOf cs then
    some (plain null, cs.drop 4)
  else if "true".toList.isPrefixOf cs then
    some (plain (boolean true), cs.drop 4)
  else if "false".toList.isPrefixOf cs then
    some (plain (boolean false), cs.drop 5)
  else none

/- Take a token off the front of a text without blanks. -/
def take? :
    List Char → Option (Token × List Char)
  | [] => none
  | c :: rest =>
      match punctuation? c with
      | some token => some (token, rest)
      | none =>
          if c = '"' then
            (Quoted.takeCodes? rest).map fun p =>
              (text ((Quoted.ofCodes? p.1).map String.ofList),
                p.2)
          else if c = '-' ∨ c.isDigit then
            (Numeral.take? (c :: rest)).map fun p =>
              (plain p.1.value, p.2)
          else takeWord? (c :: rest)

theorem length_takeWord?
    {c : Char}
    {rest after : List Char}
    {token : Token}
    (h : takeWord? (c :: rest) = some (token, after)) :
    after.length ≤ rest.length := by
  unfold takeWord? at h
  repeat' split at h
  all_goals
    simp only [Option.some.injEq, Prod.mk.injEq,
      reduceCtorEq] at h
  all_goals
    rw [← h.2, List.length_drop, List.length_cons]
    omega

/- Taking a token takes at least one character. -/
theorem length_take?
    {cs after : List Char}
    {token : Token}
    (h : take? cs = some (token, after)) :
    after.length < cs.length := by
  unfold take? at h
  split at h
  · simp at h
  · next c rest =>
      split at h
      · simp only [Option.some.injEq, Prod.mk.injEq] at h
        simp [h.2]
      · split at h
        · simp only [Option.map_eq_some_iff,
            Prod.mk.injEq, Prod.exists] at h
          obtain ⟨codes, rest', ht, _, rfl⟩ := h
          have := Quoted.length_takeCodes? ht
          simp only [List.length_cons]
          omega
        · split at h
          · simp only [Option.map_eq_some_iff,
              Prod.mk.injEq, Prod.exists] at h
            obtain ⟨d, rest', ht, _, rfl⟩ := h
            exact Numeral.length_take? ht
          · have := length_takeWord? h
            simp only [List.length_cons]
            omega

end Token

/- The tokens of a text, if all of it is tokens. -/
def tokens?
    (cs : List Char) : Option (List Token) :=
  match _h : cs.dropWhile Token.isBlank with
  | [] => some []
  | c :: rest =>
      match _ht : Token.take? (c :: rest) with
      | none => none
      | some (token, after) =>
          (tokens? after).map (token :: ·)
termination_by cs.length
decreasing_by
  have h1 :=
    (List.dropWhile_suffix (l := cs)
      Token.isBlank).length_le
  have h2 := Token.length_take? _ht
  rw [_h] at h1
  omega

end Json

end Spreadsheet
