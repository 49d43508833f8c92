import Spreadsheet.Formula.Error

/-
  This file defines how a text is read as tokens: one at a
  time with one token of look-ahead, as a stream that shows
  where reading stops, and as a list.

  Key definitions include:
    * `nextToken`
    * `Lexer`
    * `Lexer.next`
    * `Lexer.peek`
    * `Tokens`
    * `Tokens.ofChars`
    * `tokenize`
-/

namespace Spreadsheet

------------------------------------------------------------
-- One Token
------------------------------------------------------------

/-
  The first token of what is left of a text of `total`
  characters, and what is left after it. Blanks before the
  token are skipped even where no token starts after them.
-/
def nextToken
    (total : Nat)
    (cs : List Char) :
    Except LexicalFault Token × List Char :=
  match cs.dropWhile Blank.isBlank with
  | [] => (.ok .endOfInput, [])
  | c :: rest =>
      match Token.take? c rest with
      | some (token, after) => (.ok token, after)
      | none =>
          (.error ⟨c, total - (rest.length + 1)⟩, c :: rest)

------------------------------------------------------------
-- Reading With Look-Ahead
------------------------------------------------------------

/-
  A place in a text of `total` characters, and the token
  after it if that has been looked at.
-/
structure Lexer where
  total : Nat
  rest : List Char
  peeked : Option Token
deriving DecidableEq

namespace Lexer

/- The start of a text. -/
def ofChars
    (cs : List Char) : Lexer :=
  ⟨cs.length, cs, none⟩

/-
  Take the next token. At the end of the text this is the
  end of input, again and again.
-/
def next
    (lexer : Lexer) : Except LexicalFault Token × Lexer :=
  match lexer.peeked with
  | some token => (.ok token, { lexer with peeked := none })
  | none =>
      let (result, rest) := nextToken lexer.total lexer.rest
      (result, { lexer with rest := rest })

/- Look at the next token and leave it to be taken. -/
def peek
    (lexer : Lexer) : Except LexicalFault Token × Lexer :=
  match lexer.next with
  | (.ok token, after) =>
      (.ok token, { after with peeked := some token })
  | (.error fault, after) => (.error fault, after)

end Lexer

------------------------------------------------------------
-- Token Streams
------------------------------------------------------------

/-
  All tokens of a text up to its end or up to the first
  character with which no token starts.
-/
inductive Tokens where
  | done
  | stuck (fault : LexicalFault)
  | next (token : Token) (rest : Tokens)
deriving DecidableEq

namespace Tokens

/- The tokens of what is left of a text. -/
def ofRest
    (total : Nat)
    (cs : List Char) : Tokens :=
  match _h : cs.dropWhile Blank.isBlank with
  | [] => done
  | c :: rest =>
      match _ht : Token.take? c rest with
      | some (token, after) =>
          next token (ofRest total after)
      | none => stuck ⟨c, total - (rest.length + 1)⟩
termination_by cs.length
decreasing_by
  have h1 := Token.length_dropWhile_le Blank.isBlank cs
  have h2 := Token.length_of_take? _ht
  rw [_h] at h1
  simp only [List.length_cons] at h1
  omega

/- The tokens of a text. -/
def ofChars
    (cs : List Char) : Tokens :=
  ofRest cs.length cs

/- The number of tokens before the end. -/
@[simp]
def length : Tokens → Nat
  | done => 0
  | stuck _ => 0
  | next _ rest => rest.length + 1

/- The fault that the stream starts with, if it does. -/
def fault? : Tokens → Option LexicalFault
  | stuck fault => some fault
  | _ => none

/- The token a reader stands before. -/
def current : Tokens → Token
  | next token _ => token
  | _ => .endOfInput

/- All tokens with the end of input after them. -/
def toList : Tokens → Except LexicalFault (List Token)
  | done => .ok [.endOfInput]
  | stuck fault => .error fault
  | next token rest => rest.toList.map (token :: ·)

end Tokens

/-
  The tokens of a formula's text, the end of input after
  them.
-/
def tokenize
    (text : String) : Except LexicalFault (List Token) :=
  (Tokens.ofChars text.toList).toList

end Spreadsheet
