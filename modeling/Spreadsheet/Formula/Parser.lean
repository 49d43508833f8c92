import Spreadsheet.Formula.Expr
import Spreadsheet.Formula.Lexer

/-
  This file defines how tokens are read as an expression.
  Operators are read by precedence, and a minus sign binds
  to the operand right after it before any operator does.

  A token is only taken if the one after it can be read, so
  a fault of the text shows as soon as a reader gets to it
  and not before.

  Key definitions include:
    * `Parser.expression`
    * `Parser.operators`
    * `Parser.operand`
    * `Parser.arguments`
    * `parseFormula`
-/

namespace Spreadsheet

namespace Parser

------------------------------------------------------------
-- Results
------------------------------------------------------------

/-
  An expression and the tokens after it, of which there are
  fewer than `n`.
-/
structure Parsed (n : Nat) where
  expr : Expr
  rest : Tokens
  fewer : rest.length < n

/-
  A list of arguments and the tokens after it, of which
  there are fewer than `n`.
-/
structure ParsedList (n : Nat) where
  args : List Expr
  rest : Tokens
  fewer : rest.length < n

/- The address that a name with the shape of one stands for. -/
def address
    (name : String) : Except FormulaError Address :=
  match Address.parse name with
  | .ok a => .ok a
  | .error fault => .error (.malformed (.address fault))

/- Take a closing parenthesis off the front. -/
def closing
    (tokens : Tokens) :
    Except FormulaError
      { rest : Tokens // rest.length < tokens.length } :=
  match tokens with
  | .next .rightParenthesis rest =>
      match rest.fault? with
      | some fault => .error (.lexical fault)
      | none => .ok ⟨rest, Nat.lt_succ_self _⟩
  | _ => .error (.malformed .missingParenthesis)

/- What stands after an argument of a call. -/
inductive Separator where
  /- A comma, so that an argument follows. -/
  | comma
  /- The closing parenthesis. -/
  | last

/- Take what stands after an argument off the front. -/
def separator
    (tokens : Tokens) :
    Except FormulaError
      (Separator ×
        { rest : Tokens // rest.length < tokens.length }) :=
  match tokens with
  | .next .comma rest =>
      match rest.fault? with
      | some fault => .error (.lexical fault)
      | none => .ok (.comma, ⟨rest, Nat.lt_succ_self _⟩)
  | .next .rightParenthesis rest =>
      match rest.fault? with
      | some fault => .error (.lexical fault)
      | none => .ok (.last, ⟨rest, Nat.lt_succ_self _⟩)
  | tokens =>
      .error (.malformed
        (.expected .rightParenthesis tokens.current))

/-
  Read what follows a reference: a colon and a second
  reference, or nothing that belongs to it.
-/
def rangeAfter
    (first : Address)
    (tokens : Tokens) :
    Except FormulaError (Parsed (tokens.length + 1)) :=
  match tokens with
  | .next .colon (.stuck fault) => .error (.lexical fault)
  | .next .colon (.next token rest) =>
      match rest.fault? with
      | some fault => .error (.lexical fault)
      | none =>
          match token with
          | .reference name =>
              match address name with
              | .error e => .error e
              | .ok second =>
                  .ok ⟨.range first second, rest, by
                    simp only [Tokens.length]
                    omega⟩
          | _ => .error (.malformed .rangeEnd)
  | .next .colon .done => .error (.malformed .rangeEnd)
  | tokens => .ok ⟨.cell first, tokens, Nat.lt_succ_self _⟩

------------------------------------------------------------
-- Expressions
------------------------------------------------------------

mutual

/-
  Read an expression whose operators outside of parentheses
  have at least the given precedence.
-/
def expression
    (least : Nat)
    (tokens : Tokens) :
    Except FormulaError (Parsed tokens.length) :=
  match operand tokens with
  | .error e => .error e
  | .ok ⟨left, rest, h⟩ =>
      match operators least left rest with
      | .error e => .error e
      | .ok ⟨expr, after, h'⟩ =>
          .ok ⟨expr, after, by omega⟩
termination_by 4 * tokens.length + 1

/-
  Read operators with their right operands after a left
  operand, as long as they bind tightly enough.
-/
def operators
    (least : Nat)
    (left : Expr)
    (tokens : Tokens) :
    Except FormulaError (Parsed (tokens.length + 1)) :=
  match tokens with
  | .next (.operator op) rest =>
      if op.precedence < least then
        .ok ⟨left, .next (.operator op) rest,
          Nat.lt_succ_self _⟩
      else
        match rest.fault? with
        | some fault => .error (.lexical fault)
        | none =>
            match expression op.rightPrecedence rest with
            | .error e => .error e
            | .ok ⟨right, after, _⟩ =>
                match operators least
                    (.binary op left right) after with
                | .error e => .error e
                | .ok ⟨expr, last, _⟩ =>
                    .ok ⟨expr, last, by
                      simp only [Tokens.length]
                      omega⟩
  | tokens => .ok ⟨left, tokens, Nat.lt_succ_self _⟩
termination_by 4 * tokens.length

/-
  Read an operand: a literal, a reference or a range, a
  call, an expression in parentheses, or a minus sign and
  the operand that it negates.
-/
def operand
    (tokens : Tokens) :
    Except FormulaError (Parsed tokens.length) :=
  match tokens with
  | .done =>
      .error (.malformed (.unexpectedToken .endOfInput))
  | .stuck fault => .error (.lexical fault)
  | .next token rest =>
      match rest.fault? with
      | some fault => .error (.lexical fault)
      | none =>
          match token with
          | .number x =>
              .ok ⟨.number x, rest, Nat.lt_succ_self _⟩
          | .text s =>
              .ok ⟨.text s, rest, Nat.lt_succ_self _⟩
          | .boolean b =>
              .ok ⟨.boolean b, rest, Nat.lt_succ_self _⟩
          | .reference name =>
              match address name with
              | .error e => .error e
              | .ok first => rangeAfter first rest
          | .identifier name =>
              match rest with
              | .next .leftParenthesis inner =>
                  match arguments inner with
                  | .error e => .error e
                  | .ok ⟨args, after, _⟩ =>
                      .ok ⟨.call name args, after, by
                        simp only [Tokens.length]
                        omega⟩
              | _ =>
                  .error (.malformed
                    (.unexpectedIdentifier name))
          | .leftParenthesis =>
              match expression 0 rest with
              | .error e => .error e
              | .ok ⟨expr, after, _⟩ =>
                  match closing after with
                  | .error e => .error e
                  | .ok ⟨last, _⟩ =>
                      .ok ⟨expr, last, by
                        simp only [Tokens.length]
                        omega⟩
          | .operator .subtract =>
              match operand rest with
              | .error e => .error e
              | .ok ⟨inner, after, _⟩ =>
                  .ok ⟨.negate inner, after, by
                    simp only [Tokens.length]
                    omega⟩
          | .operator op =>
              .error (.malformed (.unexpectedOperator op))
          | token =>
              .error (.malformed (.unexpectedToken token))
termination_by 4 * tokens.length

/-
  Read the arguments of a call after its opening parenthesis
  up to and with its closing one.
-/
def arguments
    (tokens : Tokens) :
    Except FormulaError (ParsedList (tokens.length + 1)) :=
  match tokens with
  | .stuck fault => .error (.lexical fault)
  | .next .rightParenthesis rest =>
      match rest.fault? with
      | some fault => .error (.lexical fault)
      | none =>
          .ok ⟨[], rest, by simp only [Tokens.length]; omega⟩
  | tokens =>
      match moreArguments tokens with
      | .error e => .error e
      | .ok ⟨args, rest, _⟩ => .ok ⟨args, rest, by omega⟩
termination_by 4 * tokens.length + 3

/-
  Read at least one argument and all that follow it, with a
  comma before each, up to the closing parenthesis.
-/
def moreArguments
    (tokens : Tokens) :
    Except FormulaError (ParsedList tokens.length) :=
  match expression 0 tokens with
  | .error e => .error e
  | .ok ⟨arg, after, _⟩ =>
      match separator after with
      | .error e => .error e
      | .ok (.last, ⟨rest, _⟩) =>
          .ok ⟨[arg], rest, by omega⟩
      | .ok (.comma, ⟨rest, _⟩) =>
          match moreArguments rest with
          | .error e => .error e
          | .ok ⟨args, last, _⟩ =>
              .ok ⟨arg :: args, last, by omega⟩
termination_by 4 * tokens.length + 2

end

end Parser

------------------------------------------------------------
-- Formulas
------------------------------------------------------------

/- The text of a formula after an optional leading `=`. -/
def formulaBody
    (source : String) : List Char :=
  match source.toList with
  | '=' :: body => body
  | body => body

/-
  Read tokens that are all of a formula. No tokens at all
  are the number zero.
-/
def parseTokens
    (tokens : Tokens) : Except FormulaError Expr :=
  match tokens with
  | .done => .ok (.number 0)
  | .stuck fault => .error (.lexical fault)
  | tokens =>
      match Parser.expression 0 tokens with
      | .error e => .error e
      | .ok parsed =>
          match parsed.rest with
          | .done => .ok parsed.expr
          | _ => .error (.malformed .trailingInput)

/- Read the source of a formula. -/
def parseFormula
    (source : String) : Except FormulaError Expr :=
  parseTokens (Tokens.ofChars (formulaBody source))

end Spreadsheet
