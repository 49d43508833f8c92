import Spreadsheet.Address.Notation
import Spreadsheet.ErrorCode
import Spreadsheet.Formula.Token

/-
  This file defines what can go wrong when a formula is read
  or evaluated, the text of each error, and the code it is
  reported under.

  Key definitions include:
    * `LexicalFault`
    * `ParseFault`
    * `FormulaError`
    * `FormulaError.message`
    * `FormulaError.code`
-/

namespace Spreadsheet

------------------------------------------------------------
-- Faults Of The Text
------------------------------------------------------------

/-
  A character with which no token starts, and the number of
  characters before it.
-/
structure LexicalFault where
  char : Char
  position : Nat
deriving DecidableEq

/- Why tokens are not the tokens of a formula. -/
inductive ParseFault where
  | trailingInput
  | expected (wanted got : Token)
  | unexpectedIdentifier (name : String)
  | unexpectedOperator (op : BinaryOperator)
  | unexpectedToken (token : Token)
  | rangeEnd
  | missingParenthesis
  | address (fault : Address.Fault)
deriving DecidableEq

def ParseFault.detail : ParseFault → String
  | .trailingInput => "Unexpected trailing input"
  | .expected wanted got =>
      "Expected " ++ wanted.description ++ ", got "
        ++ got.description
  | .unexpectedIdentifier name =>
      "Unexpected identifier " ++ name
  | .unexpectedOperator op =>
      "Unexpected operator " ++ op.symbol
  | .unexpectedToken token =>
      "Unexpected " ++ token.description
  | .rangeEnd => "Range end must be cell reference"
  | .missingParenthesis => "Missing )"
  | .address fault => fault.message

------------------------------------------------------------
-- Formula Errors
------------------------------------------------------------

inductive FormulaError where
  | lexical (fault : LexicalFault)
  | malformed (fault : ParseFault)
  | unknownFunction (name : String)
  /- A reference to a position without a cell. -/
  | badReference (target : Address)
  /- A reference to a cell that is being evaluated. -/
  | circular (target : Address)
  | divisionByZero
  /- The error that a referenced cell has. -/
  | propagated (code : ErrorCode) (message : String)
deriving DecidableEq

namespace FormulaError

def message : FormulaError → String
  | lexical fault =>
      "Unexpected character '" ++ fault.char.toString
        ++ "' at " ++ toString fault.position
  | malformed fault => "Parse error: " ++ fault.detail
  | unknownFunction name => "Unknown function: " ++ name
  | badReference target => "Bad reference: " ++ target.text
  | circular target =>
      "Circular reference: " ++ target.text
  | divisionByZero => "Division by zero"
  | propagated _ message => message

/- The code under which the error is reported. -/
def code : FormulaError → ErrorCode
  | lexical _ => .parse
  | malformed _ => .parse
  | unknownFunction _ => .parse
  | badReference _ => .reference
  | circular _ => .cycle
  | divisionByZero => .divisionByZero
  | propagated code _ => code

end FormulaError

end Spreadsheet
