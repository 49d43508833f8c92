import Spreadsheet.Formula.Operator
import Spreadsheet.Range

/-
  This file defines formula expressions and the cells that
  an expression names.

  Key definitions include:
    * `Expr`
    * `Expr.endpoints`
    * `Expr.precedents`
-/

namespace Spreadsheet

/-
  A formula. References keep their markers, and the corners
  of a range stand in the order in which they were written.
-/
inductive Expr where
  | number (x : Float)
  | text (s : String)
  | boolean (b : Bool)
  | cell (a : Address)
  | range (first second : Address)
  | binary (op : BinaryOperator) (left right : Expr)
  | negate (operand : Expr)
  | call (name : String) (args : List Expr)

namespace Expr

------------------------------------------------------------
-- Named Cells
------------------------------------------------------------

mutual

/-
  The cells an expression names, from left to right and
  without markers: the target of each reference and both
  written corners of each range, but not the cells between.
-/
def endpoints : Expr → List Address
  | number _ => []
  | text _ => []
  | boolean _ => []
  | cell a => [a.relative]
  | range first second =>
      [first.relative, second.relative]
  | binary _ left right =>
      left.endpoints ++ right.endpoints
  | negate operand => operand.endpoints
  | call _ args => endpointsOfAll args

def endpointsOfAll : List Expr → List Address
  | [] => []
  | e :: rest => e.endpoints ++ endpointsOfAll rest

end

/-
  The cells that an expression is ordered after: those it
  names, each once, where it is first named.
-/
def precedents
    (e : Expr) : List Address :=
  e.endpoints.eraseDups

end Expr

end Spreadsheet
