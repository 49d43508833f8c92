/-
  This file defines the codes under which failed cells are
  reported.

  Key definitions include:
    * `ErrorCode`
    * `ErrorCode.name`
    * `ErrorCode.read`
-/

namespace Spreadsheet

/- What kept a cell from having a value. -/
inductive ErrorCode where
  /- The formula has no meaning as it is written. -/
  | parse
  /- A reference to a position without a cell. -/
  | reference
  /- A reference back into the cells being evaluated. -/
  | cycle
  /- A division by what counts as zero. -/
  | divisionByZero
deriving DecidableEq

namespace ErrorCode

/- The code as it is written in results and sheets. -/
def name : ErrorCode → String
  | parse => "PARSE"
  | reference => "REF"
  | cycle => "CYCLE"
  | divisionByZero => "DIV0"

instance : ToString ErrorCode :=
  ⟨name⟩

/- A text that names no code. -/
structure Unknown where
  text : String
deriving DecidableEq

def Unknown.message
    (u : Unknown) : String :=
  "unknown error code '" ++ u.text ++ "'"

/- The code with a given name. -/
def read
    (text : String) : Except Unknown ErrorCode :=
  match text with
  | "PARSE" => .ok parse
  | "REF" => .ok reference
  | "CYCLE" => .ok cycle
  | "DIV0" => .ok divisionByZero
  | text => .error ⟨text⟩

end ErrorCode

end Spreadsheet
