import Spreadsheet.Json.Reader
import Spreadsheet.Json.Writer
import Spreadsheet.Timestamp

/-
  This file defines what the files of sheets are made of:
  texts of JSON values, and points in time within them. A
  format says how both are written and read. All that is
  built on one takes it as a parameter, and the program
  itself runs with the standard format.

  Key definitions include:
    * `FileFormat`
    * `FileFormat.standard`
-/

namespace Spreadsheet

/-
  A way to write JSON values and points in time as text and
  to read them again.
-/
structure FileFormat where
  readJson? : String → Option Json
  writeJson : Json → String
  readTime? : String → Option Timestamp
  writeTime : Timestamp → String

/- Values are indented, and times are in UTC. -/
def FileFormat.standard : FileFormat where
  readJson? := Json.read?
  writeJson := Json.written
  readTime? := Timestamp.read?
  writeTime := Timestamp.text

end Spreadsheet
