import Spreadsheet.FileFormat
import Spreadsheet.Sheet

/-
  This file defines how sheets are kept as JSON: an object
  with the cells by address, the number of rows and columns,
  the name and the time of the last change. A cell is an
  object whose kind says which other fields it has. What is
  written as an object may also be read from a list. How the
  JSON and the time are written as text is up to a format.

  Key definitions include:
    * `Value.ofJson?`, `Value.toJson`
    * `Cell.ofJson?`, `Cell.toJson`
    * `Sheet.ofJson?`, `Sheet.toJson`
    * `FileFormat.readSheet?`, `FileFormat.writeSheet`
-/

namespace Spreadsheet

------------------------------------------------------------
-- Values And Codes
------------------------------------------------------------

def Value.ofJson? : Json → Option Value
  | .null => some .empty
  | .boolean b => some (.boolean b)
  | .natural n => some (.number (Binary64.ofNat n))
  | .number x => some (.number x)
  | .text s => some (.text s)
  | _ => none

def Value.toJson : Value → Json
  | .empty => .null
  | .boolean b => .boolean b
  | .number x => .number x
  | .text s => .text s

/- The code with a given name, if there is one. -/
def ErrorCode.named?
    (name : String) : Option ErrorCode :=
  (ErrorCode.read name).toOption

/-
  An error code: its name, or an object whose only field has
  that name and holds nothing.
-/
def ErrorCode.ofJson? : Json → Option ErrorCode
  | .text name => named? name
  | .object [(name, .null)] => named? name
  | .object [(name, .object [])] => named? name
  | _ => none

def ErrorCode.toJson
    (code : ErrorCode) : Json :=
  .text code.name

------------------------------------------------------------
-- Cells
------------------------------------------------------------

namespace Cell

/-
  The cell of a kind, given a way to look up the fields that
  the kind has. The expression of a formula is not kept.
-/
def ofParts?
    (kind : String)
    (parts : List String → Option (List Json)) :
    Option Cell :=
  match kind with
  | "literal" =>
      match parts ["value"] with
      | some [value] => (Value.ofJson? value).map literal
      | _ => none
  | "formula" =>
      match parts ["src"] with
      | some [.text source] => some (ofSource source)
      | _ => none
  | "error" =>
      match parts ["code", "message"] with
      | some [code, .text message] =>
          (ErrorCode.ofJson? code).map fun code =>
            error code message
      | _ => none
  | _ => none

/- The sheet and its cells are two levels around a cell. -/
def deepest : Nat := 127 - 2

/-
  Read a cell: an object with a kind and the fields of that
  kind, once each, or a list of the kind and the values of
  those fields. Other fields of an object are ignored, but
  they have to stand for something.
-/
def ofJson?
    (json : Json) : Option Cell :=
  if !json.isReadable || deepest < json.depth then none
  else
    match json with
    | .object fields =>
        match Json.field? "kind" fields with
        | some (.text kind) =>
            ofParts? kind fun names =>
              names.mapM fun name => Json.field? name fields
        | _ => none
    | .list (.text kind :: values) =>
        ofParts? kind fun names =>
          if values.length = names.length then some values
          else none
    | _ => none

def toJson : Cell → Json
  | literal value =>
      .object
        [("kind", .text "literal"), ("value", value.toJson)]
  | formula source _ =>
      .object
        [("kind", .text "formula"), ("src", .text source)]
  | error code message =>
      .object
        [("kind", .text "error"), ("code", code.toJson),
          ("message", .text message)]

end Cell

------------------------------------------------------------
-- Sheets
------------------------------------------------------------

namespace Sheet

/- Read the field of one cell. -/
def entryOfJson?
    (field : String × Json) : Option (Address × Cell) :=
  match Address.parse field.1 with
  | .error _ => none
  | .ok a => (Cell.ofJson? field.2).map fun cell => (a, cell)

/-
  The map of cells by address as written. Of several cells
  with one address the last is kept, and of addresses with
  one position the last in address order.
-/
def cellsOfEntries
    (entries : List (Address × Cell)) : CellMap Cell :=
  CellMap.ofList
    (entries.foldl
      (fun sorted p => Entries.insert p.1 p.2 sorted) [])

def cellsOfJson?
    (json : Json) : Option (CellMap Cell) := do
  let fields ← json.object?
  let entries ← fields.mapM entryOfJson?
  some (cellsOfEntries entries)

/- Read a sheet from its parts. -/
def ofParts?
    (format : FileFormat)
    (cells rows cols name updatedAt : Json) :
    Option Sheet := do
  let cells ← cellsOfJson? cells
  let rows ← rows.word?
  let cols ← cols.word?
  let name ← name.text?
  let updatedAt ← format.readTime? (← updatedAt.text?)
  some ⟨cells, rows, cols, name, updatedAt⟩

/-
  Read a sheet: an object in which every field occurs once,
  or a list of their values in order. In an object the cells
  may be missing and unknown fields are ignored.
-/
def ofJson?
    (format : FileFormat) : Json → Option Sheet
  | .object fields => do
      let cells ←
        match Json.valuesOf "cells" fields with
        | [] => some (.object [])
        | [cells] => some cells
        | _ => none
      ofParts? format cells
        (← Json.field? "rows" fields)
        (← Json.field? "cols" fields)
        (← Json.field? "name" fields)
        (← Json.field? "updatedAt" fields)
  | .list [cells, rows, cols, name, updatedAt] =>
      ofParts? format cells rows cols name updatedAt
  | _ => none

def toJson
    (format : FileFormat)
    (sheet : Sheet) : Json :=
  .object
    [("cells",
        .object
          (sheet.cells.entries.map fun p =>
            (p.1.text, p.2.toJson))),
      ("rows", .natural sheet.rows.toNat),
      ("cols", .natural sheet.cols.toNat),
      ("name", .text sheet.name),
      ("updatedAt",
        .text (format.writeTime sheet.updatedAt))]

end Sheet

------------------------------------------------------------
-- Texts Of Sheets
------------------------------------------------------------

namespace FileFormat

/- Read the text of a sheet. -/
def readSheet?
    (format : FileFormat)
    (text : String) : Option Sheet :=
  (format.readJson? text).bind (Sheet.ofJson? format)

/- The text of a sheet. -/
def writeSheet
    (format : FileFormat)
    (sheet : Sheet) : String :=
  format.writeJson (sheet.toJson format)

end FileFormat

/- Read the text of a sheet in the standard format. -/
def Sheet.read?
    (text : String) : Option Sheet :=
  FileFormat.standard.readSheet? text

end Spreadsheet
