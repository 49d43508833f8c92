import Spreadsheet.CommandLine.Arguments
import Spreadsheet.CommandLine.Help
import Spreadsheet.Edit
import Spreadsheet.Report

/-
  This file defines what the program answers to a request:
  what it prints, what it saves, and how it ends. The text
  of the sheet's file is given, if it could be read, and the
  format of files is a parameter until the whole request is
  answered.

  Key definitions include:
    * `CommandError`
    * `Response`
    * `Command.respond`
    * `Request.respond`
-/

namespace Spreadsheet

------------------------------------------------------------
-- Responses
------------------------------------------------------------

/- What keeps a command from being carried out. -/
inductive CommandError where
  | invalidAddress (text : String)
  | unreadableFile (file : String)
  | malformedSheet (file : String)
  | unwritableFile (file : String)
deriving DecidableEq

def CommandError.message : CommandError → String
  | invalidAddress text =>
      "Invalid cell address '" ++ text ++ "'"
  | unreadableFile file =>
      "Failed to read '" ++ file ++ "'"
  | malformedSheet file =>
      "Failed to parse sheet '" ++ file ++ "'"
  | unwritableFile file =>
      "Failed to write '" ++ file ++ "'"

/- What a command prints, and the text it saves, if any. -/
structure Response where
  output : String
  saved : Option String
deriving DecidableEq

/- How the program ends. -/
inductive Ending where
  | success (response : Response)
  | failure (e : CommandError)
  | misuse (fault : Misuse)
deriving DecidableEq

def Ending.exitCode : Ending → UInt32
  | success _ => 0
  | failure _ => 1
  | misuse _ => 2

namespace Response

def ofLines
    (lines : List String) : Response :=
  ⟨String.join (lines.map (· ++ "\n")), none⟩

def ofJson
    (format : FileFormat)
    (json : Json) : Response :=
  ofLines [format.writeJson json]

end Response

------------------------------------------------------------
-- Commands
------------------------------------------------------------

/- Read an address without the blanks around it. -/
def addressOfOperand
    (text : String) : Except CommandError Address :=
  let trimmed := String.ofList (Blank.trim text.toList)
  match Address.parse trimmed with
  | .ok a => .ok a
  | .error _ => .error (.invalidAddress text)

/- Read a sheet from what is in its file. -/
def sheetOfContent
    (format : FileFormat)
    (file : String)
    (content : Option String) :
    Except CommandError Sheet :=
  match content with
  | none => .error (.unreadableFile file)
  | some text =>
      match format.readSheet? text with
      | some sheet => .ok sheet
      | none => .error (.malformedSheet file)

/- Report the outcome of every formula of a sheet. -/
def evaluateReport
    (format : FileFormat)
    (sheet : Sheet)
    (json explain : Bool) : Response :=
  let (results, _) :=
    (Engine.new explain).evaluateSheet sheet
  if json then .ofJson format results.toJson
  else .ofLines results.lines

/- Report the outcome of one cell. -/
def cellReport
    (format : FileFormat)
    (sheet : Sheet)
    (a : Address)
    (json explain : Bool) : Response :=
  let evaluation :=
    (Engine.new explain).evaluateCell sheet a
  if json then .ofJson format evaluation.toJson
  else .ofLines (evaluation.lines a)

/-
  Apply what was typed into one cell, and report the
  outcomes that it changes.
-/
def editReport
    (format : FileFormat)
    (now : Timestamp)
    (sheet : Sheet)
    (a : Address)
    (typed : String)
    (json write : Bool) : Response :=
  let (_, engine, sheet) :=
    (Engine.new false).evaluateSheet sheet
  let (recalculation, _, edited) :=
    engine.update sheet a (Edit.classify typed).cell? now
  let report :=
    if json then .ofJson format recalculation.results.toJson
    else .ofLines recalculation.lines
  if write then
    { report with saved := some (format.writeSheet edited) }
  else report

/- Carry out a command. Addresses are read before files. -/
def Command.respond
    (format : FileFormat)
    (now : Timestamp)
    (content : Option String) :
    Command → Except CommandError Response
  | evaluate file json explain => do
      let sheet ← sheetOfContent format file content
      return evaluateReport format sheet json explain
  | cell file text json explain => do
      let a ← addressOfOperand text
      let sheet ← sheetOfContent format file content
      return cellReport format sheet a json explain
  | edit file text typed json write => do
      let a ← addressOfOperand text
      let sheet ← sheetOfContent format file content
      return editReport format now sheet a typed json write

------------------------------------------------------------
-- Requests
------------------------------------------------------------

/- The file that a request is about, if it is about one. -/
def Request.file? : Request → Option String
  | run command => some command.file
  | _ => none

/- Answer a request about files in the standard format. -/
def Request.respond
    (program : String)
    (now : Timestamp)
    (content : Option String) : Request → Ending
  | run command =>
      match command.respond .standard now content with
      | .ok response => .success response
      | .error e => .failure e
  | help topic => .success ⟨topic.text program, none⟩
  | version => .success ⟨versionText program, none⟩
  | misuse fault => .misuse fault

end Spreadsheet
