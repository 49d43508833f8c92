import Spreadsheet.CommandLine.Response
import Std.Time.DateTime.Timestamp

/-
  This file runs the program: it reads the file that the
  arguments name, answers the request, and prints and saves
  what the answer says.

  Key definitions include:
    * `main`
-/

namespace Spreadsheet

/- The time of day. -/
def currentTime : IO Timestamp := do
  let elapsed := (← Std.Time.Timestamp.now).val
  return ⟨elapsed.second.val, elapsed.nano.val.toNat⟩

/- The name under which the program was started. -/
def startedAs : IO String := do
  return (← IO.appPath).fileName.getD ""

/- The text of a file, if it can be read. -/
def readContent
    (file : String) : IO (Option String) := do
  try
    return some (← IO.FS.readFile file)
  catch _ =>
    return none

/- Save a text, and tell whether that was possible. -/
def writeContent
    (file text : String) : IO Bool := do
  try
    IO.FS.writeFile file text
    return true
  catch _ =>
    return false

/- Report how a request failed. -/
def reportError
    (message : String)
    (ending : Ending) : IO UInt32 := do
  IO.eprintln ("Error: " ++ message)
  return ending.exitCode

/- Print a response and save what is to be saved. -/
def deliver
    (file : String)
    (response : Response) : IO UInt32 := do
  IO.print response.output
  match response.saved with
  | none => return 0
  | some text =>
      if ← writeContent file text then
        IO.eprintln ("Wrote '" ++ file ++ "'")
        return 0
      else
        let e := CommandError.unwritableFile file
        reportError e.message (.failure e)

/- Answer the request of the arguments. -/
def runProgram
    (arguments : List String) : IO UInt32 := do
  let request := Request.ofArguments arguments
  let file := request.file?.getD ""
  let content ←
    if request.file?.isSome then readContent file
    else pure none
  let ending :=
    request.respond (← startedAs) (← currentTime) content
  match ending with
  | .success response => deliver file response
  | .failure e => reportError e.message ending
  | .misuse fault => reportError fault.message ending

end Spreadsheet

def main
    (arguments : List String) : IO UInt32 :=
  Spreadsheet.runProgram arguments
