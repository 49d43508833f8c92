import Spreadsheet.CommandLine.Command

/-
  This file defines the texts that explain the commands.

  Key definitions include:
    * `Topic.text`
    * `versionText`
-/

namespace Spreadsheet

------------------------------------------------------------
-- The Program
------------------------------------------------------------

/- The name of the program and its version. -/
def versionText
    (program : String) : String :=
  program ++ " 0.1.0\n"

------------------------------------------------------------
-- Descriptions
------------------------------------------------------------

/- What a command does. -/
def Command.Name.about : Command.Name → String
  | evaluate => "Evaluate every formula in a sheet"
  | cell => "Evaluate a single cell"
  | edit => "Apply an edit and print the recomputed cells"

/- What the help command does. -/
def helpAbout : String :=
  "Print this message or the help of the given "
    ++ "subcommand(s)"

/- What an operand is. -/
def operandAbout : String → String
  | "INPUT" => "Sheet file (JSON)"
  | "ADDRESS" => "Cell address, e.g. B3"
  | _ =>
      "New contents as typed: blank clears, "
        ++ "\x60=\x60 starts a formula"

/- What a flag does, which may depend on the command. -/
def Flag.about
    (command : Option Command.Name) : Flag → String
  | verbose =>
      "Increase log verbosity "
        ++ "(-v info, -vv debug, -vvv trace)"
  | json =>
      if command = some .cell then
        "Print the result as JSON"
      else "Print results as JSON"
  | explain =>
      if command = some .cell then
        "Include the explain trace"
      else "Include explain traces"
  | write =>
      "Save the edited sheet back to the input file"
  | help => "Print help"
  | version => "Print version"

------------------------------------------------------------
-- Layout
------------------------------------------------------------

/- A line of two columns. The first has a given width. -/
def columns
    (width : Nat)
    (left right : String) : String :=
  let gap := List.replicate (width - left.length + 2) ' '
  "  " ++ left ++ String.ofList gap ++ right

/- A titled table of two columns. -/
def table
    (title : String)
    (rows : List (String × String)) : List String :=
  let width := (rows.map (·.1.length)).foldl max 0
  "" :: (title ++ ":")
    :: rows.map fun p => columns width p.1 p.2

/- How a flag is written. Verbosity may be repeated. -/
def Flag.usage
    (flag : Flag) : String :=
  let short :=
    match flag.short? with
    | some c => String.ofList ['-', c, ',', ' ']
    | none => "    "
  let more := if flag = .verbose then "..." else ""
  short ++ "--" ++ flag.long ++ more

def flagTable
    (command : Option Command.Name)
    (flags : List Flag) : List String :=
  table "Options"
    (flags.map fun flag => (flag.usage, flag.about command))

def usageLine
    (words : List String) : String :=
  "Usage: " ++ String.intercalate " " words

def operandUsage
    (operand : String) : String :=
  "<" ++ operand ++ ">"

------------------------------------------------------------
-- Topics
------------------------------------------------------------

namespace Topic

/- The lines of the help about a topic. -/
def lines
    (program : String) : Topic → List String
  | .program =>
      ["Spreadsheet formula evaluation tool", "",
        usageLine [program, "[OPTIONS]", "<COMMAND>"]]
      ++ table "Commands"
          (Command.Name.all.map
            (fun name => (name.text, name.about))
            ++ [("help", helpAbout)])
      ++ flagTable none Flag.beforeCommand
  | .command name =>
      [name.about, "",
        usageLine
          (program :: name.text :: "[OPTIONS]"
            :: name.operands.map operandUsage)]
      ++ table "Arguments"
          (name.operands.map fun operand =>
            (operandUsage operand, operandAbout operand))
      ++ flagTable (some name) name.flags
  | .help =>
      [helpAbout, "",
        usageLine [program, "help", "[COMMAND]..."]]
      ++ table "Arguments"
          [("[COMMAND]...",
            "Print help for the subcommand(s)")]

/- The help about a topic. -/
def text
    (program : String)
    (topic : Topic) : String :=
  String.join ((topic.lines program).map (· ++ "\n"))

end Topic

end Spreadsheet
