import Spreadsheet.CommandLine.Command

/-
  This file defines how arguments are read as a request.
  They are read from left to right, and the first of them
  that settles the request, like a flag for help or one that
  does not exist, makes the rest irrelevant.

  Key definitions include:
    * `Given`
    * `Given.read`
    * `readCommand`
    * `Request.ofArguments`
-/

namespace Spreadsheet

------------------------------------------------------------
-- Flags In Arguments
------------------------------------------------------------

namespace Flag

/- The flag of a word after two hyphens. -/
def ofLong
    (known : List Flag)
    (word : List Char) : Except Misuse Flag :=
  let name := String.ofList (word.takeWhile (· != '='))
  match known.find? (fun flag => flag.long == name) with
  | none => .error (.unknownFlag ("--" ++ name))
  | some flag =>
      if '=' ∈ word then .error (.flagWithValue flag)
      else .ok flag

/- The flag of one of the letters after a hyphen. -/
def ofShort
    (known : List Flag)
    (c : Char) : Except Misuse Flag :=
  match known.find? (fun flag => flag.short? == some c) with
  | none => .error (.unknownFlag (String.ofList ['-', c]))
  | some flag => .ok flag

/-
  The flags that an argument consists of. An argument that
  is a single hyphen or does not start with one has none.
-/
def ofArgument?
    (known : List Flag)
    (argument : String) :
    Option (List (Except Misuse Flag)) :=
  match argument.toList with
  | '-' :: '-' :: word => some [ofLong known word]
  | '-' :: c :: rest =>
      some ((c :: rest).map (ofShort known))
  | _ => none

end Flag

/- All arguments after this one are operands. -/
def endOfFlags : String := "--"

------------------------------------------------------------
-- Arguments Of A Command
------------------------------------------------------------

/- The flags and operands given so far. -/
structure Given where
  flags : List Flag
  operands : List String
deriving DecidableEq

namespace Given

/- Take note of a flag, or answer the request it makes. -/
def addFlag
    (topic : Topic)
    (given : Given)
    (flag : Except Misuse Flag) : Except Request Given :=
  match flag with
  | .error fault => .error (.misuse fault)
  | .ok .help => .error (.help topic)
  | .ok .version => .error .version
  | .ok .verbose => .ok given
  | .ok flag =>
      if flag ∈ given.flags then
        .error (.misuse (.repeatedFlag flag))
      else .ok { given with flags := flag :: given.flags }

/- Take note of an operand. The first one is a file. -/
def addOperand
    (name : Command.Name)
    (given : Given)
    (word : String) : Except Request Given :=
  let before := given.operands
  if name.operands.length ≤ before.length then
    .error (.misuse (.unexpectedOperand word))
  else if before.isEmpty && word.isEmpty then
    .error (.misuse .emptyFileName)
  else .ok { given with operands := before ++ [word] }

/- Read the arguments after the name of a command. -/
def read
    (name : Command.Name)
    (given : Given) :
    List String → Except Request Given
  | [] => .ok given
  | argument :: rest =>
      if argument = endOfFlags then
        rest.foldlM (addOperand name) given
      else
        match Flag.ofArgument? name.flags argument with
        | some flags => do
            let given ←
              flags.foldlM (addFlag (.command name)) given
            read name given rest
        | none => do
            let given ← addOperand name given argument
            read name given rest

/- The request of all arguments of a command. -/
def request
    (given : Given)
    (name : Command.Name) : Request :=
  let has (flag : Flag) : Bool := given.flags.contains flag
  match name, given.operands with
  | .evaluate, [file] =>
      .run (.evaluate file (has .json) (has .explain))
  | .cell, [file, address] =>
      .run (.cell file address (has .json) (has .explain))
  | .edit, [file, address, typed] =>
      .run (.edit file address typed (has .json) (has .write))
  | name, operands =>
      .misuse
        (.missingOperands
          (name.operands.drop operands.length))

end Given

------------------------------------------------------------
-- All Arguments
------------------------------------------------------------

/- The help that the words after `help` ask for. -/
def helpRequest : List String → Request
  | [] => .help .program
  | ["help"] => .help .help
  | word :: rest =>
      match Command.Name.named? word, rest with
      | none, _ => .misuse (.unknownCommand word)
      | some name, [] => .help (.command name)
      | some _, next :: _ => .misuse (.unknownCommand next)

/- Read flags up to the name of a command. -/
def readCommand :
    List String →
    Except Request (Command.Name × List String)
  | [] => .error (.misuse .missingCommand)
  | argument :: rest =>
      if argument = endOfFlags then
        match rest with
        | [] => .error (.misuse .missingCommand)
        | word :: _ =>
            .error (.misuse (.unexpectedOperand word))
      else
        match Flag.ofArgument? Flag.beforeCommand argument with
        | some flags => do
            let _ ←
              flags.foldlM (Given.addFlag .program) ⟨[], []⟩
            readCommand rest
        | none =>
            if argument = "help" then
              .error (helpRequest rest)
            else
              match Command.Name.named? argument with
              | some name => .ok (name, rest)
              | none =>
                  .error
                    (.misuse (.unknownCommand argument))

/- What arguments ask for. -/
def Request.ofArguments
    (arguments : List String) : Request :=
  let outcome := do
    let (name, rest) ← readCommand arguments
    let given ← Given.read name ⟨[], []⟩ rest
    return given.request name
  match outcome with
  | .ok request => request
  | .error request => request

end Spreadsheet
