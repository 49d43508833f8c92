/-
  This file defines the commands of the command line, the
  flags and operands that each of them takes, and the ways
  in which arguments can be wrong.

  Key definitions include:
    * `Command`
    * `Command.Name`
    * `Flag`
    * `Misuse`
    * `Request`
-/

namespace Spreadsheet

------------------------------------------------------------
-- Flags
------------------------------------------------------------

inductive Flag where
  | verbose
  | json
  | explain
  | write
  | help
  | version
deriving DecidableEq

namespace Flag

/- The name after two hyphens. -/
def long : Flag → String
  | verbose => "verbose"
  | json => "json"
  | explain => "explain"
  | write => "write"
  | help => "help"
  | version => "version"

/- The letter after one hyphen. -/
def short? : Flag → Option Char
  | verbose => some 'v'
  | write => some 'w'
  | help => some 'h'
  | version => some 'V'
  | _ => none

end Flag

------------------------------------------------------------
-- Commands
------------------------------------------------------------

/- What to do with the file of a sheet. -/
inductive Command where
  /- Evaluate every formula. -/
  | evaluate (file : String) (json explain : Bool)
  /- Evaluate one cell. -/
  | cell (file address : String) (json explain : Bool)
  /- Change one cell to what was typed. -/
  | edit (file address typed : String) (json write : Bool)
deriving DecidableEq

namespace Command

def file : Command → String
  | evaluate file _ _ => file
  | cell file _ _ _ => file
  | edit file _ _ _ _ => file

inductive Name where
  | evaluate
  | cell
  | edit
deriving DecidableEq

namespace Name

def text : Name → String
  | evaluate => "eval"
  | cell => "cell"
  | edit => "edit"

def all : List Name :=
  [evaluate, cell, edit]

/- The command with a given name. -/
def named?
    (word : String) : Option Name :=
  all.find? fun name => name.text == word

/- The flags of a command in the order of its help. -/
def flags : Name → List Flag
  | evaluate => [.json, .verbose, .explain, .help]
  | cell => [.json, .verbose, .explain, .help]
  | edit => [.json, .verbose, .write, .help]

/- The operands of a command, all of which are needed. -/
def operands : Name → List String
  | evaluate => ["INPUT"]
  | cell => ["INPUT", "ADDRESS"]
  | edit => ["INPUT", "ADDRESS", "RAW"]

end Name

end Command

/- The flags that may come before the command. -/
def Flag.beforeCommand : List Flag :=
  [.verbose, .help, .version]

------------------------------------------------------------
-- Requests
------------------------------------------------------------

/- What is wrong with arguments. -/
inductive Misuse where
  | missingCommand
  | unknownCommand (word : String)
  | unknownFlag (word : String)
  | flagWithValue (flag : Flag)
  | repeatedFlag (flag : Flag)
  | unexpectedOperand (word : String)
  | missingOperands (names : List String)
  | emptyFileName
deriving DecidableEq

def Misuse.message : Misuse → String
  | missingCommand => "a command is required"
  | unknownCommand word =>
      "unrecognized command '" ++ word ++ "'"
  | unknownFlag word => "unexpected flag '" ++ word ++ "'"
  | flagWithValue flag =>
      "the flag '--" ++ flag.long ++ "' takes no value"
  | repeatedFlag flag =>
      "the flag '--" ++ flag.long
        ++ "' cannot be used multiple times"
  | unexpectedOperand word =>
      "unexpected argument '" ++ word ++ "'"
  | missingOperands names =>
      "missing arguments: " ++ String.intercalate ", " names
  | emptyFileName => "the name of the file is empty"

/- What help is about. -/
inductive Topic where
  | program
  | command (name : Command.Name)
  | help
deriving DecidableEq

/- What arguments ask for. -/
inductive Request where
  | run (command : Command)
  | help (topic : Topic)
  | version
  | misuse (fault : Misuse)
deriving DecidableEq

end Spreadsheet
