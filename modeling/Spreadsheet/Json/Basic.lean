import Spreadsheet.Number.Binary64

/-
  This file defines JSON values and how their parts are
  looked up.

  Key definitions include:
    * `Json`
    * `Json.depth`
    * `Json.isReadable`
    * `Json.field?`
-/

namespace Spreadsheet

/-
  A JSON value. The fields of an object keep their order,
  and a name may occur more than once.
-/
inductive Json where
  | null
  | boolean (b : Bool)
  | natural (n : Nat)
  | number (x : Float)
  | text (s : String)
  | list (items : List Json)
  | object (fields : List (String × Json))
  /-
    What has the form of a value and stands for none, such
    as a number beyond all doubles.
  -/
  | unreadable
deriving Inhabited

namespace Json

------------------------------------------------------------
-- Nested Values
------------------------------------------------------------

mutual

/- The number of lists and objects around the innermost. -/
def depth : Json → Nat
  | list items => depthOfItems items + 1
  | object fields => depthOfFields fields + 1
  | _ => 0

def depthOfItems : List Json → Nat
  | [] => 0
  | item :: rest => max item.depth (depthOfItems rest)

def depthOfFields : List (String × Json) → Nat
  | [] => 0
  | (_, value) :: rest =>
      max value.depth (depthOfFields rest)

end

mutual

/- Whether all of a value stands for something. -/
def isReadable : Json → Bool
  | list items => areItemsReadable items
  | object fields => areFieldsReadable fields
  | unreadable => false
  | _ => true

def areItemsReadable : List Json → Bool
  | [] => true
  | item :: rest => item.isReadable && areItemsReadable rest

def areFieldsReadable : List (String × Json) → Bool
  | [] => true
  | (_, value) :: rest =>
      value.isReadable && areFieldsReadable rest

end

------------------------------------------------------------
-- Parts
------------------------------------------------------------

def text? : Json → Option String
  | text s => some s
  | _ => none

def object? : Json → Option (List (String × Json))
  | object fields => some fields
  | _ => none

/- A natural number of thirty-two bits. -/
def word? : Json → Option UInt32
  | natural n =>
      if n < UInt32.size then some n.toUInt32 else none
  | _ => none

/- The values of all fields with a name. -/
def valuesOf
    (name : String)
    (fields : List (String × Json)) : List Json :=
  (fields.filter fun p => p.1 == name).map (·.2)

/- The value of the only field with a name. -/
def field?
    (name : String)
    (fields : List (String × Json)) : Option Json :=
  match valuesOf name fields with
  | [value] => some value
  | _ => none

end Json

end Spreadsheet
