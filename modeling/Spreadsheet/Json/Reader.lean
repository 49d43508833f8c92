import Spreadsheet.Json.Token

/-
  This file defines how the tokens of a text are put
  together to a value. Lists and objects that are not closed
  yet are held on a stack, so that every token is one step.

  Key definitions include:
    * `Json.Frame`
    * `Json.Reader`
    * `Json.Reader.step?`
    * `Json.read?`
-/

namespace Spreadsheet

namespace Json

------------------------------------------------------------
-- Open Lists And Objects
------------------------------------------------------------

/- A field whose name may stand for no characters. -/
abbrev Field :=
  Option String × Json

/-
  A list or an object around the value that is being read,
  with what came before it, latest first.
-/
inductive Frame where
  | list (before : List Json)
  | object (before : List Field) (name : Option String)

/- Texts that stand for no characters are unreadable. -/
def ofText
    (s : Option String) : Json :=
  match s with
  | some s => text s
  | none => unreadable

/- An object with a name that cannot be read is none. -/
def ofFields
    (fields : List Field) : Json :=
  let named := fields.mapM fun p =>
    p.1.map fun name => (name, p.2)
  match named with
  | some fields => object fields
  | none => unreadable

------------------------------------------------------------
-- Steps
------------------------------------------------------------

/- What a reader expects next. -/
inductive Reader where
  /- A value. -/
  | value (stack : List Frame)
  /- The first value of a list, or its end. -/
  | listStart (stack : List Frame)
  /- The first field of an object, or its end. -/
  | objectStart (stack : List Frame)
  /- The name of a further field. -/
  | name (before : List Field) (stack : List Frame)
  /- The colon after the name of a field. -/
  | colon
      (before : List Field)
      (name : Option String)
      (stack : List Frame)
  /- A comma or an end after a value. -/
  | after (value : Json) (stack : List Frame)

namespace Reader

/- Read the first token of a value. -/
def begin?
    (stack : List Frame) : Token → Option Reader
  | .plain v => some (after v stack)
  | .text s => some (after (ofText s) stack)
  | .beginList => some (listStart stack)
  | .beginObject => some (objectStart stack)
  | _ => none

/- Read a token after a value that stands in a frame. -/
def close?
    (v : Json)
    (frame : Frame)
    (stack : List Frame)
    (token : Token) : Option Reader :=
  match frame, token with
  | .list before, .comma =>
      some (value (.list (v :: before) :: stack))
  | .list before, .endList =>
      some (after (list (v :: before).reverse) stack)
  | .object before key, .comma =>
      some (name ((key, v) :: before) stack)
  | .object before key, .endObject =>
      some
        (after (ofFields ((key, v) :: before).reverse) stack)
  | _, _ => none

/- Read one token. -/
def step?
    (reader : Reader)
    (token : Token) : Option Reader :=
  match reader, token with
  | value stack, token => begin? stack token
  | listStart stack, .endList =>
      some (after (list []) stack)
  | listStart stack, token =>
      begin? (.list [] :: stack) token
  | objectStart stack, .endObject =>
      some (after (object []) stack)
  | objectStart stack, .text key =>
      some (colon [] key stack)
  | name before stack, .text key =>
      some (colon before key stack)
  | colon before key stack, .colon =>
      some (value (.object before key :: stack))
  | after v (frame :: stack), token =>
      close? v frame stack token
  | _, _ => none

end Reader

/- Read a text that is one value. -/
def read?
    (s : String) : Option Json := do
  let tokens ← tokens? s.toList
  match ← tokens.foldlM Reader.step? (.value []) with
  | .after v [] => some v
  | _ => none

end Json

end Spreadsheet
