import Spreadsheet.Proofs.JsonTokens

/-
  A value that is written reads back as itself. The tokens
  of a value take the reader from where a value is expected
  to where one has been read, whatever lists and objects are
  open around it, by induction on the value.

  Main declarations:
    * `Json.foldlM_tokens`
    * `Json.read?_written`
-/

namespace Spreadsheet

namespace Json

open FileFormat (standard)

------------------------------------------------------------
-- Reading The Tokens Of A Value
------------------------------------------------------------

/- Reading goes on after one token. -/
theorem foldlM_step
    {r s : Reader}
    {token : Token}
    (h : r.step? token = some s)
    (rest : List Token) :
    (token :: rest).foldlM Reader.step? r
      = rest.foldlM Reader.step? s := by
  rw [List.foldlM_cons, h]
  rfl

/- Reading goes on after some tokens. -/
theorem foldlM_steps
    {r s : Reader}
    {tokens : List Token}
    (h : tokens.foldlM Reader.step? r = some s)
    (rest : List Token) :
    (tokens ++ rest).foldlM Reader.step? r
      = rest.foldlM Reader.step? s := by
  rw [List.foldlM_append, h]
  rfl

/- A value starts with a token that ends no list. -/
theorem exists_cons_tokens
    (v : Json) :
    ∃ (token : Token) (rest : List Token),
      v.tokens = token :: rest ∧ token ≠ .endList := by
  cases v with
  | list items =>
      cases items <;> exact ⟨_, _, rfl, by simp⟩
  | object fields =>
      cases fields with
      | nil => exact ⟨_, _, rfl, by simp⟩
      | cons field fields => exact ⟨_, _, rfl, by simp⟩
  | _ => exact ⟨_, _, rfl, by simp⟩

/- The first item of a list is read like any value. -/
theorem foldlM_listStart
    (v : Json)
    (stack : List Frame) :
    v.tokens.foldlM Reader.step? (.listStart stack)
      = v.tokens.foldlM Reader.step?
        (.value (.list [] :: stack)) := by
  rcases exists_cons_tokens v with ⟨token, rest, hCons, hNe⟩
  rw [hCons, List.foldlM_cons, List.foldlM_cons]
  cases token <;> first | rfl | exact absurd rfl hNe

/- Fields as they are held while an object is read. -/
def heldFields
    (fields : List (String × Json)) : List Field :=
  fields.map fun p => (some p.1, p.2)

/- Fields whose names can all be read make an object. -/
theorem ofFields_heldFields
    (fields : List (String × Json)) :
    ofFields (heldFields fields) = object fields := by
  have hNamed :
      (heldFields fields).mapM
        (fun p : Field => p.1.map fun name => (name, p.2))
        = some fields := by
    induction fields with
    | nil => rfl
    | cons field fields ih =>
        rw [heldFields, List.map_cons, List.mapM_cons]
        rw [heldFields] at ih
        rw [ih]
        rfl
  simp only [ofFields, hNamed]

mutual

/- The tokens of a value are read as that value. -/
theorem foldlM_tokens
    (stack : List Frame) :
    ∀ v : Json, v.IsWritable standard.ReadsBack →
      v.tokens.foldlM Reader.step? (.value stack)
        = some (.after v stack)
  | null, _ => rfl
  | boolean _, _ => rfl
  | natural _, _ => rfl
  | number _, _ => rfl
  | text _, _ => rfl
  | list [], _ => rfl
  | list (item :: items), hv => by
      have hItem :=
        foldlM_tokens (.list [] :: stack) item hv.1
      have hItems :=
        foldlM_tokensOfItems stack item [] items hv.2
      rw [← foldlM_listStart] at hItem
      rw [tokens, List.cons_append, foldlM_step rfl,
        foldlM_steps hItem, hItems]
      rfl
  | object [], _ => rfl
  | object ((name, value) :: fields), hv => by
      have hValue :=
        foldlM_tokens (.object [] (some name) :: stack)
          value hv.1
      have hFields :=
        foldlM_tokensOfFields stack name value [] fields hv.2
      simp only [tokens, List.cons_append]
      rw [foldlM_step rfl, foldlM_step rfl, foldlM_step rfl,
        foldlM_steps hValue]
      exact hFields
  | unreadable, hv => hv.elim

/-
  The other items of a list and its end, after one item and
  the ones before it, latest first.
-/
theorem foldlM_tokensOfItems
    (stack : List Frame)
    (v : Json)
    (before : List Json) :
    ∀ items : List Json,
      AreItemsWritable standard.ReadsBack items →
      (tokensOfItems items ++ [Token.endList]).foldlM
        Reader.step? (.after v (.list before :: stack))
        = some
          (.after (list ((v :: before).reverse ++ items))
            stack)
  | [], _ => by
      rw [List.append_nil]
      rfl
  | item :: items, hItems => by
      have hItem :=
        foldlM_tokens (.list (v :: before) :: stack)
          item hItems.1
      have hRest :=
        foldlM_tokensOfItems stack item (v :: before) items
          hItems.2
      simp only [tokensOfItems, List.cons_append,
        List.append_assoc]
      rw [foldlM_step rfl, foldlM_steps hItem, hRest]
      simp

/- The same for the fields of an object. -/
theorem foldlM_tokensOfFields
    (stack : List Frame)
    (name : String)
    (v : Json)
    (before : List (String × Json)) :
    ∀ fields : List (String × Json),
      AreFieldsWritable standard.ReadsBack fields →
      (tokensOfFields fields ++ [Token.endObject]).foldlM
        Reader.step?
        (.after v
          (.object (heldFields before) (some name) :: stack))
        = some
          (.after
            (object (((name, v) :: before).reverse ++ fields))
            stack)
  | [], _ => by
      have hFields :=
        ofFields_heldFields ((name, v) :: before).reverse
      have hReverse :
          heldFields ((name, v) :: before).reverse
            = ((some name, v) :: heldFields before).reverse :=
        List.map_reverse
      rw [List.append_nil, ← hFields, hReverse]
      rfl
  | (next, value) :: fields, hFields => by
      have hValue :=
        foldlM_tokens
          (.object ((some name, v) :: heldFields before)
            (some next) :: stack)
          value hFields.1
      have hRest :=
        foldlM_tokensOfFields stack next value
          ((name, v) :: before) fields hFields.2
      simp only [tokensOfFields, List.cons_append,
        List.append_assoc]
      rw [foldlM_step rfl, foldlM_step rfl, foldlM_step rfl]
      rw [foldlM_steps hValue]
      refine Eq.trans hRest ?_
      simp

end

------------------------------------------------------------
-- Reading What Was Written
------------------------------------------------------------

/- A writable value reads back from its text. -/
theorem read?_written
    {v : Json}
    (hv : v.IsWritable standard.ReadsBack) :
    read? v.written = some v := by
  have hTokens := tokens?_write 0 stops_nil v hv
  have hEmpty : tokens? [] = some [] := tokens?_eq []
  rw [List.append_nil, hEmpty, Option.map_some,
    List.append_nil] at hTokens
  have hText : v.written.toList = v.write 0 :=
    String.toList_ofList
  simp only [read?, hText, hTokens, Option.bind_eq_bind,
    Option.bind_some, foldlM_tokens [] v hv]

end Json

end Spreadsheet
