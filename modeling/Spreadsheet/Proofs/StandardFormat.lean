import Spreadsheet.Proofs.JsonReading
import Spreadsheet.Proofs.JsonText

/-
  The standard format keeps to the laws of a format. Values
  read back by their tokens, and the numbers in what is read
  are finite. Nothing is left of a double that is not finite
  but the word null, wherever it stands in a value, so it is
  by induction on the value.

  Main declarations:
    * `Json.write_withNulls`
    * `FileFormat.standard_isLawful`
-/

namespace Spreadsheet

namespace Json

------------------------------------------------------------
-- Doubles That Are Not Finite
------------------------------------------------------------

mutual

/- A double that is not finite is written like null. -/
theorem write_withNulls
    (level : Nat) :
    ∀ v : Json, v.withNulls.write level = v.write level
  | null => rfl
  | boolean _ => rfl
  | natural _ => rfl
  | number x => by
      by_cases hFinite : x.isFinite = true
      · rw [withNulls, if_pos hFinite]
      · rw [withNulls, if_neg hFinite, write, write,
          if_neg hFinite]
  | text _ => rfl
  | list [] => rfl
  | list (item :: items) => by
      have hItem := write_withNulls (level + 1) item
      have hItems := writeItems_withNulls (level + 1) items
      simp only [withNulls, itemsWithNulls, write, hItem,
        hItems]
  | object [] => rfl
  | object ((name, value) :: fields) => by
      have hValue := write_withNulls (level + 1) value
      have hFields :=
        writeFields_withNulls (level + 1) fields
      simp only [withNulls, fieldsWithNulls, write, hValue,
        hFields]
  | unreadable => rfl

/- The same for the items after the first one. -/
theorem writeItems_withNulls
    (level : Nat) :
    ∀ items : List Json,
      writeItems level (itemsWithNulls items)
        = writeItems level items
  | [] => rfl
  | item :: items => by
      have hItem := write_withNulls level item
      have hItems := writeItems_withNulls level items
      simp only [itemsWithNulls, writeItems, hItem, hItems]

/- The same for the fields after the first one. -/
theorem writeFields_withNulls
    (level : Nat) :
    ∀ fields : List (String × Json),
      writeFields level (fieldsWithNulls fields)
        = writeFields level fields
  | [] => rfl
  | (name, value) :: fields => by
      have hValue := write_withNulls level value
      have hFields := writeFields_withNulls level fields
      simp only [fieldsWithNulls, writeFields, hValue,
        hFields]

end

end Json

------------------------------------------------------------
-- The Laws
------------------------------------------------------------

/- The texts that the program reads and writes are lawful. -/
theorem FileFormat.standard_isLawful :
    standard.IsLawful where
  roundTrips _ hWritable _ := Json.read?_written hWritable
  writesNulls v :=
    congrArg String.ofList (Json.write_withNulls 0 v).symm
  readsFinite _ _ hRead := Json.isFinite_of_read? hRead

end Spreadsheet
