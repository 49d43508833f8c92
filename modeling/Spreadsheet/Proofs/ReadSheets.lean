import Spreadsheet.Proofs.FiniteDoubles
import Spreadsheet.Proofs.SavedSheets

/-
  What is known of a sheet that was read in a format that
  keeps to the laws. Its addresses can be read when they are
  written again, because they were read once, its formulas
  have not been parsed, and its numbers are finite.

  Main declarations:
    * `Cell.IsFresh`
    * `Sheet.WellRead`
    * `Sheet.wellRead_of_readSheet?`
-/

namespace Spreadsheet

------------------------------------------------------------
-- Values And Cells
------------------------------------------------------------

theorem Value.isFinite_of_ofJson?
    {json : Json}
    {v : Value}
    (hJson : json.IsFinite)
    (h : ofJson? json = some v) : v.IsFinite := by
  cases json <;>
    simp only [ofJson?, Option.some.injEq, reduceCtorEq]
      at h <;>
    subst h
  case natural n => exact Binary64.isFinite_ofNat hJson
  case number x => exact hJson
  all_goals trivial

namespace Json

variable {name : String}
variable {fields : List (String × Json)}
variable {v : Json}

/- What is found under a name is one of the fields. -/
theorem mem_of_mem_valuesOf
    (h : v ∈ valuesOf name fields) :
    ∃ p ∈ fields, p.2 = v := by
  rcases List.mem_map.mp h with ⟨p, hp, hSame⟩
  exact ⟨p, (List.mem_filter.mp hp).1, hSame⟩

theorem mem_of_field?
    (h : field? name fields = some v) :
    ∃ p ∈ fields, p.2 = v := by
  unfold field? at h
  split at h
  · next value hValues =>
      apply mem_of_mem_valuesOf
      rw [hValues, ← Option.some.inj h]
      exact List.mem_cons_self
  · simp at h

end Json

namespace Cell

/- A cell without an expression, and without infinities. -/
structure IsFresh
    (cell : Cell) : Prop where
  unparsed : cell.withoutParsed = cell
  finite : cell.IsFinite

theorem isFresh_of_ofParts?
    {kind : String}
    {parts : List String → Option (List Json)}
    {cell : Cell}
    (hParts :
      ∀ names values, parts names = some values →
        ∀ v ∈ values, v.IsFinite)
    (h : ofParts? kind parts = some cell) :
    cell.IsFresh := by
  unfold ofParts? at h
  split at h
  · split at h
    · next value hValue =>
        rcases Option.map_eq_some_iff.mp h with
          ⟨v, hv, rfl⟩
        have hFinite :=
          hParts _ _ hValue value List.mem_cons_self
        exact ⟨rfl, Value.isFinite_of_ofJson? hFinite hv⟩
    · simp at h
  · split at h
    · rw [← Option.some.inj h]
      exact ⟨rfl, trivial⟩
    · simp at h
  · split at h
    · rcases Option.map_eq_some_iff.mp h with
        ⟨code, -, rfl⟩
      exact ⟨rfl, trivial⟩
    · simp at h
  · simp at h

theorem isFresh_of_ofJson?
    {json : Json}
    {cell : Cell}
    (hJson : json.IsFinite)
    (h : ofJson? json = some cell) : cell.IsFresh := by
  unfold ofJson? at h
  split at h
  · simp at h
  · split at h
    · next fields _ =>
        have hFields :=
          (Json.areFieldsFinite_iff fields).mp hJson
        split at h
        · apply isFresh_of_ofParts? ?_ h
          intro names values hValues v hv
          rcases Json.mem_of_mapM hValues hv with
            ⟨name, -, hField⟩
          rcases Json.mem_of_field? hField with
            ⟨p, hp, rfl⟩
          exact hFields p hp
        · simp at h
    · next kind values _ =>
        have hItems :=
          ((Json.areItemsFinite_iff _).mp hJson)
        apply isFresh_of_ofParts? ?_ h
        intro names values' hValues v hv
        split at hValues
        · rw [← Option.some.inj hValues] at hv
          exact hItems v (List.mem_cons_of_mem _ hv)
        · simp at hValues
    · simp at h

end Cell

------------------------------------------------------------
-- Sheets
------------------------------------------------------------

namespace Sheet

/- What reading makes sure of. -/
structure WellRead
    (sheet : Sheet) : Prop where
  fits : sheet.Fits
  fresh : ∀ p ∈ sheet.cells.entries, p.2.IsFresh

theorem WellRead.withoutParsed
    {sheet : Sheet}
    (h : sheet.WellRead) : sheet.withoutParsed = sheet := by
  have hCells :
      sheet.cells.map Cell.withoutParsed = sheet.cells :=
    CellMap.map_eq_self fun p hp => (h.fresh p hp).unparsed
  unfold Sheet.withoutParsed
  rw [hCells]

/- Storing entries in turn stores nothing else. -/
theorem mem_foldl_insert
    {entries before : List (Address × Cell)}
    {p : Address × Cell}
    (hp :
      p ∈ entries.foldl
        (fun sorted q => Entries.insert q.1 q.2 sorted)
        before) :
    p ∈ before ∨ p ∈ entries := by
  induction entries generalizing before with
  | nil => exact .inl hp
  | cons q rest ih =>
      rcases ih hp with hBefore | hRest
      · rcases Entries.mem_insert hBefore with rfl | hBefore
        · exact .inr List.mem_cons_self
        · exact .inl hBefore
      · exact .inr (List.mem_cons_of_mem q hRest)

theorem mem_entries_foldl_insert
    {entries : List (Address × Cell)}
    {m : CellMap Cell}
    {p : Address × Cell}
    (hp :
      p ∈ (entries.foldl
        (fun m q => m.insert q.1 q.2) m).entries) :
    p ∈ m.entries
      ∨ ∃ q ∈ entries, p = (q.1.relative, q.2) := by
  induction entries generalizing m with
  | nil => exact .inl hp
  | cons q rest ih =>
      rcases ih hp with hBefore | ⟨r, hr, hSame⟩
      · rcases Entries.mem_insert hBefore with
          hSame | hBefore
        · exact .inr ⟨q, List.mem_cons_self, hSame⟩
        · exact .inl hBefore
      · exact .inr ⟨r, List.mem_cons_of_mem q hr, hSame⟩

/- Every cell that is kept was stored under its position. -/
theorem mem_cellsOfEntries
    {entries : List (Address × Cell)}
    {p : Address × Cell}
    (hp : p ∈ (cellsOfEntries entries).entries) :
    ∃ q ∈ entries, p = (q.1.relative, q.2) := by
  rcases mem_entries_foldl_insert hp with
    hNone | ⟨q, hq, hSame⟩
  · exact absurd hNone List.not_mem_nil
  · rcases mem_foldl_insert hq with hNone | hq
    · exact absurd hNone List.not_mem_nil
    · exact ⟨q, hq, hSame⟩

/- The cells that are read from the fields of an object. -/
theorem wellRead_of_cellsOfJson?
    {json : Json}
    {cells : CellMap Cell}
    (hJson : json.IsFinite)
    (h : cellsOfJson? json = some cells) :
    ∀ p ∈ cells.entries, p.1.Fits ∧ p.2.IsFresh := by
  simp only [cellsOfJson?, Option.bind_eq_bind,
    Option.bind_eq_some_iff, Option.some.injEq] at h
  rcases h with ⟨fields, hFields, entries, hEntries, rfl⟩
  have hFinite : ∀ field ∈ fields, field.2.IsFinite := by
    cases json <;>
      simp only [Json.object?, Option.some.injEq,
        reduceCtorEq] at hFields
    subst hFields
    exact (Json.areFieldsFinite_iff _).mp hJson
  intro p hp
  rcases mem_cellsOfEntries hp with ⟨q, hq, rfl⟩
  rcases Json.mem_of_mapM hEntries hq with
    ⟨field, hField, hEntry⟩
  unfold entryOfJson? at hEntry
  split at hEntry
  · simp at hEntry
  · next a hParse =>
      rcases Option.map_eq_some_iff.mp hEntry with
        ⟨cell, hCell, rfl⟩
      rcases Address.fits_of_parse hParse with ⟨hRow, hCol⟩
      exact ⟨⟨hRow, hCol⟩,
        Cell.isFresh_of_ofJson? (hFinite field hField) hCell⟩

theorem wellRead_of_ofParts?
    {format : FileFormat}
    {cells rows cols name updatedAt : Json}
    {sheet : Sheet}
    (hCells : cells.IsFinite)
    (h :
      ofParts? format cells rows cols name updatedAt
        = some sheet) :
    sheet.WellRead := by
  simp only [ofParts?, Option.bind_eq_bind,
    Option.bind_eq_some_iff, Option.some.injEq] at h
  rcases h with ⟨map, hMap, _, _, _, _, _, _, _, _, _, _, rfl⟩
  have hAll := wellRead_of_cellsOfJson? hCells hMap
  exact ⟨fun p hp => (hAll p hp).1, fun p hp => (hAll p hp).2⟩

/- What is known of a sheet that was read from a text. -/
theorem wellRead_of_readSheet?
    {format : FileFormat}
    {text : String}
    {sheet : Sheet}
    (hFormat : format.IsLawful)
    (h : format.readSheet? text = some sheet) :
    sheet.WellRead := by
  rcases Option.bind_eq_some_iff.mp h with
    ⟨json, hJson, hSheet⟩
  have hFinite := hFormat.readsFinite text json hJson
  unfold ofJson? at hSheet
  split at hSheet
  · next fields =>
      have hFields := (Json.areFieldsFinite_iff fields).mp hFinite
      simp only [Option.bind_eq_bind] at hSheet
      split at hSheet <;>
        simp only [Option.bind_some, Option.bind_none,
          Option.bind_eq_some_iff, reduceCtorEq] at hSheet
      · rcases hSheet with ⟨_, _, _, _, _, _, _, _, hParts⟩
        refine wellRead_of_ofParts? ?_ hParts
        trivial
      · next cells hCells =>
          rcases hSheet with ⟨_, _, _, _, _, _, _, _, hParts⟩
          have hMem : cells ∈ Json.valuesOf "cells" fields := by
            rw [hCells]
            exact List.mem_cons_self
          rcases Json.mem_of_mem_valuesOf hMem with
            ⟨p, hp, rfl⟩
          exact wellRead_of_ofParts? (hFields p hp) hParts
  · next cells rows cols name updatedAt =>
      exact wellRead_of_ofParts? hFinite.1 hSheet
  · simp at hSheet

end Sheet

end Spreadsheet
