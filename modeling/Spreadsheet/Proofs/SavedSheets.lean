import Spreadsheet.Proofs.AddressCodec
import Spreadsheet.Proofs.Content
import Spreadsheet.Proofs.FileFormats
import Spreadsheet.SheetFile

/-
  What is left of a sheet when it has been saved and is read
  again, in any format that keeps to the laws. A cell comes
  back as its source, its value or its error, except that a
  number which is not finite comes back as nothing. The
  cells come back under their addresses as long as every
  address can be read, and otherwise nothing is read at all.

  Main declarations:
    * `Cell.kept` and `Sheet.kept`
    * `Cell.kept_eq_iff`
    * `Sheet.withNulls_toJson`
    * `FileFormat.readSheet?_writeSheet`
    * `FileFormat.readSheet?_writeSheet_eq_none`
-/

namespace Spreadsheet

------------------------------------------------------------
-- Values And Cells
------------------------------------------------------------

namespace Value

/- What is left of a value. -/
def kept : Value → Value
  | number x => if x.isFinite then number x else empty
  | v => v

/- Only numbers can be other than finite. -/
def IsFinite : Value → Prop
  | number x => x.isFinite = true
  | _ => True

theorem ofJson?_toJson
    (v : Value) : ofJson? v.toJson = some v := by
  cases v <;> rfl

/- What is left of a value is what is written for it. -/
theorem withNulls_toJson
    (v : Value) : v.toJson.withNulls = v.kept.toJson := by
  cases v with
  | number x =>
      simp only [toJson, kept, Json.withNulls]
      split <;> rfl
  | _ => rfl

/- A value is written without lists and objects. -/
theorem isPlain_toJson
    (v : Value) :
    v.toJson.isReadable = true ∧ v.toJson.depth = 0 := by
  cases v <;> exact ⟨rfl, rfl⟩

theorem kept_eq_iff
    (v : Value) : v.kept = v ↔ v.IsFinite := by
  cases v with
  | number x =>
      simp only [kept, IsFinite]
      split <;> simp_all
  | _ => simp [kept, IsFinite]

end Value

/- A code is read by its name. -/
theorem ErrorCode.ofJson?_toJson
    (code : ErrorCode) : ofJson? code.toJson = some code := by
  cases code <;> rfl

namespace Cell

/- What is left of a cell. -/
def kept : Cell → Cell
  | literal value => literal value.kept
  | formula source _ => ofSource source
  | error code message => error code message

/- Only values can be other than finite. -/
def IsFinite : Cell → Prop
  | literal value => value.IsFinite
  | _ => True

theorem kept_eq_iff
    (cell : Cell) :
    cell.kept = cell.withoutParsed ↔ cell.IsFinite := by
  cases cell with
  | literal value =>
      simp only [kept, withoutParsed, IsFinite,
        literal.injEq, Value.kept_eq_iff]
  | _ => simp [kept, withoutParsed, IsFinite]

/- No expression is left of a formula. -/
theorem withoutParsed_kept
    (cell : Cell) : cell.kept.withoutParsed = cell.kept := by
  cases cell <;> rfl

/- A number that is left of a cell is finite. -/
theorem kept_eq_number
    {cell : Cell}
    {x : Float}
    (h : cell.kept = .literal (.number x)) :
    cell = .literal (.number x) ∧ x.isFinite = true := by
  cases cell with
  | literal value =>
      cases value with
      | number y =>
          simp only [kept, Value.kept, literal.injEq] at h
          split at h
          · next hFinite =>
              cases h
              exact ⟨rfl, hFinite⟩
          · cases h
      | _ => cases h
  | _ => cases h

theorem withNulls_toJson
    (cell : Cell) :
    cell.toJson.withNulls = cell.kept.toJson := by
  cases cell with
  | literal value =>
      simp only [toJson, kept, Json.withNulls,
        Json.fieldsWithNulls, Value.withNulls_toJson]
  | _ => rfl

/- A cell is written as one object of plain fields. -/
theorem isShallow_toJson
    (cell : Cell) :
    cell.toJson.isReadable = true ∧ cell.toJson.depth = 1 := by
  cases cell with
  | literal value =>
      have hValue := Value.isPlain_toJson value
      simp [toJson, Json.isReadable, Json.areFieldsReadable,
        Json.depth, Json.depthOfFields, hValue.1, hValue.2]
  | formula source parsed => exact ⟨rfl, rfl⟩
  | error code message => exact ⟨rfl, rfl⟩

theorem ofJson?_toJson
    (cell : Cell) :
    ofJson? cell.toJson = some cell.withoutParsed := by
  have hShallow := isShallow_toJson cell
  unfold ofJson?
  rw [hShallow.1, hShallow.2]
  cases cell with
  | literal value =>
      have hValue := Value.ofJson?_toJson value
      simp [toJson, ofParts?, withoutParsed, deepest,
        Json.field?, Json.valuesOf, hValue]
  | formula source parsed =>
      simp [toJson, ofParts?, withoutParsed, deepest,
        Json.field?, Json.valuesOf]
  | error code message =>
      have hCode := ErrorCode.ofJson?_toJson code
      simp [toJson, ofParts?, withoutParsed, deepest,
        Json.field?, Json.valuesOf, hCode]

/- A cell is writable if the double in it reads back. -/
theorem isWritable_toJson
    {reads : Float → Prop}
    {cell : Cell}
    (hDoubles :
      ∀ x : Float, cell = .literal (.number x) → reads x) :
    cell.toJson.IsWritable reads := by
  cases cell with
  | literal value =>
      refine ⟨trivial, ?_, trivial⟩
      cases value with
      | number x => exact hDoubles x rfl
      | _ => trivial
  | formula source parsed => exact ⟨trivial, trivial, trivial⟩
  | error code message =>
      exact ⟨trivial, trivial, trivial, trivial⟩

end Cell

------------------------------------------------------------
-- Maps Of Cells
------------------------------------------------------------

namespace Entries

variable {α : Type}

/- A key after all others is stored at the end. -/
theorem insert_of_forall_lt
    {key : Address}
    {value : α}
    {entries : List (Address × α)}
    (hLast : ∀ p ∈ entries, p.1 < key) :
    insert key value entries = entries ++ [(key, value)] := by
  induction entries with
  | nil => rfl
  | cons p rest ih =>
      have hp : p.1 < key := hLast p List.mem_cons_self
      have hNot : ¬ key < p.1 :=
        fun h => Address.lt_irrefl _ (Address.lt_trans hp h)
      have hNe : key ≠ p.1 :=
        fun h => Address.lt_irrefl _ (h ▸ hp)
      simp only [insert, if_neg hNot, if_neg hNe]
      rw [ih fun q hq => hLast q (List.mem_cons_of_mem p hq),
        List.cons_append]

/- Storing sorted entries in turn gives those entries. -/
theorem foldl_insert_append
    {before entries : List (Address × α)}
    (hSorted : Sorted (before ++ entries)) :
    entries.foldl (fun sorted p => insert p.1 p.2 sorted)
      before = before ++ entries := by
  induction entries generalizing before with
  | nil => simp
  | cons p rest ih =>
      have hLast : ∀ q ∈ before, q.1 < p.1 := fun q hq =>
        (List.pairwise_append.mp hSorted.1).2.2 q hq p
          List.mem_cons_self
      have hSplit :
          before ++ p :: rest = before ++ [p] ++ rest := by
        simp
      rw [List.foldl_cons, insert_of_forall_lt hLast, hSplit]
      rw [hSplit] at hSorted
      exact ih hSorted

end Entries

namespace CellMap

variable {α : Type}

/- Storing entries keeps those that were stored before. -/
theorem entries_foldl_insert
    (entries : List (Address × α))
    (hKeys : ∀ p ∈ entries, p.1.relative = p.1)
    (m : CellMap α) :
    (entries.foldl (fun m p => m.insert p.1 p.2) m).entries
      = entries.foldl
        (fun sorted p => Entries.insert p.1 p.2 sorted)
        m.entries := by
  induction entries generalizing m with
  | nil => rfl
  | cons p rest ih =>
      have hp := hKeys p List.mem_cons_self
      have hRest :=
        fun q hq => hKeys q (List.mem_cons_of_mem p hq)
      have hInsert :
          (m.insert p.1 p.2).entries
            = Entries.insert p.1 p.2 m.entries :=
        congrArg (Entries.insert · p.2 m.entries) hp
      rw [List.foldl_cons, List.foldl_cons, ih hRest, hInsert]

end CellMap

------------------------------------------------------------
-- Lists Of Readings
------------------------------------------------------------

section Readings

variable {α β : Type}
variable {f : α → Option β}

/- Readings that all succeed. -/
theorem mapM_eq_some_map
    {g : α → β}
    {items : List α}
    (h : ∀ a ∈ items, f a = some (g a)) :
    items.mapM f = some (items.map g) := by
  induction items with
  | nil => rfl
  | cons a rest ih =>
      have hRest := ih fun b hb => h b (List.mem_cons_of_mem a hb)
      rw [List.mapM_cons, h a List.mem_cons_self, hRest]
      rfl

/- One reading that fails. -/
theorem mapM_eq_none
    {a : α}
    {items : List α}
    (hMem : a ∈ items)
    (ha : f a = none) : items.mapM f = none := by
  induction items with
  | nil => exact absurd hMem List.not_mem_nil
  | cons b rest ih =>
      rw [List.mapM_cons]
      rcases List.mem_cons.mp hMem with rfl | hRest
      · rw [ha]
        rfl
      · rw [ih hRest]
        cases f b <;> rfl

end Readings

------------------------------------------------------------
-- Sheets
------------------------------------------------------------

namespace Sheet

/- What is left of a sheet. -/
def kept
    (sheet : Sheet) : Sheet :=
  { sheet with cells := sheet.cells.map Cell.kept }

/- Whether a number stands in a cell of a sheet. -/
def HoldsNumber
    (sheet : Sheet)
    (x : Float) : Prop :=
  ∃ p ∈ sheet.cells.entries, p.2 = .literal (.number x)

/- Every address of a sheet can be read when written. -/
def Fits
    (sheet : Sheet) : Prop :=
  ∀ p ∈ sheet.cells.entries, p.1.Fits

/- The finite doubles of a sheet read back. -/
def DoublesReadBack
    (sheet : Sheet)
    (format : FileFormat) : Prop :=
  ∀ x : Float, sheet.HoldsNumber x → x.isFinite = true →
    format.ReadsBack x

/- The addresses are left as they are. -/
theorem fits_kept_iff
    (sheet : Sheet) : sheet.kept.Fits ↔ sheet.Fits :=
  List.forall_mem_map

theorem withoutParsed_kept
    (sheet : Sheet) : sheet.kept.withoutParsed = sheet.kept := by
  simp only [kept, withoutParsed, CellMap.map_map,
    Cell.withoutParsed_kept]

------------------------------------------------------------
-- Writing Sheets
------------------------------------------------------------

/- The fields that are written for the cells. -/
def fields
    (sheet : Sheet) : List (String × Json) :=
  sheet.cells.entries.map fun p => (p.1.text, p.2.toJson)

theorem fieldsWithNulls_fields
    (sheet : Sheet) :
    Json.fieldsWithNulls sheet.fields = sheet.kept.fields := by
  rw [Json.fieldsWithNulls_eq]
  simp only [fields, kept, CellMap.map, List.map_map,
    Function.comp_def, Cell.withNulls_toJson]

/- What is left of a sheet is what is written for it. -/
theorem withNulls_toJson
    (sheet : Sheet)
    (format : FileFormat) :
    (sheet.toJson format).withNulls
      = sheet.kept.toJson format := by
  have hFields := sheet.fieldsWithNulls_fields
  unfold fields at hFields
  simp only [toJson, Json.withNulls, Json.fieldsWithNulls,
    hFields]
  rfl

/- Cells stand within the list of cells within the sheet. -/
theorem depth_toJson_le
    (sheet : Sheet)
    (format : FileFormat) : (sheet.toJson format).depth ≤ 3 := by
  have hFields : Json.depthOfFields sheet.fields ≤ 1 := by
    apply Json.depthOfFields_le
    intro field hField
    rcases List.mem_map.mp hField with ⟨p, hp, rfl⟩
    exact (Cell.isShallow_toJson p.2).2.le
  unfold fields at hFields
  simp only [toJson, Json.depth, Json.depthOfFields]
  omega

/- What is left of a sheet is a writable value. -/
theorem isWritable_toJson_kept
    {sheet : Sheet}
    {format : FileFormat}
    (hDoubles : sheet.DoublesReadBack format) :
    (sheet.kept.toJson format).IsWritable
      format.ReadsBack := by
  have hCells :
      Json.AreFieldsWritable format.ReadsBack
        sheet.kept.fields := by
    apply Json.areFieldsWritable_of_forall
    intro field hField
    rcases List.mem_map.mp hField with ⟨q, hq, rfl⟩
    rcases List.mem_map.mp hq with ⟨p, hp, rfl⟩
    apply Cell.isWritable_toJson
    intro x hx
    rcases Cell.kept_eq_number hx with ⟨hCell, hFinite⟩
    exact hDoubles x ⟨p, hp, hCell⟩ hFinite
  have hWord : ∀ w : UInt32, w.toNat < UInt64.size := by
    intro w
    have := w.toNat_lt
    simp only [UInt64.size]
    omega
  exact ⟨hCells, hWord _, hWord _, trivial, trivial, trivial⟩

------------------------------------------------------------
-- Reading Sheets
------------------------------------------------------------

/- A map is read back from its entries. -/
theorem cellsOfEntries_entries
    (m : CellMap Cell) : cellsOfEntries m.entries = m := by
  have hSorted : Entries.Sorted ([] ++ m.entries) := m.sorted
  have hFold := Entries.foldl_insert_append hSorted
  unfold cellsOfEntries CellMap.ofList
  apply CellMap.eq_of_entries
  rw [hFold, List.nil_append,
    CellMap.entries_foldl_insert m.entries m.sorted.2]
  exact hFold

/- A field of a cell whose address can be read. -/
theorem entryOfJson?_of_fits
    {a : Address}
    (ha : a.Fits)
    (cell : Cell) :
    entryOfJson? (a.text, cell.toJson)
      = some (a, cell.withoutParsed) := by
  simp only [entryOfJson?, Address.parse_text_of_fits ha,
    Cell.ofJson?_toJson, Option.map_some]

/- A field of a cell whose address cannot be read. -/
theorem entryOfJson?_of_not_fits
    {a : Address}
    (ha : ¬ a.Fits)
    (cell : Cell) :
    entryOfJson? (a.text, cell.toJson) = none := by
  unfold entryOfJson?
  split
  · rfl
  · next b hParse =>
      exact absurd (Address.fits_of_parse_text hParse) ha

theorem cellsOfJson?_fields
    {sheet : Sheet}
    (hFits : sheet.Fits) :
    cellsOfJson? (.object sheet.fields)
      = some (sheet.cells.map Cell.withoutParsed) := by
  have hEntries :
      sheet.fields.mapM entryOfJson?
        = some
          (sheet.cells.map Cell.withoutParsed).entries := by
    unfold fields
    rw [List.mapM_map]
    exact mapM_eq_some_map fun p hp =>
      entryOfJson?_of_fits (hFits p hp) p.2
  simp only [cellsOfJson?, Json.object?, Option.bind_eq_bind,
    Option.bind_some, hEntries, cellsOfEntries_entries]

theorem cellsOfJson?_fields_eq_none
    {sheet : Sheet}
    (hNot : ¬ sheet.Fits) :
    cellsOfJson? (.object sheet.fields) = none := by
  have hEntries :
      sheet.fields.mapM entryOfJson? = none := by
    simp only [Fits, not_forall] at hNot
    rcases hNot with ⟨p, hp, hNot⟩
    exact mapM_eq_none (List.mem_map_of_mem hp)
      (entryOfJson?_of_not_fits hNot p.2)
  simp only [cellsOfJson?, Json.object?, Option.bind_eq_bind,
    Option.bind_some, hEntries, Option.bind_none]

/- A sheet is read from the parts that are written for it. -/
theorem ofJson?_toJson
    {sheet : Sheet}
    {format : FileFormat}
    (hTime : format.KeepsTime sheet.updatedAt) :
    ofJson? format (sheet.toJson format)
      = (cellsOfJson? (.object sheet.fields)).map
        fun cells => { sheet with cells := cells } := by
  have hWord :
      ∀ w : UInt32,
        Json.word? (.natural w.toNat) = some w := by
    intro w
    simp [Json.word?, w.toNat_lt]
  unfold FileFormat.KeepsTime at hTime
  rw [Option.map_eq_bind]
  simp [ofJson?, toJson, Json.valuesOf, Json.field?,
    ofParts?, hWord, Json.text?, hTime, fields,
    Function.comp_def]

end Sheet

------------------------------------------------------------
-- Texts Of Sheets
------------------------------------------------------------

namespace FileFormat

variable {format : FileFormat}
variable {sheet : Sheet}

/-
  The text of a sheet is one of what is left of it, and that
  is read as it was written.
-/
theorem readSheet?_writeSheet_eq
    (hFormat : format.IsLawful)
    (hDoubles : sheet.DoublesReadBack format)
    (hTime : format.KeepsTime sheet.updatedAt) :
    format.readSheet? (format.writeSheet sheet)
      = (Sheet.cellsOfJson? (.object sheet.kept.fields)).map
        fun cells => { sheet with cells := cells } := by
  have hDepth :
      (sheet.kept.toJson format).depth ≤ deepest := by
    have := sheet.kept.depth_toJson_le format
    unfold deepest
    omega
  have hKeptTime : format.KeepsTime sheet.kept.updatedAt :=
    hTime
  unfold readSheet? writeSheet
  rw [hFormat.writesNulls, sheet.withNulls_toJson,
    hFormat.roundTrips _
      (Sheet.isWritable_toJson_kept hDoubles) hDepth,
    Option.bind_some, Sheet.ofJson?_toJson hKeptTime]
  rfl

/- A sheet whose addresses fit is read as what is left. -/
theorem readSheet?_writeSheet
    (hFormat : format.IsLawful)
    (hFits : sheet.Fits)
    (hDoubles : sheet.DoublesReadBack format)
    (hTime : format.KeepsTime sheet.updatedAt) :
    format.readSheet? (format.writeSheet sheet)
      = some sheet.kept := by
  have hKept := sheet.fits_kept_iff.mpr hFits
  rw [readSheet?_writeSheet_eq hFormat hDoubles hTime,
    Sheet.cellsOfJson?_fields hKept, Option.map_some]
  exact congrArg some sheet.withoutParsed_kept

/- A sheet with another address cannot be read at all. -/
theorem readSheet?_writeSheet_eq_none
    (hFormat : format.IsLawful)
    (hNot : ¬ sheet.Fits)
    (hDoubles : sheet.DoublesReadBack format)
    (hTime : format.KeepsTime sheet.updatedAt) :
    format.readSheet? (format.writeSheet sheet) = none := by
  have hKept := mt sheet.fits_kept_iff.mp hNot
  rw [readSheet?_writeSheet_eq hFormat hDoubles hTime,
    Sheet.cellsOfJson?_fields_eq_none hKept, Option.map_none]

end FileFormat

end Spreadsheet
