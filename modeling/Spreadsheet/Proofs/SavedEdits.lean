import Spreadsheet.CommandLine.Response
import Spreadsheet.Proofs.ReadSheets
import Spreadsheet.Proofs.Session
import Spreadsheet.Proofs.StandardFormat

/-
  What is left of an edited sheet when it has been saved and
  is read again, in any format that keeps to the laws. The
  sheet was read before it was edited, so all that can be
  lost is what the edit stores: a number that is not finite,
  or a cell at a position whose address cannot be read.

  Main declarations:
    * `FileFormat.readSheet?_writeSheet_eq_iff`
    * `Session.saved_editReport`
    * `Edit.IsSaved`
    * `Session.readSheet?_writeSheet_edited_iff`
    * `Session.not_readSheet?_writeSheet_infinity`
-/

namespace Spreadsheet

------------------------------------------------------------
-- Sheets That Come Back
------------------------------------------------------------

namespace Cell

theorem isFinite_withoutParsed
    (cell : Cell) :
    cell.withoutParsed.IsFinite ↔ cell.IsFinite := by
  cases cell <;> rfl

theorem isFinite_tryParse
    (cell : Cell) :
    cell.tryParse.IsFinite ↔ cell.IsFinite := by
  rw [← isFinite_withoutParsed, withoutParsed_tryParse,
    isFinite_withoutParsed]

end Cell

namespace Sheet

/- Every cell comes back under its own address. -/
def IsSaved
    (sheet : Sheet) : Prop :=
  ∀ p ∈ sheet.cells.entries, p.1.Fits ∧ p.2.IsFinite

theorem kept_eq_iff
    (sheet : Sheet) :
    sheet.kept = sheet.withoutParsed ↔
      ∀ p ∈ sheet.cells.entries, p.2.IsFinite := by
  simp only [kept, withoutParsed, mk.injEq, and_true,
    CellMap.map_eq_map_iff, Cell.kept_eq_iff]

/- The cells of a sheet whose expressions were dropped. -/
theorem mem_of_withoutParsed
    {sheet opened : Sheet}
    {p : Address × Cell}
    (hOpened : opened.withoutParsed = sheet)
    (hp : p ∈ opened.cells.entries) :
    (p.1, p.2.withoutParsed) ∈ sheet.cells.entries := by
  rw [← hOpened]
  exact List.mem_map_of_mem
    (f := fun p => (p.1, p.2.withoutParsed)) hp

/-
  A sheet that was read comes back, also with expressions of
  its formulas added to it.
-/
theorem WellRead.isSaved
    {sheet opened : Sheet}
    (h : sheet.WellRead)
    (hOpened : opened.withoutParsed = sheet) :
    opened.IsSaved := by
  intro p hp
  have hMem := mem_of_withoutParsed hOpened hp
  have hFits : p.1.Fits :=
    h.fits (p.1, p.2.withoutParsed) hMem
  have hFinite := (h.fresh _ hMem).finite
  exact ⟨hFits,
    (Cell.isFinite_withoutParsed p.2).mp hFinite⟩

end Sheet

/- Nothing else comes back from what is written. -/
theorem FileFormat.readSheet?_writeSheet_eq_iff
    {format : FileFormat}
    {sheet : Sheet}
    (hFormat : format.IsLawful)
    (hDoubles : sheet.DoublesReadBack format)
    (hTime : format.KeepsTime sheet.updatedAt) :
    format.readSheet? (format.writeSheet sheet)
        = some sheet.withoutParsed ↔
      sheet.IsSaved := by
  by_cases hFits : sheet.Fits
  · rw [readSheet?_writeSheet hFormat hFits hDoubles hTime,
      Option.some.injEq, Sheet.kept_eq_iff]
    exact ⟨fun h p hp => ⟨hFits p hp, h p hp⟩,
      fun h p hp => (h p hp).2⟩
  · rw [readSheet?_writeSheet_eq_none hFormat hFits hDoubles
      hTime]
    refine ⟨fun h => by simp at h, fun h => ?_⟩
    exact absurd (fun p hp => (h p hp).1) hFits

------------------------------------------------------------
-- Storing A Cell
------------------------------------------------------------

namespace Sheet

variable {sheet : Sheet}
variable {a : Address}
variable {cell : Option Cell}

theorem mem_storeCell
    {stored : Cell}
    (h : cell = some stored) :
    (a.relative, stored.tryParse)
      ∈ (Engine.storeCell sheet a cell).cells.entries := by
  subst h
  apply CellMap.get?_eq_some_iff.mp
  show (sheet.cells.insert a stored.tryParse).get? a = _
  rw [CellMap.get?_insert, if_pos rfl]

/- Every cell of the sheet was there before or is stored. -/
theorem mem_or_eq_of_mem_storeCell
    {p : Address × Cell}
    (hp :
      p ∈ (Engine.storeCell sheet a cell).cells.entries) :
    p ∈ sheet.cells.entries
      ∨ ∃ stored, cell = some stored
        ∧ p = (a.relative, stored.tryParse) := by
  cases cell with
  | none => exact .inl (List.mem_filter.mp hp).1
  | some stored =>
      rcases Entries.mem_insert hp with hNew | hOld
      · exact .inr ⟨stored, rfl, hNew⟩
      · exact .inl hOld

end Sheet

namespace Edit

/-
  What an edit stores comes back. A formula needs an address
  that can be read, and a number has to be finite as well.
-/
def IsSaved
    (a : Address) : Edit → Prop
  | clear => True
  | formula _ => a.Fits
  | literal value => a.Fits ∧ value.IsFinite

theorem isSaved_iff
    (a : Address)
    (edit : Edit) :
    edit.IsSaved a ↔
      ∀ cell : Cell, edit.cell? = some cell →
        a.Fits ∧ cell.IsFinite := by
  cases edit <;>
    simp [IsSaved, cell?, Cell.ofSource, Cell.IsFinite]

end Edit

/- Beside cells that come back only that one matters. -/
theorem Sheet.IsSaved.storeCell_iff
    {sheet : Sheet}
    (h : sheet.IsSaved)
    (a : Address)
    (edit : Edit) :
    (Engine.storeCell sheet a edit.cell?).IsSaved ↔
      edit.IsSaved a := by
  rw [edit.isSaved_iff]
  constructor
  · intro hStored cell hCell
    have ⟨hFits, hFinite⟩ :=
      hStored _ (mem_storeCell hCell)
    exact ⟨(Address.fits_relative a).mp hFits,
      (Cell.isFinite_tryParse cell).mp hFinite⟩
  · intro hEdit p hp
    rcases mem_or_eq_of_mem_storeCell hp with
      hOld | ⟨cell, hCell, rfl⟩
    · exact h p hOld
    · have ⟨hFits, hFinite⟩ := hEdit cell hCell
      exact ⟨(Address.fits_relative a).mpr hFits,
        (Cell.isFinite_tryParse cell).mpr hFinite⟩

------------------------------------------------------------
-- Saving An Edit
------------------------------------------------------------

namespace Session

variable {format : FileFormat}

/- What a command saves is the sheet of such a session. -/
theorem saved_editReport
    (format : FileFormat)
    (now : Timestamp)
    (sheet : Sheet)
    (a : Address)
    (typed : String)
    (json : Bool) :
    (editReport format now sheet a typed json true).saved
      = some
        (format.writeSheet
          ((Session.mk (Engine.new false)
            sheet).evaluated.edited a
            (Edit.classify typed).cell? now).sheet) := by
  unfold editReport edited evaluated
  generalize (Engine.new false).evaluateSheet sheet = opened
  rcases opened with ⟨_, engine, sheet⟩
  dsimp only
  generalize engine.update sheet a
    (Edit.classify typed).cell? now = updated
  rcases updated with ⟨_, _, edited⟩
  rfl

/- A sheet that was read is the same after evaluation. -/
theorem withoutParsed_evaluated
    {text : String}
    {sheet : Sheet}
    (engine : Engine)
    (hFormat : format.IsLawful)
    (hRead : format.readSheet? text = some sheet) :
    (Session.mk engine sheet).evaluated.sheet.withoutParsed
      = sheet := by
  have hWell := Sheet.wellRead_of_readSheet? hFormat hRead
  rw [sheet_evaluated, Sheet.withoutParsed_parseFormulas]
  exact hWell.withoutParsed

/-
  An edited sheet comes back from what is written for it,
  with the expressions of its formulas dropped, exactly if
  the edit clears the cell or stores a cell that comes back.
-/
theorem readSheet?_writeSheet_edited_iff
    {text : String}
    {sheet : Sheet}
    {s : Session}
    (hFormat : format.IsLawful)
    (hRead : format.readSheet? text = some sheet)
    (hSheet : s.sheet.withoutParsed = sheet)
    (a : Address)
    (typed : String)
    {now : Timestamp}
    (hNow : format.KeepsTime now)
    (hDoubles :
      (s.edited a (Edit.classify typed).cell?
        now).sheet.DoublesReadBack format) :
    format.readSheet?
        (format.writeSheet
          (s.edited a (Edit.classify typed).cell? now).sheet)
      = some
        (s.edited a (Edit.classify typed).cell?
          now).sheet.withoutParsed ↔
      (Edit.classify typed).IsSaved a := by
  have hWell := Sheet.wellRead_of_readSheet? hFormat hRead
  have hSaved := hWell.isSaved hSheet
  rw [sheet_edited] at hDoubles ⊢
  rw [FileFormat.readSheet?_writeSheet_eq_iff hFormat
    hDoubles hNow]
  exact hSaved.storeCell_iff a (Edit.classify typed)

------------------------------------------------------------
-- Read And Typed Numbers
------------------------------------------------------------

/- The numbers of an edited sheet were read or typed. -/
theorem doublesReadBack_edited
    {sheet : Sheet}
    {s : Session}
    {edit : Edit}
    (hSheet : s.sheet.withoutParsed = sheet)
    (hDoubles : sheet.DoublesReadBack format)
    (hTyped :
      ∀ x : Float, edit = .literal (.number x) →
        x.isFinite = true → format.ReadsBack x)
    (a : Address)
    (now : Timestamp) :
    (s.edited a edit.cell? now).sheet.DoublesReadBack
      format := by
  rintro x ⟨p, hp, hCell⟩ hFinite
  rw [sheet_edited] at hp
  rcases Sheet.mem_or_eq_of_mem_storeCell hp with
    hOld | ⟨cell, hEdit, rfl⟩
  · refine hDoubles x
      ⟨(p.1, p.2.withoutParsed), ?_, ?_⟩ hFinite
    · exact Sheet.mem_of_withoutParsed hSheet hOld
    · rw [hCell]
      rfl
  · have hStored : cell.tryParse = .literal (.number x) :=
      hCell
    have hNumber := cell.withoutParsed_tryParse
    rw [hStored] at hNumber
    refine hTyped x ?_ hFinite
    cases edit <;>
      simp only [Edit.cell?, Option.some.injEq,
        reduceCtorEq] at hEdit <;>
      subst hEdit
    case formula source =>
      simp [Cell.withoutParsed, Cell.ofSource] at hNumber
    case literal value =>
      rw [Cell.literal.inj hNumber]

------------------------------------------------------------
-- A Number That Is Lost
------------------------------------------------------------

open FileFormat (standard standard_isLawful)

/- A text and a formula that reads it. -/
def draft : Sheet :=
  { Sheet.blank "Draft" 100 26 .epoch with
    cells := CellMap.ofList
      [(.ofPosition 0 0, .literal (.text "price")),
        (.ofPosition 0 1, .ofSource "=A1*2")] }

theorem entries_draft :
    draft.cells.entries
      = [(.ofPosition 0 0, .literal (.text "price")),
        (.ofPosition 0 1, .ofSource "=A1*2")] := by
  cbv

theorem doublesReadBack_draft :
    draft.DoublesReadBack standard := by
  rintro x ⟨p, hp, hCell⟩
  rw [entries_draft] at hp
  simp only [List.mem_cons, List.not_mem_nil, or_false] at hp
  rcases hp with rfl | rfl <;>
    simp [Cell.ofSource] at hCell

theorem keepsTime_epoch : standard.KeepsTime .epoch :=
  rfl

theorem readSheet?_writeSheet_draft :
    standard.readSheet? (standard.writeSheet draft)
      = some draft := by
  have hFits : draft.Fits := by
    intro p hp
    rw [entries_draft] at hp
    simp only [List.mem_cons, List.not_mem_nil, or_false]
      at hp
    rcases hp with rfl | rfl <;>
      exact ⟨by decide, by decide⟩
  have hCells : draft.cells.map Cell.kept = draft.cells :=
    CellMap.eq_of_entries (by cbv)
  have hKept : draft.kept = draft := by
    unfold Sheet.kept
    rw [hCells]
  rw [FileFormat.readSheet?_writeSheet standard_isLawful hFits
    doublesReadBack_draft keepsTime_epoch, hKept]

def opened : Session :=
  (Session.mk (Engine.new false) draft).evaluated

theorem withoutParsed_opened :
    opened.sheet.withoutParsed = draft :=
  withoutParsed_evaluated _ standard_isLawful
    readSheet?_writeSheet_draft

/- The sheet with something typed in place of the text. -/
def retyped
    (typed : String) : Sheet :=
  (opened.edited (.ofPosition 0 0)
    (Edit.classify typed).cell? .epoch).sheet

theorem doublesReadBack_retyped
    {typed : String}
    {y : Float}
    (hClassify : Edit.classify typed = .literal (.number y))
    (hReads : y.isFinite = true → standard.ReadsBack y) :
    (retyped typed).DoublesReadBack standard := by
  refine doublesReadBack_edited withoutParsed_opened
    doublesReadBack_draft ?_ (.ofPosition 0 0) .epoch
  intro x hx
  rw [hClassify] at hx
  cases hx
  exact hReads

/- One and a half is written with two digits. -/
theorem readsBack_price : standard.ReadsBack 1.5 := by
  have hValue :
      Json.Numeral.value ⟨false, ['1'], ['5'], none⟩
        = .number 1.5 := by
    have hScale :
        Json.Numeral.scale? (Binary64.ofNat 15) (-1)
          = some 1.5 := by
      unfold Json.Numeral.scale? Json.Numeral.divide
      rw [if_pos (by decide), if_pos (by decide)]
      rfl
    have hSignificand :
        Json.Numeral.significand ⟨false, ['1'], ['5'], none⟩
          = (15, -1) :=
      rfl
    unfold Json.Numeral.value
    simp only [hSignificand, hScale]
    rfl
  exact Json.readsBack_of_take? rfl rfl (by decide) rfl hValue

/- A price is typed in place of the text. -/
theorem readSheet?_writeSheet_price :
    standard.IsLawful
      ∧ standard.readSheet? (standard.writeSheet draft)
        = some draft
      ∧ opened.sheet.withoutParsed = draft
      ∧ standard.KeepsTime .epoch
      ∧ (retyped "1.5").DoublesReadBack standard
      ∧ standard.readSheet?
          (standard.writeSheet (retyped "1.5"))
        = some (retyped "1.5").withoutParsed := by
  have hClassify :
      Edit.classify "1.5" = .literal (.number 1.5) :=
    rfl
  have hDoubles := doublesReadBack_retyped hClassify
    fun _ => readsBack_price
  have hIsSaved :
      (Edit.classify "1.5").IsSaved (.ofPosition 0 0) := by
    rw [hClassify]
    have hFinite : Float.isFinite 1.5 = true := rfl
    exact ⟨⟨by decide, by decide⟩, hFinite⟩
  exact ⟨standard_isLawful, readSheet?_writeSheet_draft,
    withoutParsed_opened, keepsTime_epoch, hDoubles,
    (readSheet?_writeSheet_edited_iff standard_isLawful
      readSheet?_writeSheet_draft withoutParsed_opened
      (.ofPosition 0 0) "1.5" keepsTime_epoch hDoubles).mpr
      hIsSaved⟩

/- What is typed has an address that can be read. -/
theorem fits_retyped
    (typed : String) : (retyped typed).Fits := by
  have hWell :=
    Sheet.wellRead_of_readSheet? standard_isLawful
      readSheet?_writeSheet_draft
  have hSaved := hWell.isSaved withoutParsed_opened
  intro p hp
  unfold retyped at hp
  rw [sheet_edited] at hp
  rcases Sheet.mem_or_eq_of_mem_storeCell hp with
    hOld | ⟨cell, -, rfl⟩
  · exact (hSaved p hOld).1
  · have hFits : (Address.ofPosition 0 0).Fits :=
      ⟨by decide, by decide⟩
    exact hFits

theorem get?_retyped
    {typed : String}
    {value : Value}
    (hClassify : Edit.classify typed = .literal value) :
    (retyped typed).get? (.ofPosition 0 0)
      = some (.literal value) := by
  unfold retyped
  rw [sheet_edited, hClassify]
  exact (CellMap.get?_insert opened.sheet.cells _ _ _).trans
    (if_pos rfl)

/-
  An infinite number is stored when it is typed, and what is
  written for it reads as nothing.
-/
theorem not_readSheet?_writeSheet_infinity :
    (editReport standard .epoch draft (.ofPosition 0 0)
        "Infinity" false true).saved
      = some (standard.writeSheet (retyped "Infinity"))
      ∧ standard.IsLawful
      ∧ standard.readSheet? (standard.writeSheet draft)
        = some draft
      ∧ opened.sheet.withoutParsed = draft
      ∧ standard.KeepsTime .epoch
      ∧ (retyped "Infinity").DoublesReadBack standard
      ∧ (retyped "Infinity").get? (.ofPosition 0 0)
        = some (.literal (.number Binary64.infinity))
      ∧ (standard.readSheet?
          (standard.writeSheet (retyped "Infinity"))).bind
          (·.get? (.ofPosition 0 0))
        = some (.literal .empty)
      ∧ standard.readSheet?
          (standard.writeSheet (retyped "Infinity"))
        ≠ some (retyped "Infinity").withoutParsed := by
  have hClassify :
      Edit.classify "Infinity"
        = .literal (.number Binary64.infinity) :=
    rfl
  have hInfinite : Binary64.infinity.isFinite = false := by
    decide
  have hDoubles := doublesReadBack_retyped hClassify
    fun hFinite => absurd hFinite (by rw [hInfinite]; decide)
  have hGet := get?_retyped hClassify
  have hRead :=
    FileFormat.readSheet?_writeSheet standard_isLawful
      (fits_retyped "Infinity") hDoubles keepsTime_epoch
  have hLost :
      (retyped "Infinity").kept.get? (.ofPosition 0 0)
        = some (.literal .empty) := by
    have hKept :
        Cell.kept (.literal (.number Binary64.infinity))
          = .literal .empty := by
      simp [Cell.kept, Value.kept, hInfinite]
    rw [← hKept]
    exact (CellMap.get?_map _ Cell.kept _).trans
      (congrArg (Option.map Cell.kept) hGet)
  refine ⟨saved_editReport _ _ _ _ _ _, standard_isLawful,
    readSheet?_writeSheet_draft, withoutParsed_opened,
    keepsTime_epoch, hDoubles, hGet, ?_, ?_⟩
  · rw [hRead]
    exact hLost
  · rw [hRead]
    intro hSame
    have hFinite :=
      (Sheet.kept_eq_iff _).mp (Option.some.inj hSame) _
        (CellMap.get?_eq_some_iff.mp hGet)
    exact absurd (hInfinite.symm.trans hFinite) (by decide)

end Session

end Spreadsheet
