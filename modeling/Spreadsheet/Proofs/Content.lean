import Spreadsheet.Engine
import Spreadsheet.Proofs.CellMap

/-
  What evaluation sees of a cell: its value, its stored
  error, or its source and what reading the formula gave.
  Whether a formula has been read before makes no difference
  to it, so it is what sheets are compared by.

  Main declarations:
    * `Content` and `Sheet.content?`
    * `Cell.withoutParsed` and `Sheet.withoutParsed`
    * `Sheet.expr?`
    * `Sheet.content?_parseFormulas`
    * `Sheet.content?_storeCell`
    * `Sheet.AllRead`
    * `Sheet.readReference_eq`
    * `Sheet.evaluateCellWith_eq`
-/

namespace Spreadsheet

------------------------------------------------------------
-- Contents
------------------------------------------------------------

/- What a cell holds, with its formula read. -/
inductive Content where
  | literal (value : Value)
  | formula
      (source : String)
      (reading : Except FormulaError Expr)
  | error (code : ErrorCode) (message : String)

namespace Content

def isFormula : Content → Bool
  | formula _ _ => true
  | _ => false

/- The expression, if the content is a formula of one. -/
def expr? : Content → Option Expr
  | formula _ (.ok e) => some e
  | _ => none

end Content

def Cell.content : Cell → Content
  | literal value => .literal value
  | formula source parsed =>
      .formula source (expr source parsed)
  | error code message => .error code message

namespace Cell

@[simp]
theorem isFormula_content
    (cell : Cell) :
    cell.content.isFormula = cell.isFormula := by
  cases cell <;> rfl

/- An attempt to read a formula keeps the content. -/
@[simp]
theorem content_tryParse
    (cell : Cell) : cell.tryParse.content = cell.content := by
  cases cell with
  | literal value => rfl
  | error code message => rfl
  | formula source parsed =>
      cases hExpr : expr source parsed with
      | error e =>
          simp only [tryParse, ensureParsed, hExpr,
            Except.map]
      | ok e =>
          simp only [tryParse, ensureParsed, hExpr,
            Except.map, content]
          rfl

/- After an attempt to read it, every formula that can be
  read has been read. -/
theorem parsed?_tryParse
    (cell : Cell) :
    cell.tryParse.parsed? = cell.content.expr? := by
  cases cell with
  | literal value => rfl
  | error code message => rfl
  | formula source parsed =>
      cases hExpr : expr source parsed with
      | error e =>
          simp only [tryParse, ensureParsed, hExpr,
            Except.map, content, Content.expr?, parsed?]
          cases parsed with
          | none => rfl
          | some e => simp [expr] at hExpr
      | ok e =>
          simp only [tryParse, ensureParsed, hExpr,
            Except.map, content, Content.expr?, parsed?]

end Cell

------------------------------------------------------------
-- Sources Alone
------------------------------------------------------------

namespace Cell

/- A formula as its source alone. -/
def withoutParsed : Cell → Cell
  | formula source _ => ofSource source
  | cell => cell

/- Reading a formula adds nothing to its source. -/
theorem withoutParsed_tryParse
    (cell : Cell) :
    cell.tryParse.withoutParsed = cell.withoutParsed := by
  cases cell with
  | formula source parsed =>
      cases hExpr : expr source parsed <;>
        simp [tryParse, ensureParsed, hExpr, Except.map,
          withoutParsed]
  | _ => rfl

end Cell

namespace Sheet

/- The sheet with its formulas as sources alone. -/
def withoutParsed
    (sheet : Sheet) : Sheet :=
  { sheet with cells := sheet.cells.map Cell.withoutParsed }

theorem withoutParsed_parseFormulas
    (sheet : Sheet) :
    sheet.parseFormulas.withoutParsed
      = sheet.withoutParsed := by
  simp only [parseFormulas, withoutParsed, CellMap.map_map,
    Cell.withoutParsed_tryParse]

end Sheet

------------------------------------------------------------
-- Contents Of Sheets
------------------------------------------------------------

namespace Sheet

/- The content at a position, if there is a cell. -/
def content?
    (sheet : Sheet)
    (a : Address) : Option Content :=
  (sheet.get? a).map Cell.content

/- The expression of the formula at a position, if any. -/
def expr?
    (sheet : Sheet)
    (a : Address) : Option Expr :=
  (sheet.content? a).bind Content.expr?

@[simp]
theorem get?_relative
    (sheet : Sheet)
    (a : Address) : sheet.get? a.relative = sheet.get? a :=
  rfl

@[simp]
theorem content?_relative
    (sheet : Sheet)
    (a : Address) :
    sheet.content? a.relative = sheet.content? a :=
  rfl

@[simp]
theorem expr?_relative
    (sheet : Sheet)
    (a : Address) : sheet.expr? a.relative = sheet.expr? a :=
  rfl

/- The formula behind an expression. -/
theorem content?_of_expr?
    {sheet : Sheet}
    {a : Address}
    {e : Expr}
    (h : sheet.expr? a = some e) :
    ∃ source,
      sheet.content? a = some (.formula source (.ok e)) := by
  rcases Option.bind_eq_some_iff.mp h with
    ⟨content, hContent, hExpr⟩
  match content, hExpr with
  | .formula source (.ok e'), hExpr =>
      have hEq : e' = e := by
        simpa [Content.expr?] using hExpr
      exact ⟨source, hEq ▸ hContent⟩

/- The expression of a formula that can be read. -/
theorem expr?_of_content?
    {sheet : Sheet}
    {a : Address}
    {source : String}
    {e : Expr}
    (h : sheet.content? a = some (.formula source (.ok e))) :
    sheet.expr? a = some e := by
  unfold expr?
  rw [h]
  rfl

/- A cell holds a formula just in case its content is one. -/
theorem holdsFormula_eq
    (sheet : Sheet)
    (a : Address) :
    Engine.holdsFormula sheet a =
      (sheet.content? a).any Content.isFormula := by
  unfold Engine.holdsFormula content?
  cases sheet.get? a with
  | none => rfl
  | some cell => simp

theorem holdsFormula_of_content?
    {sheet : Sheet}
    {a : Address}
    {source : String}
    {reading : Except FormulaError Expr}
    (h : sheet.content? a = some (.formula source reading)) :
    Engine.holdsFormula sheet a = true := by
  rw [holdsFormula_eq, h]
  rfl

/- Whether a cell holds a formula is up to its content. -/
theorem holdsFormula_congr
    {sheet sheet' : Sheet}
    {a b : Address}
    (h : sheet.content? a = sheet'.content? b) :
    Engine.holdsFormula sheet a =
      Engine.holdsFormula sheet' b := by
  rw [holdsFormula_eq, holdsFormula_eq, h]

/- Addresses of the same position have the same content. -/
theorem content?_congr
    {sheet : Sheet}
    {a b : Address}
    (h : a.relative = b.relative) :
    sheet.content? a = sheet.content? b := by
  rw [← content?_relative, h, content?_relative]

/- Reading all formulas keeps every content. -/
@[simp]
theorem content?_parseFormulas
    (sheet : Sheet)
    (a : Address) :
    sheet.parseFormulas.content? a = sheet.content? a := by
  unfold content? parseFormulas get?
  rw [CellMap.get?_map, Option.map_map]
  exact congrArg (Option.map · _)
    (funext Cell.content_tryParse)

/- Storing a cell changes the content of its position. -/
theorem content?_storeCell
    (sheet : Sheet)
    (a b : Address)
    (cell : Option Cell) :
    (Engine.storeCell sheet a cell).content? b =
      if b.relative = a.relative then
        cell.map Cell.content
      else sheet.content? b := by
  cases cell with
  | none =>
      simp only [Engine.storeCell, content?, get?, remove,
        CellMap.get?_erase, Option.map_none]
      split <;> rfl
  | some cell =>
      simp only [Engine.storeCell, content?, get?, set,
        CellMap.get?_insert, Option.map_some]
      split
      · rw [Option.map_some, Cell.content_tryParse]
      · rfl

@[simp]
theorem content?_touch
    (sheet : Sheet)
    (now : Timestamp)
    (a : Address) :
    (sheet.touch now).content? a = sheet.content? a :=
  rfl

------------------------------------------------------------
-- Sheets With Their Formulas Read
------------------------------------------------------------

/-
  Every formula that can be read has been read. An engine
  only ever goes on with such sheets.
-/
def AllRead
    (sheet : Sheet) : Prop :=
  ∀ a, (sheet.get? a).bind Cell.parsed? = sheet.expr? a

theorem allRead_parseFormulas
    (sheet : Sheet) : sheet.parseFormulas.AllRead := by
  intro a
  unfold expr? content? parseFormulas get?
  rw [CellMap.get?_map]
  cases sheet.cells.get? a with
  | none => rfl
  | some cell =>
      simp only [Option.map_some, Option.bind_some,
        Cell.content_tryParse, Cell.parsed?_tryParse]

/- Cells are stored with their formulas read. -/
theorem AllRead.storeCell
    {sheet : Sheet}
    (h : sheet.AllRead)
    (a : Address)
    (cell : Option Cell) :
    (Engine.storeCell sheet a cell).AllRead := by
  intro b
  have hb := h b
  unfold expr? at hb ⊢
  rw [content?_storeCell]
  cases cell with
  | none =>
      unfold Engine.storeCell get? remove
      rw [CellMap.get?_erase]
      split
      · rfl
      · exact hb
  | some cell =>
      unfold Engine.storeCell get? set
      rw [CellMap.get?_insert]
      split
      · exact Cell.parsed?_tryParse cell
      · exact hb

theorem AllRead.touch
    {sheet : Sheet}
    (h : sheet.AllRead)
    (now : Timestamp) : (sheet.touch now).AllRead :=
  h

/- The expressions of a sheet that was read. -/
theorem mem_parsedFormulas_iff
    {sheet : Sheet}
    (h : sheet.AllRead)
    {a : Address}
    {e : Expr} :
    (a, e) ∈ Engine.parsedFormulas sheet ↔
      a.relative = a ∧ sheet.expr? a = some e := by
  rw [← h a, Engine.parsedFormulas, List.mem_filterMap]
  constructor
  · rintro ⟨p, hp, hEq⟩
    rcases Option.map_eq_some_iff.mp hEq with
      ⟨e', hParsed, hPair⟩
    cases hPair
    have ⟨hKey, hGet⟩ := CellMap.get?_of_mem_entries hp
    refine ⟨hKey, ?_⟩
    unfold get?
    rw [hGet]
    exact hParsed
  · rintro ⟨hKey, hExpr⟩
    rcases Option.bind_eq_some_iff.mp hExpr with
      ⟨cell, hGet, hParsed⟩
    have hMem := CellMap.get?_eq_some_iff.mp hGet
    rw [hKey] at hMem
    exact ⟨(a, cell), hMem, by rw [hParsed]; rfl⟩

/- Reading a formula again fails if it could not be read. -/
theorem parseError?_eq_some_iff
    {cell : Cell}
    {e : FormulaError} :
    cell.parseError? = some e ↔
      ∃ source, cell.content = .formula source (.error e) := by
  cases cell with
  | literal value =>
      simp [Cell.parseError?, Cell.ensureParsed, Cell.content]
  | error code message =>
      simp [Cell.parseError?, Cell.ensureParsed, Cell.content]
  | formula source parsed =>
      simp only [Cell.parseError?, Cell.ensureParsed,
        Cell.content, Content.formula.injEq]
      cases Cell.expr source parsed with
      | ok e' => simp [Except.map]
      | error e' => simp [Except.map]

theorem mem_parseFailures_iff
    {sheet : Sheet}
    {a : Address}
    {e : FormulaError} :
    (a, e) ∈ sheet.parseFailures ↔
      a.relative = a ∧
        ∃ source, sheet.content? a =
          some (.formula source (.error e)) := by
  rw [parseFailures, List.mem_filterMap]
  constructor
  · rintro ⟨p, hp, hEq⟩
    rcases Option.map_eq_some_iff.mp hEq with
      ⟨e', hError, hPair⟩
    cases hPair
    have ⟨hKey, hGet⟩ := CellMap.get?_of_mem_entries hp
    rcases parseError?_eq_some_iff.mp hError with
      ⟨source, hContent⟩
    refine ⟨hKey, source, ?_⟩
    unfold content? get?
    rw [hGet, Option.map_some, hContent]
  · rintro ⟨hKey, source, hContent⟩
    rcases Option.map_eq_some_iff.mp hContent with
      ⟨cell, hGet, hCell⟩
    have hMem := CellMap.get?_eq_some_iff.mp hGet
    rw [hKey] at hMem
    refine ⟨(a, cell), hMem, ?_⟩
    rw [parseError?_eq_some_iff.mpr ⟨source, hCell⟩]
    rfl

/- A formula either has an expression or cannot be read. -/
theorem holdsFormula_iff
    {sheet : Sheet}
    {a : Address} :
    Engine.holdsFormula sheet a = true ↔
      (∃ e, sheet.expr? a = some e)
        ∨ ∃ source e, sheet.content? a =
          some (.formula source (.error e)) := by
  rw [holdsFormula_eq]
  unfold expr?
  cases hContent : sheet.content? a with
  | none => simp
  | some content =>
      cases content with
      | literal value =>
          simp [Content.isFormula, Content.expr?]
      | error code message =>
          simp [Content.isFormula, Content.expr?]
      | formula source reading =>
          cases reading with
          | error e =>
              simp [Content.isFormula, Content.expr?]
          | ok e => simp [Content.isFormula, Content.expr?]

------------------------------------------------------------
-- Evaluation By Contents
------------------------------------------------------------

/-
  Reading a reference, by the content of its target. All
  later proofs about reading start from this equation.
-/
theorem readReference_eq
    (sheet : Sheet)
    (known : CellMap Outcome)
    (visited : List Address)
    (t : Address) :
    sheet.readReference known visited t =
      if t.relative ∈ visited then
        .error (.circular t.relative)
      else
        match sheet.content? t with
        | none => .error (.badReference t.relative)
        | some (.literal value) => .ok value
        | some (.error code message) =>
            .error (.propagated code message)
        | some (.formula _ reading) =>
            match known.get? t with
            | some outcome => outcome.toResult
            | none =>
                (Outcome.ofResult
                  (match reading with
                  | .error e => .error e
                  | .ok e =>
                      (e.evaluate
                        (sheet.readReference known
                          (t.relative :: visited))).outcome)
                  ).toResult := by
  rw [readReference]
  split
  · rfl
  · unfold content?
    split
    · next hCell => simp only [hCell, Option.map_none]
    · next value hCell =>
        simp only [hCell, Option.map_some, Cell.content]
    · next code message hCell =>
        simp only [hCell, Option.map_some, Cell.content]
    · next source parsed hCell =>
        cases hGet : known.get? t with
        | some outcome =>
            simp only [hCell, Option.map_some, Cell.content]
        | none =>
            cases hExpr : Cell.expr source parsed <;>
              simp only [hCell, Option.map_some, Cell.content,
                hExpr]

/- Evaluating a cell, by its content. -/
theorem evaluateCellWith_eq
    (sheet : Sheet)
    (known : CellMap Outcome)
    (explain : Bool)
    (t : Address) :
    sheet.evaluateCellWith known explain t =
      match sheet.content? t with
      | none => ⟨.value .empty, none⟩
      | some (.literal value) => ⟨.value value, none⟩
      | some (.error code message) =>
          ⟨.error ⟨code, message⟩, none⟩
      | some (.formula _ (.error e)) =>
          ⟨Outcome.ofResult (.error e), none⟩
      | some (.formula source (.ok e)) =>
          let reads := e.evaluate
            (sheet.readReference known [t.relative])
          match reads.outcome with
          | .error e => ⟨Outcome.ofResult (.error e), none⟩
          | .ok value =>
              ⟨.value value,
                if explain then
                  some (reads.log.map fun reading =>
                    ⟨t.relative, some source, reading⟩)
                else none⟩ := by
  unfold evaluateCellWith evaluateCellIn content?
  cases hCell : sheet.get? t with
  | none => rfl
  | some cell =>
      cases cell with
      | literal value => rfl
      | error code message => rfl
      | formula source parsed =>
          simp only [Option.map_some, Cell.content]
          cases Cell.expr source parsed with
          | error e => rfl
          | ok e =>
              cases hOutcome :
                  (e.evaluate (sheet.readReference known
                    [t.relative])).outcome with
              | error err =>
                  cases explain <;>
                    simp only [List.not_mem_nil, ↓reduceIte,
                      Bool.false_eq_true, Context.evaluate,
                      Context.enableTrace, Context.reader,
                      Context.ofCell, hOutcome]
              | ok value =>
                  cases explain <;>
                    simp only [List.not_mem_nil, ↓reduceIte,
                      Bool.false_eq_true, Context.evaluate,
                      Context.enableTrace, Context.reader,
                      Context.ofCell, hOutcome,
                      Context.record, Context.stepsOf,
                      Address.relative_relative,
                      Option.map_none, Option.map_some,
                      Option.getD_none, List.nil_append,
                      get?_relative, hCell, Option.bind_some,
                      Cell.source?]

/- Evaluation starts from positions, not from markers. -/
@[simp]
theorem evaluateCellWith_relative
    (sheet : Sheet)
    (known : CellMap Outcome)
    (explain : Bool)
    (a : Address) :
    sheet.evaluateCellWith known explain a.relative =
      sheet.evaluateCellWith known explain a := by
  simp only [evaluateCellWith_eq, content?_relative,
    Address.relative_relative]

theorem evaluateCellWith_congr_relative
    {sheet : Sheet}
    {known : CellMap Outcome}
    {explain : Bool}
    {a b : Address}
    (h : a.relative = b.relative) :
    sheet.evaluateCellWith known explain a =
      sheet.evaluateCellWith known explain b := by
  rw [← evaluateCellWith_relative, h,
    evaluateCellWith_relative]

/- Asking for steps does not change an outcome. -/
theorem outcome_evaluateCellWith
    (sheet : Sheet)
    (known : CellMap Outcome)
    (explain : Bool)
    (a : Address) :
    (sheet.evaluateCellWith known explain a).outcome =
      (sheet.evaluateCellWith known false a).outcome := by
  simp only [evaluateCellWith_eq]
  split
  · rfl
  · rfl
  · rfl
  · rfl
  · split <;> rfl

end Sheet

end Spreadsheet
