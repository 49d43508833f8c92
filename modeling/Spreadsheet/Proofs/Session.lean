import Spreadsheet.Proofs.Pass

/-
  An engine together with the sheet that only it changes,
  and the runs such a session can take: evaluating the whole
  sheet and editing single cells, in any order.

  Key definitions include:
    * `Session`
    * `Session.evaluated` and `Session.edited`
    * `Session.Run`
-/

namespace Spreadsheet

------------------------------------------------------------
-- Sessions
------------------------------------------------------------

structure Session where
  engine : Engine
  sheet : Sheet

namespace Session

/- The session after the whole sheet was evaluated. -/
def evaluated
    (s : Session) : Session where
  engine := (s.engine.evaluateSheet s.sheet).2.1
  sheet := (s.engine.evaluateSheet s.sheet).2.2

/- What an edit of one cell reports. -/
def recalculation
    (s : Session)
    (a : Address)
    (cell : Option Cell)
    (now : Timestamp) : Recalculation :=
  (s.engine.update s.sheet a cell now).1

/- The session after one cell was replaced or cleared. -/
def edited
    (s : Session)
    (a : Address)
    (cell : Option Cell)
    (now : Timestamp) : Session where
  engine := (s.engine.update s.sheet a cell now).2.1
  sheet := (s.engine.update s.sheet a cell now).2.2

theorem sheet_evaluated
    (s : Session) :
    s.evaluated.sheet = s.sheet.parseFormulas := by
  unfold evaluated
  rw [Engine.evaluateSheet_eq]

theorem sheet_edited
    (s : Session)
    (a : Address)
    (cell : Option Cell)
    (now : Timestamp) :
    (s.edited a cell now).sheet =
      (Engine.storeCell s.sheet a cell).touch now := by
  unfold edited
  rw [Engine.update_eq]

/- An edit changes the content of its position alone. -/
theorem content?_edited
    (s : Session)
    (a : Address)
    (cell : Option Cell)
    (now : Timestamp)
    (b : Address) :
    (s.edited a cell now).sheet.content? b =
      if b.relative = a.relative then
        cell.map Cell.content
      else s.sheet.content? b := by
  rw [sheet_edited, Sheet.content?_touch]
  exact Sheet.content?_storeCell s.sheet a b cell

/- The contents of all other positions outlast an edit. -/
theorem content?_edited_of_ne
    {s : Session}
    {a b : Address}
    {cell : Option Cell}
    {now : Timestamp}
    (h : b.relative ≠ a.relative) :
    (s.edited a cell now).sheet.content? b =
      s.sheet.content? b := by
  rw [content?_edited, if_neg h]

theorem allRead_evaluated
    (s : Session) : s.evaluated.sheet.AllRead := by
  rw [sheet_evaluated]
  exact s.sheet.allRead_parseFormulas

theorem allRead_edited
    {s : Session}
    (h : s.sheet.AllRead)
    (a : Address)
    (cell : Option Cell)
    (now : Timestamp) :
    (s.edited a cell now).sheet.AllRead := by
  rw [sheet_edited]
  exact (h.storeCell a cell).touch now

------------------------------------------------------------
-- Runs
------------------------------------------------------------

/-
  A run from one of the sessions given, through sessions
  whose sheets are all allowed.
-/
inductive Run
    (starts : Session → Prop)
    (allowed : Sheet → Prop) : Session → Prop where
  | start
      {s : Session}
      (hStart : starts s)
      (hSheet : allowed s.sheet) : Run starts allowed s
  | evaluated
      {s : Session}
      (hRun : Run starts allowed s)
      (hSheet : allowed s.evaluated.sheet) :
      Run starts allowed s.evaluated
  | edited
      {s : Session}
      (hRun : Run starts allowed s)
      (a : Address)
      (cell : Option Cell)
      (now : Timestamp)
      (hSheet : allowed (s.edited a cell now).sheet) :
      Run starts allowed (s.edited a cell now)

/- A session right after its sheet was evaluated. -/
def JustEvaluated
    (s : Session) : Prop :=
  ∃ before, s = evaluated before

/- A session with an engine that has seen no sheet. -/
def Untouched
    (s : Session) : Prop :=
  s.engine = Engine.new s.engine.explain

------------------------------------------------------------
-- Passes Of Sessions
------------------------------------------------------------

/- Evaluating the sheet is a pass over its formulas. -/
theorem evaluated_pass
    (s : Session)
    {holds : CellMap Outcome → Prop}
    (hEmpty : holds CellMap.empty)
    (hKept :
      Engine.KeptBy holds s.engine.explain s.evaluated.sheet
        fun a =>
          Engine.holdsFormula s.evaluated.sheet a = true) :
    Engine.Pass holds (s.engine.fresh s.sheet)
      s.evaluated.sheet
      (fun a =>
        Engine.holdsFormula s.evaluated.sheet a = true)
      s.evaluated.engine
      (s.engine.evaluateSheet s.sheet).1 := by
  have hSame :
      ∀ a, s.sheet.content? a =
        s.evaluated.sheet.content? a := by
    intro a
    rw [sheet_evaluated, Sheet.content?_parseFormulas]
  have hFormula :
      ∀ a, Engine.holdsFormula s.sheet a = true ↔
        Engine.holdsFormula s.evaluated.sheet a = true := by
    intro a
    rw [Sheet.holdsFormula_congr (hSame a)]
  have hPass := Engine.evaluateSheet_pass s.engine hEmpty
    (hKept.of_content (fun a => (hSame a).symm)
      fun a => (hFormula a).mp)
  have hEngine :
      s.evaluated.engine =
        (s.engine.evaluateSheet s.sheet).2.1 := by
    unfold evaluated
    dsimp only
  rw [hEngine]
  exact hPass.of_content hSame hFormula

/- An edit is a pass over the formulas that it affects. -/
theorem edited_pass
    (s : Session)
    (holds : CellMap Outcome → Prop)
    (a : Address)
    (cell : Option Cell)
    (now : Timestamp)
    (hStart :
      holds (s.engine.afterEdit s.sheet a cell).known)
    (hKept :
      Engine.KeptBy holds s.engine.explain
        (s.edited a cell now).sheet
        (s.engine.Affected s.sheet a cell)) :
    Engine.Pass holds (s.engine.afterEdit s.sheet a cell)
      (s.edited a cell now).sheet
      (s.engine.Affected s.sheet a cell)
      (s.edited a cell now).engine
      (s.recalculation a cell now).results := by
  have hSame :
      ∀ b, (Engine.storeCell s.sheet a cell).content? b =
        (s.edited a cell now).sheet.content? b := by
    intro b
    rw [sheet_edited, Sheet.content?_touch]
  have hPass := Engine.update_pass s.engine a cell now hStart
    (hKept.of_content (fun b => (hSame b).symm) fun _ => id)
  have hEngine :
      (s.edited a cell now).engine =
        (s.engine.update s.sheet a cell now).2.1 := by
    unfold edited
    dsimp only
  rw [hEngine]
  unfold recalculation
  exact hPass.of_content hSame fun _ => Iff.rfl

------------------------------------------------------------
-- What An Edit Keeps
------------------------------------------------------------

variable {s : Session}
variable {a b : Address}
variable {cell : Option Cell}
variable {now : Timestamp}
variable {outcome : Outcome}

/- What an edit keeps does not depend on it in the graph. -/
theorem kept_of_get?_afterEdit
    (h :
      (s.engine.afterEdit s.sheet a cell).known.get? b
        = some outcome) :
    b.relative ∉
        (s.engine.afterEdit s.sheet a cell).graph.dependents a
      ∧ s.engine.known.get? b = some outcome := by
  rw [Engine.get?_known_afterEdit] at h
  split at h
  · cases h
  · next hStays => exact ⟨hStays, h⟩

/- It is not what is known of the edited cell. -/
theorem ne_of_get?_afterEdit
    (h :
      (s.engine.afterEdit s.sheet a cell).known.get? b
        = some outcome) : b.relative ≠ a.relative := by
  intro heq
  apply (kept_of_get?_afterEdit h).1
  rw [heq]
  exact DependencyGraph.relative_mem_dependents _ a

/- The formulas that an edit affects are still there. -/
theorem holdsFormula_of_affected
    (h : s.engine.Affected s.sheet a cell b) :
    Engine.holdsFormula (s.edited a cell now).sheet b
      = true := by
  rw [sheet_edited]
  exact h.2

/- So are the formulas of which it keeps what is known. -/
theorem knowsFormulas_afterEdit
    (h : Engine.KnowsFormulas s.sheet s.engine.known) :
    Engine.KnowsFormulas (s.edited a cell now).sheet
      (s.engine.afterEdit s.sheet a cell).known := by
  intro x outcome hGet
  rw [Sheet.holdsFormula_congr
    (content?_edited_of_ne (ne_of_get?_afterEdit hGet))]
  exact h x outcome (kept_of_get?_afterEdit hGet).2

end Session

end Spreadsheet
