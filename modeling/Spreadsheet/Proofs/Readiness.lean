import Spreadsheet.Proofs.CycleDetection
import Spreadsheet.Proofs.NestedEvaluation
import Spreadsheet.Proofs.SheetGraph

/-
  Cells that are evaluated without evaluating other cells,
  because every formula that they refer to is known. On tidy
  sheets a pass makes each of its cells known, so its cells
  are ready in time if none comes before one that it refers
  to.

  Key definitions include:
    * `Sheet.Tidy`
    * `Sheet.Ready`
    * `Engine.PassInOrder`

  Main declarations:
    * `Sheet.ready_of_known`
    * `Engine.known_evaluateCells`
    * `Engine.ready_of_order`
-/

namespace Spreadsheet

open Relation DependencyGraph

------------------------------------------------------------
-- Tidy Sheets
------------------------------------------------------------

/-
  An orderly sheet of which all formulas can be read, and
  that stores no circular reference.
-/
structure Sheet.Tidy
    (sheet : Sheet) : Prop extends sheet.Orderly where
  readable :
    ∀ a source e,
      sheet.content? a ≠ some (.formula source (.error e))
  noneCircular :
    ∀ a message,
      sheet.content? a ≠ some (.error .cycle message)

namespace Sheet

variable {sheet : Sheet}
variable {known : CellMap Outcome}
variable {a : Address}

/- Nothing on a tidy sheet leads to a circular reference. -/
theorem Tidy.not_cycleCause
    (h : sheet.Tidy)
    (a : Address) : ¬ sheet.CycleCause a := by
  rintro (⟨b, -, hCycle⟩ | ⟨b, message, -, hContent⟩)
  · exact h.acyclic b hCycle
  · exact h.noneCircular b message hContent

/- So every outcome on it is kept. -/
theorem Tidy.hasCode_evaluateCellWith
    (h : sheet.Tidy)
    (hKnown : NoneCircular known)
    (explain : Bool)
    (a : Address) :
    (sheet.evaluateCellWith known explain a).outcome.hasCode
      .cycle = false := by
  rw [Bool.eq_false_iff]
  intro hCode
  exact h.not_cycleCause a
    (cycleCause_of_evaluateCellWith hKnown hCode)

------------------------------------------------------------
-- Cells With All References Known
------------------------------------------------------------

/-
  A cell can be evaluated without evaluating any other one:
  of each formula that it refers to the outcome is known,
  and is what reading it gives. So no reference calls for
  more, and no other cell is evaluated.
-/
structure Ready
    (sheet : Sheet)
    (known : CellMap Outcome)
    (a : Address) : Prop where
  answered :
    ∀ y, sheet.Refers Expr.targets a y →
      Engine.holdsFormula sheet y = true →
      ∃ outcome, known.get? y = some outcome
        ∧ sheet.readReference known [a.relative] y =
          outcome.toResult
  flat :
    ∀ visited y,
      ReflTransGen (sheet.Makes known)
        (.cell [] a) (.reference visited y) →
      ∀ call, ¬ sheet.Makes known (.reference visited y) call
  alone :
    ∀ visited y,
      ReflTransGen (sheet.Makes known)
        (.cell [] a) (.cell visited y) →
      visited = [] ∧ y = a

/-
  A call that can be made for a cell while no other cell is
  evaluated: for the cell, a part of its formula or a cell
  that it refers to.
-/
def MadeFor
    (sheet : Sheet)
    (a : Address) : Call → Prop
  | .expression _ e =>
      ∀ y ∈ e.targets, sheet.Refers Expr.targets a y
  | .reference _ y => sheet.Refers Expr.targets a y
  | .cell visited y => visited = [] ∧ y = a

/- If references are answered no other call is made. -/
theorem madeFor_of_makes
    (hKnown :
      ∀ y, sheet.Refers Expr.targets a y →
        Engine.holdsFormula sheet y = true →
        known.get? y ≠ none)
    {call call' : Call}
    (hMakes : sheet.Makes known call call')
    (h : sheet.MadeFor a call) : sheet.MadeFor a call' := by
  cases hMakes with
  | left => exact fun y hy => h y (List.mem_append_left _ hy)
  | right =>
      exact fun y hy => h y (List.mem_append_right _ hy)
  | operand => exact h
  | argument hMem =>
      exact fun y hy =>
        h y (Expr.targets_subset_targetsOfAll hMem hy)
  | target => exact h _ List.mem_cons_self
  | member hMem => exact h _ hMem
  | formula hVisited hFormula hNone =>
      exact absurd hNone (hKnown _ h hFormula)
  | body hVisited hExpr =>
      rcases h with ⟨-, rfl⟩
      exact fun y hy => ⟨_, hExpr, hy⟩

/-
  A cell is ready once all formulas that it refers to are
  known, unless it refers to itself.
-/
theorem ready_of_known
    (hSelf : ¬ sheet.Refers Expr.targets a a.relative)
    (hKnown :
      ∀ y, sheet.Refers Expr.targets a y →
        Engine.holdsFormula sheet y = true →
        known.get? y ≠ none) :
    sheet.Ready known a := by
  have hCalls :
      ∀ call, ReflTransGen (sheet.Makes known)
        (.cell [] a) call → sheet.MadeFor a call := by
    intro call hPath
    induction hPath with
    | refl => exact ⟨rfl, rfl⟩
    | tail _ hMakes ih =>
        exact madeFor_of_makes hKnown hMakes ih
  constructor
  · intro y hRefers hFormula
    rcases Option.ne_none_iff_exists'.mp
        (hKnown y hRefers hFormula) with ⟨outcome, hGet⟩
    refine ⟨outcome, hGet, ?_⟩
    have hKey : y.relative = y := by
      rcases hRefers with ⟨e, -, hMem⟩
      exact Expr.relative_of_mem_targets e hMem
    have hOther : y.relative ∉ [a.relative] := by
      intro hMem
      rw [List.mem_singleton, hKey] at hMem
      exact hSelf (hMem ▸ hRefers)
    rw [readReference_eq, if_neg hOther]
    rw [holdsFormula_eq] at hFormula
    rcases (Option.any_eq_true _ _).mp hFormula with
      ⟨content, hContent, hIs⟩
    rw [hContent]
    cases content with
    | literal value => cases hIs
    | error code message => cases hIs
    | formula source reading =>
        dsimp only
        rw [hGet]
  · intro visited y hPath call hMakes
    have hRefers : sheet.Refers Expr.targets a y :=
      hCalls _ hPath
    cases hMakes with
    | formula hVisited hFormula hNone =>
        exact hKnown y hRefers hFormula hNone
  · intro visited y hPath
    exact hCalls _ hPath

end Sheet

------------------------------------------------------------
-- Passes In Order
------------------------------------------------------------

namespace Engine

variable {sheet : Sheet}
variable {start : Engine}
variable {cells : List Address}

/-
  On a tidy sheet a pass makes all its cells known, besides
  those that were known before it.
-/
theorem known_evaluateCells
    (hTidy : sheet.Tidy)
    (hStart : Sheet.NoneCircular start.known)
    (cells : List Address) :
    Sheet.NoneCircular (start.evaluateCells sheet cells).1.known
      ∧ ∀ x,
        ((start.evaluateCells sheet cells).1.known.get? x
          ).isSome = true ↔
          x.relative ∈ cells.map Address.relative
            ∨ (start.known.get? x).isSome = true := by
  unfold evaluateCells
  induction cells using List.reverseRecOn with
  | nil =>
      refine ⟨hStart, fun x => ?_⟩
      simp
  | append_singleton cells a ih =>
      rw [List.foldl_append, List.foldl_cons, List.foldl_nil]
      generalize cells.foldl (evaluateNext sheet)
        (start, Results.empty) = state at ih
      have hOther := hTidy.hasCode_evaluateCellWith ih.1
        state.1.explain a
      have hKept :
          (evaluateNext sheet state a).1.known =
            state.1.known.insert a
              (state.1.evaluateCell sheet a).outcome := by
        simp only [evaluateNext, evaluateCell, hOther,
          Bool.false_eq_true, ↓reduceIte]
      rw [hKept]
      constructor
      · intro x outcome hGet
        rcases CellMap.get?_insert_eq_some hGet with
          ⟨-, rfl⟩ | hBefore
        · exact hOther
        · exact ih.1 x outcome hBefore
      · intro x
        rw [CellMap.get?_insert, List.map_append,
          List.mem_append, List.map_singleton,
          List.mem_singleton]
        split
        · next hSame => simp [hSame]
        · next hne =>
            rw [ih.2 x]
            simp [hne]

/-
  A pass over the cells of a set that never goes deeper: it
  evaluates each of them once, and each of them is ready
  when the pass comes to it.
-/
structure PassInOrder
    (start : Engine)
    (sheet : Sheet)
    (among : Address → Prop)
    (cells : List Address)
    (after : Engine)
    (results : Results) : Prop where
  run : start.evaluateCells sheet cells = (after, results)
  once : cells.Nodup
  members : ∀ a, a ∈ cells ↔ a.relative = a ∧ among a
  ready :
    ∀ before a rest, cells = before ++ a :: rest →
      sheet.Ready (start.evaluateCells sheet before).1.known a

/-
  On a tidy sheet all cells of a pass are ready in time if
  none comes before one that it refers to, and every formula
  is known or comes up in the pass.
-/
theorem ready_of_order
    (hTidy : sheet.Tidy)
    (hStart : Sheet.NoneCircular start.known)
    (hOrder :
      cells.Pairwise fun a b =>
        ¬ sheet.Refers Expr.targets a b)
    (hCovers :
      ∀ y, holdsFormula sheet y = true →
        y.relative ∈ cells
          ∨ (start.known.get? y).isSome = true)
    (before : List Address)
    (a : Address)
    (rest : List Address)
    (hCells : cells = before ++ a :: rest) :
    sheet.Ready (start.evaluateCells sheet before).1.known
      a := by
  have hSelf : ¬ sheet.Refers Expr.targets a a.relative := by
    intro hRefers
    exact hTidy.acyclic a.relative
      (.single (Sheet.refers_relative_iff.mpr hRefers))
  apply Sheet.ready_of_known hSelf
  intro y hRefers hFormula
  have hKey : y.relative = y := by
    rcases hRefers with ⟨e, -, hMem⟩
    exact Expr.relative_of_mem_targets e hMem
  have hSome := (known_evaluateCells hTidy hStart before).2 y
  rw [← Option.isSome_iff_ne_none, hSome]
  rcases hCovers y hFormula with hMem | hBefore
  · left
    rw [hKey, hCells] at hMem
    rcases List.mem_append.mp hMem with hEarly | hLate
    · exact List.mem_map.mpr ⟨y, hEarly, rfl⟩
    · rw [hCells] at hOrder
      have hAfter :=
        (List.pairwise_cons.mp
          (List.pairwise_append.mp hOrder).2.1).1
      rcases List.mem_cons.mp hLate with rfl | hLater
      · exact absurd (by rw [hKey]; exact hRefers) hSelf
      · exact absurd hRefers (hAfter y hLater)
  · exact Or.inr hBefore

end Engine

end Spreadsheet
