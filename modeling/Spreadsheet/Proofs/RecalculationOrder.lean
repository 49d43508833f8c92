import Spreadsheet.Proofs.EngineGraph
import Spreadsheet.Proofs.Scheduling

/-
  The order in which an edit recalculates. It starts with
  the edited cell and goes on with what depends on it in the
  graph after the edit, each cell once and after those that
  it reads. As the graph of an engine has no cycle, no cell
  is left over to be placed out of order.

  Key definitions include:
    * `DependencyGraph.Precedes`
    * `Recalculation.Ordered`

  The main result is `Engine.update_ordered`.
-/

namespace Spreadsheet

open Relation DependencyGraph

------------------------------------------------------------
-- Orders Of Dependents
------------------------------------------------------------

namespace DependencyGraph

variable {g : DependencyGraph}
variable {order : List Address}

/- No dependent is found twice. -/
theorem nodup_dependents
    (g : DependencyGraph)
    (a : Address) : (g.dependents a).Nodup := by
  have hNodup := (g.lastSearch_sound a).nodup
  rw [Search.seen, g.lastSearch_queue a, List.append_nil]
    at hNodup
  exact hNodup

/- Each cell of an order comes after those that it reads. -/
def Precedes
    (g : DependencyGraph)
    (order : List Address) : Prop :=
  ∀ a ∈ order, ∀ b ∈ order, b ∈ g.readsOf a →
    order.idxOf b < order.idxOf a

/- Without cycles no cell reads itself. -/
theorem WellFormed.not_mem_readsOf_self
    (h : g.WellFormed)
    (a : Address) : a ∉ g.readsOf a := by
  intro hLoop
  have ⟨hKey, hEdge⟩ := h.mirrored.mem_readsOf_iff.mp hLoop
  rw [hKey] at hEdge
  exact h.acyclic a (.single hEdge)

/-
  If no cell of an order reads one after it, then all that
  it reads comes before it.
-/
theorem precedes_of_pairwise
    (h : g.WellFormed)
    (hOrder : order.Pairwise fun a b => b ∉ g.readsOf a) :
    g.Precedes order := by
  intro a ha b hb hRead
  have hPlaces := List.pairwise_iff_getElem.mp hOrder
  have hPlaceA := List.idxOf_lt_length_of_mem ha
  have hPlaceB := List.idxOf_lt_length_of_mem hb
  rcases Nat.lt_trichotomy (order.idxOf b) (order.idxOf a)
    with hBefore | hSame | hAfter
  · exact hBefore
  · have hEq : a = b := by
      rw [← List.getElem_idxOf hPlaceA,
        ← List.getElem_idxOf hPlaceB]
      simp only [hSame]
    subst hEq
    exact absurd hRead (h.not_mem_readsOf_self a)
  · have hNot := hPlaces _ _ hPlaceA hPlaceB hAfter
    rw [List.getElem_idxOf, List.getElem_idxOf] at hNot
    exact absurd hRead hNot

/-
  The order of the dependents of a cell in a graph without
  cycles.
-/
theorem WellFormed.order_dependents
    (h : g.WellFormed)
    (a : Address) :
    (g.evaluationOrder (g.dependents a)).Nodup
      ∧ g.Precedes (g.evaluationOrder (g.dependents a)) := by
  have ⟨hNodup, hOrder⟩ :=
    evaluationOrder_of_acyclic h.mirrored h.acyclic
      (fun _ hb => relative_of_mem_dependents hb)
      (g.nodup_dependents a)
  exact ⟨hNodup, precedes_of_pairwise h hOrder⟩

/- It is made of the dependents. -/
theorem mem_order_dependents_iff
    {a b : Address} :
    b ∈ g.evaluationOrder (g.dependents a) ↔
      b ∈ g.dependents a := by
  rw [mem_evaluationOrder_iff, Address.map_relative
    fun _ hb => relative_of_mem_dependents hb]

/-
  It starts with the cell itself, because all other
  dependents read another one, which has to come first.
-/
theorem WellFormed.head?_order_dependents
    (h : g.WellFormed)
    (a : Address) :
    (g.evaluationOrder (g.dependents a)).head? =
      some a.relative := by
  have hOrder := (h.order_dependents a).2
  have hMem := @mem_order_dependents_iff g a
  generalize g.evaluationOrder (g.dependents a) = order
    at hOrder hMem
  cases order with
  | nil =>
      have hSelf := hMem.mpr (relative_mem_dependents g a)
      cases hSelf
  | cons b rest =>
      rw [List.head?_cons, Option.some.injEq]
      have hFirst := hMem.mp (List.mem_cons_self (a := b))
      rcases ReflTransGen.cases_tail
          (mem_dependents_iff.mp hFirst) with
        hSame | ⟨c, hPath, hEdge⟩
      · exact hSame
      · have hRead : c.relative ∈ g.readsOf b :=
          (h.mirrored b c).mpr (by
            rw [relative_of_mem_readersOf hEdge]
            exact hEdge)
        have hReads : c.relative ∈ g.dependents a := by
          have hc := mem_dependents_iff.mpr hPath
          rw [relative_of_mem_dependents hc]
          exact hc
        have hBefore := hOrder b List.mem_cons_self
          c.relative (hMem.mpr hReads) hRead
        rw [List.idxOf_cons_self] at hBefore
        exact absurd hBefore (Nat.not_lt_zero _)

end DependencyGraph

------------------------------------------------------------
-- Recalculations
------------------------------------------------------------

/-
  A recalculation that starts with the edited cell, lists it
  and the cells from which edges of a graph lead to it, once
  each and after what they read, and reports the formulas
  among them.
-/
structure Recalculation.Ordered
    (g : DependencyGraph)
    (sheet : Sheet)
    (a : Address)
    (recalculation : Recalculation) : Prop where
  first : recalculation.order.head? = some a.relative
  nodup : recalculation.order.Nodup
  members :
    ∀ b, b ∈ recalculation.order ↔
      b.relative = b ∧
        ReflTransGen (fun x y => y ∈ g.readsOf x) b a.relative
  precedes : g.Precedes recalculation.order
  reports :
    ∀ b, b ∈ recalculation.results.outcomes.keys ↔
      b ∈ recalculation.order
        ∧ Engine.holdsFormula sheet b = true

namespace Engine

variable {engine : Engine}

/- The order of an edit is that of the cell's dependents. -/
theorem order_update
    (engine : Engine)
    (sheet : Sheet)
    (a : Address)
    (cell : Option Cell)
    (now : Timestamp) :
    let after := (engine.update sheet a cell now).2.1
    (engine.update sheet a cell now).1.order =
      after.graph.evaluationOrder
        (after.graph.dependents a) := by
  dsimp only
  rw [graph_update, update_eq]
  rfl

/- An edit reports the formulas among the dependents. -/
theorem mem_reports_update_iff
    (engine : Engine)
    (sheet : Sheet)
    (a : Address)
    (cell : Option Cell)
    (now : Timestamp)
    (b : Address) :
    let after := engine.update sheet a cell now
    b ∈ after.1.results.outcomes.keys ↔
      b ∈ after.2.1.graph.dependents a
        ∧ holdsFormula after.2.2 b = true := by
  dsimp only
  have hPass := @update_pass (fun _ => True) sheet engine a
    cell now trivial fun _ _ _ _ _ => trivial
  have hSheet :
      (engine.update sheet a cell now).2.2 =
        (storeCell sheet a cell).touch now := by
    rw [update_eq]
  have hAffected :
      ∀ c : Address, engine.Affected sheet a cell c ↔
        c.relative ∈
            (engine.update sheet a cell now
              ).2.1.graph.dependents a
          ∧ holdsFormula
            (engine.update sheet a cell now).2.2 c = true := by
    intro c
    rw [graph_update, hSheet]
    exact Iff.rfl
  rw [CellMap.mem_keys_iff]
  constructor
  · rintro ⟨hKey, hSome⟩
    rcases Option.isSome_iff_exists.mp hSome with
      ⟨outcome, hGet⟩
    have hMem :=
      (hAffected b).mp (hPass.outcomes b outcome hGet).1
    rw [hKey] at hMem
    exact hMem
  · rintro ⟨hMem, hFormula⟩
    have hKey := relative_of_mem_dependents hMem
    refine ⟨hKey, ?_⟩
    rcases hPass.covers b ((hAffected b).mpr
      ⟨hKey.symm ▸ hMem, hFormula⟩) with ⟨known, -, hGet, -⟩
    exact Option.isSome_iff_exists.mpr ⟨_, hGet⟩

/-
  Every edit of every sheet with an engine that evaluations
  and edits lead to recalculates in order, by the graph that
  the edit leaves behind.
-/
theorem update_ordered
    (h : Reached engine)
    (sheet : Sheet)
    (a : Address)
    (cell : Option Cell)
    (now : Timestamp) :
    (engine.update sheet a cell now).1.Ordered
      (engine.update sheet a cell now).2.1.graph
      (engine.update sheet a cell now).2.2 a := by
  have hWellFormed :=
    (h.updated sheet a cell now).wellFormed
  have hOrder := engine.order_update sheet a cell now
  have ⟨hNodup, hPrecedes⟩ := hWellFormed.order_dependents a
  dsimp only at hOrder
  constructor
  · rw [hOrder]
    exact hWellFormed.head?_order_dependents a
  · rw [hOrder]
    exact hNodup
  · intro b
    rw [hOrder, mem_order_dependents_iff, mem_dependents_iff,
      hWellFormed.mirrored.reflTransGen_readBy_iff]
  · rw [hOrder]
    exact hPrecedes
  · intro b
    rw [hOrder, mem_order_dependents_iff]
    exact engine.mem_reports_update_iff sheet a cell now b

/-
  A sheet whose first formula reads the second one, and both
  of which read the cell below them. A third formula reads
  itself.
-/
def stackedSheet : Sheet :=
  { Sheet.blank "Stacked" 4 1 .epoch with
    cells := CellMap.ofList
      [(.ofPosition 0 0,
          .formula "=A2+A3"
            (some (.binary .add (.cell (.ofPosition 1 0))
              (.cell (.ofPosition 2 0))))),
        (.ofPosition 1 0,
          .formula "=A3" (some (.cell (.ofPosition 2 0)))),
        (.ofPosition 2 0, .literal (.boolean true)),
        (.ofPosition 3 0,
          .formula "=A4"
            (some (.cell (.ofPosition 3 0))))] }

/- The engine that has evaluated that sheet. -/
def stackedEngine : Engine :=
  ((Engine.new false).evaluateSheet stackedSheet).2.1

/- An edit of the cell that both formulas read. -/
def stackedEdit : Recalculation × Engine × Sheet :=
  stackedEngine.update stackedSheet (.ofPosition 2 0)
    (some (.literal (.boolean false))) .epoch

/- What the formulas read after that edit. -/
theorem readsOf_stackedEdit :
    stackedEdit.2.1.graph.readsOf (.ofPosition 0 0) =
        [.ofPosition 1 0, .ofPosition 2 0]
      ∧ stackedEdit.2.1.graph.readsOf (.ofPosition 1 0) =
        [.ofPosition 2 0] := by
  unfold stackedEdit stackedEngine
  rw [graph_update, graph_evaluateSheet]
  constructor <;> cbv

/- The formula that is read comes before the other one. -/
theorem idxOf_order_stackedEdit :
    stackedEdit.1.order.idxOf (.ofPosition 1 0)
      < stackedEdit.1.order.idxOf (.ofPosition 0 0) := by
  have hOrdered : stackedEdit.1.Ordered stackedEdit.2.1.graph
      stackedEdit.2.2 (.ofPosition 2 0) :=
    update_ordered (.evaluated (.new false) stackedSheet)
      stackedSheet _ _ _
  have ⟨hFirst, hSecond⟩ := readsOf_stackedEdit
  have hReads (a : Address) :
      .ofPosition 2 0 ∈ stackedEdit.2.1.graph.readsOf a →
        a.relative = a → a ∈ stackedEdit.1.order :=
    fun hEdge hKey =>
      (hOrdered.members a).mpr ⟨hKey, .single hEdge⟩
  apply hOrdered.precedes
  · exact hReads _ (by simp [hFirst]) rfl
  · exact hReads _ (by simp [hSecond]) rfl
  · simp [hFirst]

end Engine

end Spreadsheet
