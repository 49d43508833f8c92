import Spreadsheet.Proofs.IncrementalExactness
import Spreadsheet.Proofs.WellFormedGraph

/-
  The graph of an engine after any evaluations and edits.
  The guard keeps it free of cycles and both directions in
  step. In a session all its edges stand for precedents of
  the sheet as it is, and where precedents never made a
  cycle no edge is missing, so that the graph is the one
  that evaluating the sheet anew would build.

  Key definitions include:
    * `DependencyGraph.Invariant`
    * `Engine.Reached`
    * `Sheet.AcyclicPrecedents`

  The main result is `Session.graph_invariant`.
-/

namespace Spreadsheet

open Relation DependencyGraph

------------------------------------------------------------
-- Graphs Of Engines
------------------------------------------------------------

/-
  A graph whose directions are exact inverses of each other
  without empty entries, which holds no markers, and whose
  edges lead from no cell back to it.
-/
structure DependencyGraph.Invariant
    (g : DependencyGraph) : Prop where
  consistent : g.isConsistent = true
  mirrored : g.Mirrored
  filled : g.reads.Filled ∧ g.readers.Filled
  positions :
    ∀ p, p ∈ g.reads.entries ∨ p ∈ g.readers.entries →
      p.1.relative = p.1
        ∧ ∀ b ∈ CellSet.toList p.2, b.relative = b
  acyclic :
    ∀ a, ¬ TransGen (fun x y => y ∈ g.readsOf x) a a
  noLoops : ∀ a, a.relative ∉ g.readsOf a

theorem DependencyGraph.WellFormed.invariant
    {g : DependencyGraph}
    (h : g.WellFormed) : g.Invariant where
  consistent := h.isConsistent
  mirrored := h.mirrored
  filled := ⟨h.reads, h.readers⟩
  positions := by
    have hEntries :
        ∀ (m : Adjacency) p, p ∈ m.entries →
          p.1.relative = p.1
            ∧ ∀ b ∈ CellSet.toList p.2, b.relative = b :=
      fun _ _ hp => ⟨(CellMap.get?_of_mem_entries hp).1,
        fun _ hb => (CellSet.mem_toList_iff.mp hb).1⟩
    rintro p (hp | hp)
    · exact hEntries g.reads p hp
    · exact hEntries g.readers p hp
  acyclic := fun a hCycle =>
    h.acyclic a.relative (h.mirrored.transGen_readBy hCycle)
  noLoops := fun a hLoop =>
    h.acyclic a.relative
      (h.mirrored.transGen_readBy (a := a) (b := a.relative)
        (.single hLoop))

namespace Engine

variable {engine : Engine}
variable {sheet : Sheet}

/- Engines that any evaluations and edits lead to. -/
inductive Reached : Engine → Prop where
  | new
      (explain : Bool) : Reached (Engine.new explain)
  | evaluated
      {engine : Engine}
      (h : Reached engine)
      (sheet : Sheet) :
      Reached (engine.evaluateSheet sheet).2.1
  | updated
      {engine : Engine}
      (h : Reached engine)
      (sheet : Sheet)
      (a : Address)
      (cell : Option Cell)
      (now : Timestamp) :
      Reached (engine.update sheet a cell now).2.1

/- Evaluating a sheet builds its graph anew. -/
theorem graph_evaluateSheet
    (engine : Engine)
    (sheet : Sheet) :
    (engine.evaluateSheet sheet).2.1.graph =
      graphOf sheet.parseFormulas := by
  have hPass := @evaluateSheet_pass (fun _ => True) sheet
    engine trivial fun _ _ _ _ _ => trivial
  rw [hPass.graph]
  rfl

/- When a sheet was last changed does not matter for this. -/
theorem relink_touch
    (g : DependencyGraph)
    (sheet : Sheet)
    (now : Timestamp)
    (a : Address) :
    relink g (sheet.touch now) a = relink g sheet a := by
  unfold relink
  rfl

/- An edit links the formula of one cell anew. -/
theorem graph_update
    (engine : Engine)
    (sheet : Sheet)
    (a : Address)
    (cell : Option Cell)
    (now : Timestamp) :
    (engine.update sheet a cell now).2.1.graph =
      relink engine.graph (storeCell sheet a cell) a := by
  have hPass := @update_pass (fun _ => True) sheet engine a
    cell now trivial fun _ _ _ _ _ => trivial
  rw [hPass.graph]
  rfl

/- So the graph of an engine is always well-formed. -/
theorem Reached.wellFormed
    (h : Reached engine) : engine.graph.WellFormed := by
  induction h with
  | new explain => exact .empty
  | evaluated h sheet ih =>
      rw [graph_evaluateSheet]
      exact .graphOf _
  | updated h sheet a cell now ih =>
      rw [graph_update]
      exact ih.relink _ a

end Engine

------------------------------------------------------------
-- Graphs Of Sessions
------------------------------------------------------------

/- The cells that formulas name make no cycle. -/
def Sheet.AcyclicPrecedents
    (sheet : Sheet) : Prop :=
  ∀ a, ¬ sheet.OnCycle Expr.precedents a

/- Orderly sheets have no cycle of any references. -/
theorem Sheet.Orderly.acyclicPrecedents
    {sheet : Sheet}
    (h : sheet.Orderly) : sheet.AcyclicPrecedents := by
  intro a hCycle
  apply h.acyclic a
  refine TransGen.mono ?_ a a hCycle
  intro x y hRefers
  exact hRefers.mono Engine.precedents_subset_targets

/- Reading all formulas keeps what cells refer to. -/
theorem Sheet.refers_parseFormulas
    (sheet : Sheet)
    (kind : Expr → List Address) :
    sheet.parseFormulas.Refers kind = sheet.Refers kind := by
  funext a b
  unfold Refers expr?
  rw [content?_parseFormulas]

namespace Session

variable {s : Session}

/- A run on sheets of one kind is one on those of another. -/
theorem Run.mono
    {starts : Session → Prop}
    {allowed allowed' : Sheet → Prop}
    (hAllowed : ∀ sheet, allowed sheet → allowed' sheet)
    (hRun : Run starts allowed s) : Run starts allowed' s := by
  induction hRun with
  | start hStart hSheet =>
      exact .start hStart (hAllowed _ hSheet)
  | evaluated _ hSheet ih =>
      exact .evaluated ih (hAllowed _ hSheet)
  | edited _ a cell now hSheet ih =>
      exact .edited ih a cell now (hAllowed _ hSheet)

theorem graph_evaluated
    (s : Session) :
    s.evaluated.engine.graph =
      Engine.graphOf s.evaluated.sheet := by
  rw [sheet_evaluated, ← s.engine.graph_evaluateSheet]
  unfold evaluated
  dsimp only

theorem graph_edited
    (s : Session)
    (a : Address)
    (cell : Option Cell)
    (now : Timestamp) :
    (s.edited a cell now).engine.graph =
      Engine.relink s.engine.graph
        (s.edited a cell now).sheet a := by
  have hGraph := s.engine.graph_update s.sheet a cell now
  rw [sheet_edited, Engine.relink_touch, ← hGraph]
  unfold edited
  dsimp only

/-
  What holds of the graph in every session of a run: it is
  well-formed, and edges stand for precedents of a sheet
  whose formulas have been read.
-/
structure Linked
    (s : Session) : Prop where
  read : s.sheet.AllRead
  wellFormed : s.engine.graph.WellFormed
  edges :
    Engine.EdgesRefer Expr.precedents s.sheet s.engine.graph

theorem linked_evaluated
    (s : Session) : Linked s.evaluated where
  read := s.allRead_evaluated
  wellFormed := by
    rw [graph_evaluated]
    exact .graphOf _
  edges := by
    rw [graph_evaluated]
    exact .graphOf s.allRead_evaluated

theorem linked_edited
    (h : Linked s)
    (a : Address)
    (cell : Option Cell)
    (now : Timestamp) : Linked (s.edited a cell now) where
  read := allRead_edited h.read a cell now
  wellFormed := by
    rw [graph_edited]
    exact h.wellFormed.relink _ a
  edges := by
    rw [graph_edited]
    exact h.edges.relink h.wellFormed.mirrored
      (fun _ hne => (content?_edited_of_ne hne).symm)
      (allRead_edited h.read a cell now)

theorem linked_of_run
    {allowed : Sheet → Prop}
    (hRun : Run JustEvaluated allowed s) : Linked s := by
  induction hRun with
  | start hStart _ =>
      rcases hStart with ⟨before, rfl⟩
      exact linked_evaluated before
  | evaluated _ _ _ => exact linked_evaluated _
  | edited _ a cell now _ ih => exact linked_edited ih a cell now

/- Where precedents made no cycle no edge is missing. -/
theorem draws_precedents_of_run
    (hRun : Run JustEvaluated Sheet.AcyclicPrecedents s) :
    Engine.Draws Expr.precedents s.engine.graph s.sheet := by
  induction hRun with
  | start hStart hSheet =>
      rcases hStart with ⟨before, rfl⟩
      rw [graph_evaluated]
      exact Engine.draws_graphOf before.allRead_evaluated
        (Sheet.linkable_precedents hSheet)
  | evaluated _ hSheet _ =>
      rw [graph_evaluated]
      exact Engine.draws_graphOf (allRead_evaluated _)
        (Sheet.linkable_precedents hSheet)
  | edited hRun a cell now hSheet ih =>
      have hLinked := linked_of_run hRun
      rw [graph_edited]
      exact Engine.draws_relink hLinked.wellFormed.mirrored ih
        (fun _ hne => (content?_edited_of_ne hne).symm)
        (allRead_edited hLinked.read a cell now)
        (Sheet.linkable_precedents hSheet)

/- A new evaluation of the sheet draws the same edges. -/
theorem draws_precedents_evaluated
    (hAcyclic : s.sheet.AcyclicPrecedents) :
    Engine.Draws Expr.precedents s.evaluated.engine.graph
      s.sheet := by
  have hSame :
      s.evaluated.sheet.Refers Expr.precedents =
        s.sheet.Refers Expr.precedents := by
    rw [sheet_evaluated]
    exact Sheet.refers_parseFormulas s.sheet _
  have hDraws : Engine.Draws Expr.precedents
      s.evaluated.engine.graph s.evaluated.sheet := by
    apply draws_precedents_of_run
    apply Run.start ⟨s, rfl⟩
    intro a
    unfold Sheet.OnCycle
    rw [hSame]
    exact hAcyclic a
  intro c x
  rw [hDraws c x, hSame]

/- Sheets of such runs have no cycle of precedents. -/
theorem sheet_of_run
    {starts : Session → Prop}
    {allowed : Sheet → Prop}
    (hRun : Run starts allowed s) : allowed s.sheet := by
  cases hRun with
  | start _ hSheet => exact hSheet
  | evaluated _ hSheet => exact hSheet
  | edited _ _ _ _ hSheet => exact hSheet

/-
  The graph of every engine is consistent, holds positions
  only, and has no cycle. In a session of a run its edges
  stand for precedents of the sheet, and they are exactly
  these, as in a graph that is built anew, if precedents
  made no cycle in any sheet of the run.
-/
theorem graph_invariant :
    (∀ engine, Engine.Reached engine →
      engine.graph.Invariant)
    ∧ (∀ s, Run JustEvaluated (fun _ => True) s →
        ∀ a p, p ∈ s.engine.graph.readsOf a →
          s.sheet.Refers Expr.precedents a p)
    ∧ (∀ s, Run JustEvaluated Sheet.AcyclicPrecedents s →
        (∀ a p, p ∈ s.engine.graph.readsOf a ↔
          s.sheet.Refers Expr.precedents a p)
        ∧ ∀ engine : Engine,
          (engine.evaluateSheet s.sheet).2.1.graph =
            s.engine.graph) := by
  refine ⟨?_, ?_, ?_⟩
  · intro engine hReached
    exact hReached.wellFormed.invariant
  · intro s hRun a p hEdge
    have hLinked := linked_of_run hRun
    have ⟨hKey, hReadBy⟩ :=
      hLinked.wellFormed.mirrored.mem_readsOf_iff.mp hEdge
    have hRefers := hLinked.edges p a.relative hReadBy
    rw [hKey] at hRefers
    exact hRefers
  · intro s hRun
    have hLinked := linked_of_run hRun
    have hDraws := draws_precedents_of_run hRun
    constructor
    · intro a p
      rw [hLinked.wellFormed.mirrored.mem_readsOf_iff,
        hDraws p a.relative]
      constructor
      · rintro ⟨hKey, -, hRefers⟩
        rw [hKey] at hRefers
        exact hRefers
      · rintro ⟨e, hExpr, hMem⟩
        have hKey := Engine.relative_of_mem_precedents hMem
        exact ⟨hKey, Address.relative_relative a, e, hExpr,
          by rw [hKey]; exact hMem⟩
    · intro engine
      have hAcyclic : s.sheet.AcyclicPrecedents :=
        sheet_of_run hRun
      have hAgain := draws_precedents_evaluated
        (s := ⟨engine, s.sheet⟩) hAcyclic
      refine WellFormed.ext ?_ hLinked.wellFormed
        fun c x => (hAgain c x).trans (hDraws c x).symm
      exact (linked_evaluated ⟨engine, s.sheet⟩).wellFormed

/- The graph of an edited session, as if it were built anew. -/
theorem graph_switched :
    ((Engine.new false).evaluateSheet
        switched.sheet).2.1.graph =
      switched.engine.graph := by
  have hRun :
      Run JustEvaluated Sheet.AcyclicPrecedents switched :=
    run_switched.mono fun _ h => h.acyclicPrecedents
  exact (graph_invariant.2.2 switched hRun).2
    (Engine.new false)

end Session

end Spreadsheet
