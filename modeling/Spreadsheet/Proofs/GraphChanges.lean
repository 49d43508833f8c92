import Mathlib.Data.Finset.Card
import Spreadsheet.Proofs.WellFormedGraph

/-
  Graphs that come about by adding and forgetting edges with
  no guard, so that they may have cycles. What is recorded
  in both directions of such a graph is one set of edges:
  each change of the graph is the same change of the set.

  Key definitions include:
    * `DependencyGraph.Change`
    * `DependencyGraph.afterChanges`
    * `DependencyGraph.edgesAfter`
    * `DependencyGraph.Holds`

  The main result is `DependencyGraph.afterChanges_holds`.
-/

namespace Spreadsheet

namespace DependencyGraph

------------------------------------------------------------
-- Changes
------------------------------------------------------------

/- A change of a graph, or of a set of edges. -/
inductive Change where
  | add (formula target : Address)
  | removeReads (formula : Address)
  | clear
deriving DecidableEq

/- The graph that a change leaves. -/
def Change.applyTo
    (g : DependencyGraph) : Change → DependencyGraph
  | .add formula target => g.add formula target
  | .removeReads formula => g.removeReads formula
  | .clear => DependencyGraph.empty

/-
  The edges that a change leaves. An edge is a pair of the
  positions of a formula and of a cell that it reads.
-/
def Change.applyToEdges
    (edges : Finset (Address × Address)) :
    Change → Finset (Address × Address)
  | .add formula target =>
      insert (formula.relative, target.relative) edges
  | .removeReads formula =>
      edges.filter fun p => p.1 ≠ formula.relative
  | .clear => ∅

/- The graph after changes, made one after another. -/
def afterChanges
    (changes : List Change) : DependencyGraph :=
  changes.foldl Change.applyTo DependencyGraph.empty

/- The edges after changes, made one after another. -/
def edgesAfter
    (changes : List Change) : Finset (Address × Address) :=
  changes.foldl Change.applyToEdges ∅

theorem afterChanges_append
    (changes : List Change)
    (change : Change) :
    afterChanges (changes ++ [change]) =
      change.applyTo (afterChanges changes) := by
  simp only [afterChanges, List.foldl_append,
    List.foldl_cons, List.foldl_nil]

theorem edgesAfter_append
    (changes : List Change)
    (change : Change) :
    edgesAfter (changes ++ [change]) =
      change.applyToEdges (edgesAfter changes) := by
  simp only [edgesAfter, List.foldl_append,
    List.foldl_cons, List.foldl_nil]

------------------------------------------------------------
-- Steps And Runs
------------------------------------------------------------

theorem Paired.applyTo
    {g : DependencyGraph}
    (h : g.Paired)
    (change : Change) : (change.applyTo g).Paired := by
  cases change with
  | add formula target => exact h.add formula target
  | removeReads formula => exact h.removeReads formula
  | clear => exact .empty

/- No change breaks the two directions apart. -/
theorem paired_afterChanges
    (changes : List Change) :
    (afterChanges changes).Paired := by
  induction changes using List.reverseRecOn with
  | nil => exact .empty
  | append_singleton changes change ih =>
      rw [afterChanges_append]
      exact ih.applyTo change

/- What formulas read is given by a set of edges. -/
def ReadsAre
    (g : DependencyGraph)
    (edges : Finset (Address × Address)) : Prop :=
  ∀ a b, g.Reads a b ↔ (a.relative, b) ∈ edges

/- A change of the graph changes the set in the same way. -/
theorem ReadsAre.applyTo
    {g : DependencyGraph}
    {edges : Finset (Address × Address)}
    (h : g.ReadsAre edges)
    (change : Change) :
    (change.applyTo g).ReadsAre
      (change.applyToEdges edges) := by
  intro a b
  cases change with
  | add formula target =>
      simp only [Change.applyTo, Change.applyToEdges, Reads,
        mem_readsOf_add, Finset.mem_insert, Prod.mk.injEq]
      rw [show b ∈ g.readsOf a ↔ _ from h a b, or_comm]
  | removeReads formula =>
      simp only [Change.applyTo, Change.applyToEdges, Reads,
        mem_readsOf_removeReads, Finset.mem_filter]
      rw [show b ∈ g.readsOf a ↔ _ from h a b]
  | clear =>
      simp only [Change.applyTo, Change.applyToEdges,
        Finset.notMem_empty, iff_false]
      exact List.not_mem_nil

theorem readsAre_afterChanges
    (changes : List Change) :
    (afterChanges changes).ReadsAre (edgesAfter changes) := by
  induction changes using List.reverseRecOn with
  | nil =>
      intro a b
      exact iff_of_false List.not_mem_nil
        (Finset.notMem_empty _)
  | append_singleton changes change ih =>
      rw [afterChanges_append, edgesAfter_append]
      exact ih.applyTo change

/- Edges are pairs of positions. -/
theorem relative_of_mem_edgesAfter
    {changes : List Change}
    {p : Address × Address}
    (h : p ∈ edgesAfter changes) :
    p.1.relative = p.1 ∧ p.2.relative = p.2 := by
  induction changes using List.reverseRecOn with
  | nil => exact absurd h (Finset.notMem_empty p)
  | append_singleton changes change ih =>
      rw [edgesAfter_append] at h
      cases change with
      | add formula target =>
          rcases Finset.mem_insert.mp h with rfl | hOld
          · exact ⟨rfl, rfl⟩
          · exact ih hOld
      | removeReads formula =>
          exact ih (Finset.mem_filter.mp h).1
      | clear => exact absurd h (Finset.notMem_empty p)

/- Readers are given by the same set of edges. -/
theorem readBy_afterChanges_iff
    (changes : List Change)
    (a b : Address) :
    (afterChanges changes).ReadBy b a ↔
      (a, b.relative) ∈ edgesAfter changes := by
  have hMirrored := (paired_afterChanges changes).mirrored a b
  have hReads := readsAre_afterChanges changes a b.relative
  constructor
  · intro hEdge
    have hKey := relative_of_mem_readersOf hEdge
    rw [← hKey] at hEdge ⊢
    exact hReads.mp (hMirrored.mpr hEdge)
  · intro hEdge
    have hKey : a.relative = a :=
      (relative_of_mem_edgesAfter hEdge).1
    rw [← hKey] at hEdge ⊢
    exact hMirrored.mp (hReads.mpr hEdge)

/- There are as many edges in the graph as in the set. -/
theorem edgeCount_afterChanges
    (changes : List Change) :
    (afterChanges changes).edgeCount =
      (edgesAfter changes).card := by
  have hPairs :
      (afterChanges changes).reads.pairs.toFinset =
        edgesAfter changes := by
    ext ⟨a, b⟩
    have hReads := readsAre_afterChanges changes a b
    rw [List.mem_toFinset, Adjacency.mem_pairs_iff]
    constructor
    · rintro ⟨hKey, hEdge⟩
      have hMem := hReads.mp hEdge
      rw [hKey] at hMem
      exact hMem
    · intro hMem
      have hKey := (relative_of_mem_edgesAfter hMem).1
      exact ⟨hKey, hReads.mpr (by rw [hKey]; exact hMem)⟩
  rw [edgeCount, ← Adjacency.length_pairs, ← hPairs,
    List.toFinset_card_of_nodup (Adjacency.nodup_pairs _)]

------------------------------------------------------------
-- Both Directions
------------------------------------------------------------

/- Cells that are listed in address order, each once. -/
def Enumerates
    (cells : List Address)
    (members : Set Address) : Prop :=
  cells.Pairwise (· < ·) ∧ ∀ a, a ∈ cells ↔ a ∈ members

/-
  A graph that holds a set of edges: either direction lists
  the other ends of the edges at a cell in address order,
  the number of edges is right, and no entry is empty or
  carries a marker.
-/
structure Holds
    (g : DependencyGraph)
    (edges : Finset (Address × Address)) : Prop where
  consistent : g.isConsistent = true
  reads :
    ∀ a, Enumerates (g.readsOf a)
      {b | (a.relative, b) ∈ edges}
  readers :
    ∀ b, Enumerates (g.readersOf b)
      {a | (a, b.relative) ∈ edges}
  edgeCount : g.edgeCount = edges.card
  filled :
    ∀ p, p ∈ g.reads.entries ∨ p ∈ g.readers.entries →
      CellMap.isEmpty p.2 = false
  positions :
    ∀ p, p ∈ g.reads.entries ∨ p ∈ g.readers.entries →
      p.1.relative = p.1
        ∧ ∀ b ∈ CellSet.toList p.2, b.relative = b

/- Entries of a direction are as its look-ups say. -/
theorem Paired.entry
    {g : DependencyGraph}
    (h : g.Paired)
    {p : Address × CellSet}
    (hp : p ∈ g.reads.entries ∨ p ∈ g.readers.entries) :
    CellMap.isEmpty p.2 = false ∧ p.1.relative = p.1
      ∧ ∀ b ∈ CellSet.toList p.2, b.relative = b := by
  have hMembers :
      ∀ b ∈ CellSet.toList p.2, b.relative = b :=
    fun _ hb => (CellSet.mem_toList_iff.mp hb).1
  rcases hp with hp | hp
  · have ⟨hKey, hGet⟩ := CellMap.get?_of_mem_entries hp
    exact ⟨h.reads _ _ hGet, hKey, hMembers⟩
  · have ⟨hKey, hGet⟩ := CellMap.get?_of_mem_entries hp
    exact ⟨h.readers _ _ hGet, hKey, hMembers⟩

/-
  After any changes, with repeated edges, loops and cycles
  among them, both directions of the graph hold the set of
  edges that the same changes make.
-/
theorem afterChanges_holds
    (changes : List Change) :
    (afterChanges changes).Holds (edgesAfter changes) where
  consistent := (paired_afterChanges changes).isConsistent
  reads := fun a =>
    ⟨CellMap.pairwise_keys _,
      fun b => readsAre_afterChanges changes a b⟩
  readers := fun b =>
    ⟨CellMap.pairwise_keys _,
      fun a => readBy_afterChanges_iff changes a b⟩
  edgeCount := edgeCount_afterChanges changes
  filled := fun _ hp =>
    ((paired_afterChanges changes).entry hp).1
  positions := fun _ hp =>
    ((paired_afterChanges changes).entry hp).2

/- A loop goes with what its formula reads, unlike readers. -/
example :
    let a := Address.ofPosition 0 0
    let b := Address.absolute 1 0
    let g := afterChanges
      [.add a a, .add a b, .add b a, .removeReads a]
    g.readersOf a = [b.relative] ∧ g.readersOf b = []
      ∧ g.edgeCount = 1 := by
  decide

end DependencyGraph

end Spreadsheet
