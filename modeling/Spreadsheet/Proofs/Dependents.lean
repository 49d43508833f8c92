import Mathlib.Data.List.Perm.Subperm
import Mathlib.Logic.Relation
import Spreadsheet.Proofs.GraphEdges

/-
  The search through the readers of a cell finds exactly the
  cells that depend on it. One round passes on one cell, and
  every cell found but the first stands at the end of an
  edge, so as many rounds as there are edges, and one more,
  leave nothing waiting.

  Main declarations:
    * `DependencyGraph.Search.Sound`
    * `DependencyGraph.Search.step_sound`
    * `DependencyGraph.mem_dependents_iff`
-/

namespace Spreadsheet

namespace DependencyGraph

open Relation

variable {g : DependencyGraph} {a : Address}

------------------------------------------------------------
-- One Round
------------------------------------------------------------

namespace Search

/- All cells found so far, passed on or waiting. -/
def seen
    (s : Search) : List Address :=
  s.found ++ s.queue

/-
  What holds of a search that started at a cell: the cell is
  among those seen, all of them depend on it, none is listed
  twice, and the readers of those passed on are seen too.
-/
structure Sound
    (g : DependencyGraph)
    (start : Address)
    (s : Search) : Prop where
  starts : start ∈ s.seen
  depends : ∀ x ∈ s.seen, ReflTransGen g.ReadBy start x
  nodup : s.seen.Nodup
  closed : ∀ x ∈ s.found, ∀ y, g.ReadBy x y → y ∈ s.seen

/- The readers of a cell that a search has not seen. -/
def fresh
    (g : DependencyGraph)
    (s : Search)
    (x : Address) : List Address :=
  (g.readersOf x).filter fun b =>
    !s.found.contains b && !s.queue.contains b

theorem mem_fresh_iff
    {s : Search}
    {x y : Address} :
    y ∈ fresh g s x ↔ g.ReadBy x y ∧ y ∉ s.seen := by
  simp only [fresh, List.mem_filter, ReadBy, seen,
    List.mem_append, Bool.and_eq_true, Bool.not_eq_true',
    List.contains_eq_mem, decide_eq_false_iff_not, not_or]

/- A round passes on the first cell that waits. -/
theorem step_cons
    {s : Search}
    {x : Address}
    {rest : List Address}
    (h : s.queue = x :: rest) :
    step g s = ⟨s.found ++ [x], rest ++ fresh g s x⟩ := by
  unfold step fresh
  rw [h]

/- A round adds the unseen readers to the cells seen. -/
theorem seen_step_cons
    {s : Search}
    {x : Address}
    {rest : List Address}
    (h : s.queue = x :: rest) :
    (step g s).seen = s.seen ++ fresh g s x := by
  rw [step_cons h]
  simp [seen, h]

/- A round keeps the search sound. -/
theorem step_sound
    {s : Search}
    (h : s.Sound g a) : (step g s).Sound g a := by
  cases hQueue : s.queue with
  | nil =>
      have hSame : step g s = s := by simp [step, hQueue]
      rw [hSame]
      exact h
  | cons x rest =>
      have hSeen := seen_step_cons (g := g) hQueue
      have hx : x ∈ s.seen := by simp [seen, hQueue]
      refine ⟨?_, ?_, ?_, ?_⟩
      · rw [hSeen]
        exact List.mem_append_left _ h.starts
      · intro y hy
        rw [hSeen, List.mem_append] at hy
        rcases hy with hOld | hNew
        · exact h.depends y hOld
        · exact (h.depends x hx).tail (mem_fresh_iff.mp hNew).1
      · rw [hSeen]
        refine List.nodup_append.mpr ⟨h.nodup, ?_, ?_⟩
        · exact (CellMap.nodup_keys _).filter _
        · rintro y hOld z hNew rfl
          exact (mem_fresh_iff.mp hNew).2 hOld
      · intro y hy z hz
        rw [hSeen, List.mem_append]
        rw [step_cons hQueue] at hy
        by_cases hOld : z ∈ s.seen
        · exact Or.inl hOld
        · rcases List.mem_append.mp hy with hy | hy
          · exact Or.inl (h.closed y hy z hz)
          · have hEq : y = x := by simpa using hy
            rw [hEq] at hz
            exact Or.inr (mem_fresh_iff.mpr ⟨hz, hOld⟩)

------------------------------------------------------------
-- All Rounds
------------------------------------------------------------

/- Several rounds keep the search sound. -/
theorem repeat_sound
    {s : Search}
    (h : s.Sound g a)
    (rounds : Nat) :
    (Nat.repeat (step g) rounds s).Sound g a := by
  induction rounds with
  | zero => exact h
  | succ rounds ih => exact step_sound ih

/- Either nothing waits or each round passed on a cell. -/
theorem repeat_progress
    (g : DependencyGraph)
    (s : Search)
    (rounds : Nat) :
    (Nat.repeat (step g) rounds s).queue = []
      ∨ (Nat.repeat (step g) rounds s).found.length
        = s.found.length + rounds := by
  induction rounds with
  | zero => exact Or.inr rfl
  | succ rounds ih =>
      simp only [Nat.repeat]
      generalize Nat.repeat (step g) rounds s = t at ih
      cases hQueue : t.queue with
      | nil =>
          left
          simp [step, hQueue]
      | cons x rest =>
          right
          have hLength := ih.resolve_left (by simp [hQueue])
          rw [step_cons hQueue, List.length_append, hLength]
          simp only [List.length_cons, List.length_nil]
          omega

end Search

------------------------------------------------------------
-- Bounding The Search
------------------------------------------------------------

/- The readers at the ends of all edges. -/
def allReaders
    (g : DependencyGraph) : List Address :=
  g.readers.entries.flatMap fun p => CellSet.toList p.2

/- There are as many ends as there are edges. -/
theorem length_allReaders
    (g : DependencyGraph) :
    g.allReaders.length = g.readers.edgeCount :=
  rfl

/- A reader stands at the end of an edge. -/
theorem ReadBy.mem_allReaders
    {x y : Address}
    (h : g.ReadBy x y) : y ∈ g.allReaders := by
  unfold ReadBy readersOf Adjacency.neighbours
    Adjacency.neighbourSet at h
  cases hGet : g.readers.get? x with
  | none =>
      rw [hGet] at h
      simp [CellSet.toList, CellMap.keys, CellMap.empty] at h
  | some set =>
      rw [hGet] at h
      exact List.mem_flatMap.mpr
        ⟨_, CellMap.get?_eq_some_iff.mp hGet, h⟩

/- What depends on a cell is the cell or ends an edge. -/
theorem mem_cons_allReaders
    {x : Address}
    (h : ReflTransGen g.ReadBy a x) :
    x ∈ a :: g.allReaders := by
  rcases ReflTransGen.cases_tail h with rfl | ⟨y, -, hy⟩
  · exact List.mem_cons_self
  · exact List.mem_cons_of_mem _ hy.mem_allReaders

------------------------------------------------------------
-- Dependents
------------------------------------------------------------

/- The state in which the search for dependents ends. -/
def lastSearch
    (g : DependencyGraph)
    (a : Address) : Search :=
  Nat.repeat (Search.step g) (g.readers.edgeCount + 1)
    ⟨[], [a.relative]⟩

theorem Search.start_sound
    (g : DependencyGraph)
    (a : Address) :
    Search.Sound g a.relative ⟨[], [a.relative]⟩ := by
  refine ⟨?_, ?_, ?_, ?_⟩
  · simp [Search.seen]
  · intro x hx
    have hEq : x = a.relative := by
      simpa [Search.seen] using hx
    rw [hEq]
  · simp [Search.seen]
  · intro x hx
    simp at hx

theorem lastSearch_sound
    (g : DependencyGraph)
    (a : Address) :
    (g.lastSearch a).Sound g a.relative :=
  Search.repeat_sound (Search.start_sound g a) _

/- At the end no cell is left waiting. -/
theorem lastSearch_queue
    (g : DependencyGraph)
    (a : Address) : (g.lastSearch a).queue = [] := by
  have hSound := g.lastSearch_sound a
  rcases Search.repeat_progress g ⟨[], [a.relative]⟩
      (g.readers.edgeCount + 1) with hDone | hLength
  · exact hDone
  · have hSubset :
        (g.lastSearch a).seen ⊆ a.relative :: g.allReaders :=
      fun x hx => mem_cons_allReaders (hSound.depends x hx)
    have hBound :=
      (List.subperm_of_subset hSound.nodup hSubset).length_le
    rw [List.length_cons, length_allReaders] at hBound
    change (g.lastSearch a).found.length = _ at hLength
    simp only [Search.seen, List.length_append, hLength,
      List.length_nil] at hBound
    exact List.length_eq_zero_iff.mp (by omega)

/-
  The dependents of a cell are the cells from which edges
  lead to it, the cell itself among them.
-/
theorem mem_dependents_iff
    {b : Address} :
    b ∈ g.dependents a ↔
      ReflTransGen g.ReadBy a.relative b := by
  have hSound := g.lastSearch_sound a
  have hSeen :
      (g.lastSearch a).seen = (g.lastSearch a).found := by
    rw [Search.seen, g.lastSearch_queue a, List.append_nil]
  change b ∈ (g.lastSearch a).found ↔ _
  constructor
  · intro hb
    exact hSound.depends b (hSeen ▸ hb)
  · intro hReach
    induction hReach with
    | refl => exact hSeen ▸ hSound.starts
    | tail _ hEdge ih =>
        exact hSeen ▸ hSound.closed _ ih _ hEdge

/- Edges lead from positions to positions only. -/
theorem relative_of_reflTransGen
    {b : Address}
    (h : ReflTransGen g.ReadBy a.relative b) :
    b.relative = b := by
  rcases ReflTransGen.cases_tail h with rfl | ⟨y, -, hy⟩
  · rfl
  · exact relative_of_mem_readersOf hy

/- Dependents are listed without markers. -/
theorem relative_of_mem_dependents
    {b : Address}
    (h : b ∈ g.dependents a) : b.relative = b :=
  relative_of_reflTransGen (mem_dependents_iff.mp h)

/- A cell is among its own dependents. -/
theorem relative_mem_dependents
    (g : DependencyGraph)
    (a : Address) : a.relative ∈ g.dependents a :=
  mem_dependents_iff.mpr .refl

end DependencyGraph

end Spreadsheet
