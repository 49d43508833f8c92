import Mathlib.Order.Lattice.Nat
import Spreadsheet.Proofs.GraphChanges

/-
  The search for dependents goes outwards: nearer cells are
  found before those further away. The cells seen stand in
  the order of their distance from the start, and none is
  more than one edge further away than the first one that
  waits. So a cell that is not seen yet is further away than
  that one, and its readers may go to the end of the queue.

  Key definitions include:
    * `DependencyGraph.ReadsIn`
    * `DependencyGraph.distance`
    * `DependencyGraph.Search.Outward`
    * `DependencyGraph.BreadthFirst`

  The main result is
  `DependencyGraph.dependents_breadthFirst`.
-/

namespace Spreadsheet

namespace DependencyGraph

open Relation

variable {g : DependencyGraph}
variable {a b target : Address}
variable {n : Nat}

------------------------------------------------------------
-- Distances
------------------------------------------------------------

/-
  A path of some number of edges, on which each cell reads
  the next one, up to a target.
-/
inductive ReadsIn
    (g : DependencyGraph)
    (target : Address) : Nat → Address → Prop where
  | refl : ReadsIn g target 0 target
  | head
      {n : Nat}
      {a b : Address}
      (hEdge : g.Reads a b)
      (hRest : ReadsIn g target n b) :
      ReadsIn g target (n + 1) a

/- The number of edges on a shortest path to a target. -/
noncomputable def distance
    (g : DependencyGraph)
    (a target : Address) : Nat :=
  sInf { n | g.ReadsIn target n a }

theorem distance_le
    (h : g.ReadsIn target n a) : g.distance a target ≤ n :=
  Nat.sInf_le h

theorem distance_self
    (g : DependencyGraph)
    (target : Address) : g.distance target target = 0 :=
  Nat.le_zero.mp (distance_le .refl)

theorem ReadsIn.reflTransGen
    (h : g.ReadsIn target n a) :
    ReflTransGen g.Reads a target := by
  induction h with
  | refl => exact .refl
  | head hEdge _ ih => exact ih.head hEdge

/- Where there is a path there is a shortest one. -/
theorem readsIn_distance
    (h : ReflTransGen g.Reads a target) :
    g.ReadsIn target (g.distance a target) a := by
  have hSome : { n | g.ReadsIn target n a }.Nonempty := by
    induction h using ReflTransGen.head_induction_on with
    | refl => exact ⟨0, .refl⟩
    | head hEdge _ ih =>
        rcases ih with ⟨n, hRest⟩
        exact ⟨n + 1, .head hEdge hRest⟩
  exact Nat.sInf_mem hSome

/- A cell is at most one edge further than what it reads. -/
theorem distance_le_succ
    (hEdge : g.Reads a b)
    (h : ReflTransGen g.Reads b target) :
    g.distance a target ≤ g.distance b target + 1 :=
  distance_le (.head hEdge (readsIn_distance h))

/- Only the target itself is no edge away from it. -/
theorem eq_of_distance_eq_zero
    (h : ReflTransGen g.Reads a target)
    (hZero : g.distance a target = 0) : a = target := by
  have hPath := readsIn_distance h
  rw [hZero] at hPath
  cases hPath
  rfl

/- Any other cell reads one that is nearer. -/
theorem exists_nearer
    (h : ReflTransGen g.Reads a target)
    (hDistance : g.distance a target = n + 1) :
    ∃ b, g.Reads a b ∧ ReflTransGen g.Reads b target
      ∧ g.distance b target = n := by
  have hPath := readsIn_distance h
  rw [hDistance] at hPath
  cases hPath with
  | head hEdge hRest =>
      have hAtMost := distance_le hRest
      have hReach := hRest.reflTransGen
      have hAtLeast := distance_le_succ hEdge hReach
      exact ⟨_, hEdge, hReach, by omega⟩

------------------------------------------------------------
-- Going Outwards
------------------------------------------------------------

namespace Search

variable {s : Search}

/-
  What holds of a search that goes outwards: it begins with
  its start, nearer cells are seen first, and no cell is
  seen that is more than one edge further away than the
  first one that waits.
-/
structure Outward
    (g : DependencyGraph)
    (start : Address)
    (s : Search) : Prop where
  first : s.seen.head? = some start
  nearer :
    s.seen.Pairwise fun x y =>
      g.distance x start ≤ g.distance y start
  bounded :
    ∀ x rest, s.queue = x :: rest → ∀ y ∈ s.seen,
      g.distance y start ≤ g.distance x start + 1

/- Cells that are seen read their way back to the start. -/
theorem Sound.reads
    (hMirrored : g.Mirrored)
    (h : s.Sound g a.relative)
    {x : Address}
    (hx : x ∈ s.seen) :
    ReflTransGen g.Reads x a.relative :=
  (hMirrored.reflTransGen_readBy_iff.mp (h.depends x hx)).2

/- A cell that waits is no nearer than the first one. -/
theorem Outward.le_of_mem_queue
    {start x y : Address}
    {rest : List Address}
    (h : s.Outward g start)
    (hQueue : s.queue = x :: rest)
    (hy : y ∈ s.queue) :
    g.distance x start ≤ g.distance y start := by
  have hOrder := h.nearer
  rw [seen, List.pairwise_append, hQueue] at hOrder
  rw [hQueue] at hy
  rcases List.mem_cons.mp hy with rfl | hy
  · exact Nat.le_refl _
  · exact (List.pairwise_cons.mp hOrder.2.1).1 y hy

/-
  All cells as near as the first one that waits are seen. By
  induction on the distance: such a cell reads one that is
  nearer still, and this one was passed on, as it is nearer
  than all that wait.
-/
theorem Outward.mem_seen
    {x z : Address}
    {rest : List Address}
    (hMirrored : g.Mirrored)
    (hSound : s.Sound g a.relative)
    (h : s.Outward g a.relative)
    (hQueue : s.queue = x :: rest)
    (hz : z.relative = z)
    (hPath : ReflTransGen g.Reads z a.relative)
    (hNear :
      g.distance z a.relative ≤ g.distance x a.relative) :
    z ∈ s.seen := by
  generalize hn : g.distance z a.relative = n at hNear
  induction n generalizing z with
  | zero =>
      rw [eq_of_distance_eq_zero hPath hn]
      exact hSound.starts
  | succ n ih =>
      rcases exists_nearer hPath hn with
        ⟨y, hEdge, hRest, hy⟩
      have ⟨hKey, hReader⟩ :=
        hMirrored.mem_readsOf_iff.mp hEdge
      have hSeen := ih hKey hRest hy (by omega)
      rw [hz] at hReader
      rcases List.mem_append.mp hSeen with hFound | hWaits
      · exact hSound.closed y hFound z hReader
      · have := h.le_of_mem_queue hQueue hWaits
        omega

/- New cells are one edge further than what they read. -/
theorem Outward.distance_fresh
    {x y : Address}
    {rest : List Address}
    (hMirrored : g.Mirrored)
    (hSound : s.Sound g a.relative)
    (h : s.Outward g a.relative)
    (hQueue : s.queue = x :: rest)
    (hy : y ∈ fresh g s x) :
    g.distance y a.relative =
      g.distance x a.relative + 1 := by
  have ⟨hReader, hNew⟩ := mem_fresh_iff.mp hy
  have hKey := relative_of_mem_readersOf hReader
  have hx : x ∈ s.seen := by simp [seen, hQueue]
  have hPath := hSound.reads hMirrored hx
  have hxKey := relative_of_reflTransGen (hSound.depends x hx)
  have hEdge : g.Reads y x :=
    hMirrored.mem_readsOf_iff.mpr
      ⟨hxKey, by rw [hKey]; exact hReader⟩
  have hAtMost := distance_le_succ hEdge hPath
  by_contra hOther
  exact hNew (h.mem_seen hMirrored hSound hQueue hKey
    (hPath.head hEdge) (by omega))

/- A cell that waits next is no nearer than the first one. -/
theorem Outward.le_of_mem_queue_step
    {x y : Address}
    {rest : List Address}
    (hMirrored : g.Mirrored)
    (hSound : s.Sound g a.relative)
    (h : s.Outward g a.relative)
    (hQueue : s.queue = x :: rest)
    (hy : y ∈ (step g s).queue) :
    g.distance x a.relative ≤ g.distance y a.relative := by
  rw [step_cons hQueue] at hy
  rcases List.mem_append.mp hy with hOld | hNew
  · exact h.le_of_mem_queue hQueue (by simp [hQueue, hOld])
  · rw [h.distance_fresh hMirrored hSound hQueue hNew]
    omega

/- A round keeps the search going outwards. -/
theorem step_outward
    (hMirrored : g.Mirrored)
    (hSound : s.Sound g a.relative)
    (h : s.Outward g a.relative) :
    (step g s).Outward g a.relative := by
  cases hQueue : s.queue with
  | nil =>
      have hSame : step g s = s := by simp [step, hQueue]
      rw [hSame]
      exact h
  | cons x rest =>
      have hSeen := seen_step_cons (g := g) hQueue
      have hFresh :
          ∀ y ∈ fresh g s x,
            g.distance y a.relative =
              g.distance x a.relative + 1 :=
        fun _ hy =>
          h.distance_fresh hMirrored hSound hQueue hy
      have hBounded := h.bounded x rest hQueue
      refine ⟨?_, ?_, ?_⟩
      · rw [hSeen, List.head?_append, h.first]
        rfl
      · rw [hSeen]
        refine List.pairwise_append.mpr ⟨h.nearer, ?_, ?_⟩
        · refine List.pairwise_of_forall_mem_list ?_
          intro y hy z hz
          rw [hFresh y hy, hFresh z hz]
        · intro y hy z hz
          rw [hFresh z hz]
          exact hBounded y hy
      · intro x' rest' hNext y hy
        have hFurther :
            g.distance x a.relative
              ≤ g.distance x' a.relative :=
          h.le_of_mem_queue_step hMirrored hSound hQueue
            (by simp [hNext])
        rw [hSeen] at hy
        rcases List.mem_append.mp hy with hOld | hNew
        · have := hBounded y hOld
          omega
        · rw [hFresh y hNew]
          omega

theorem repeat_outward
    (hMirrored : g.Mirrored)
    (hSound : s.Sound g a.relative)
    (h : s.Outward g a.relative)
    (rounds : Nat) :
    (Nat.repeat (step g) rounds s).Outward g a.relative := by
  induction rounds with
  | zero => exact h
  | succ rounds ih =>
      exact step_outward hMirrored
        (repeat_sound hSound rounds) ih

end Search

------------------------------------------------------------
-- Dependents
------------------------------------------------------------

theorem lastSearch_outward
    (hMirrored : g.Mirrored)
    (a : Address) :
    (g.lastSearch a).Outward g a.relative := by
  refine Search.repeat_outward hMirrored
    (Search.start_sound g a) ⟨rfl, ?_, ?_⟩ _
  · exact List.pairwise_singleton _ _
  · intro x rest hQueue y hy
    have hSame : y = a.relative := by
      simpa [Search.seen] using hy
    rw [hSame, distance_self]
    omega

/-
  A list of the cells from which reads lead to a given cell,
  the cell itself first, each once, and nearer ones before
  those further away.
-/
structure BreadthFirst
    (g : DependencyGraph)
    (a : Address)
    (cells : List Address) : Prop where
  first : cells.head? = some a.relative
  nodup : cells.Nodup
  members :
    ∀ b, b ∈ cells ↔ b.relative = b
      ∧ ReflTransGen g.Reads b a.relative
  nearer :
    cells.Pairwise fun b c =>
      g.distance b a.relative ≤ g.distance c a.relative

/-
  After any changes of a graph, with cycles among its edges
  or not, the search for the dependents of a cell ends with
  no cell waiting and has found them in order of distance.
-/
theorem dependents_breadthFirst
    (changes : List Change)
    (a : Address) :
    let g := afterChanges changes
    (g.lastSearch a).queue = []
      ∧ g.BreadthFirst a (g.dependents a) := by
  intro g
  have hMirrored : g.Mirrored :=
    (paired_afterChanges changes).mirrored
  have hOutward := lastSearch_outward hMirrored a
  have hSeen : (g.lastSearch a).seen = g.dependents a := by
    rw [Search.seen, g.lastSearch_queue a, List.append_nil]
    rfl
  refine ⟨g.lastSearch_queue a, ?_, ?_, ?_, ?_⟩
  · rw [← hSeen]
    exact hOutward.first
  · rw [← hSeen]
    exact (g.lastSearch_sound a).nodup
  · intro b
    rw [mem_dependents_iff,
      hMirrored.reflTransGen_readBy_iff]
  · rw [← hSeen]
    exact hOutward.nearer

/- Dependents of a cell that reads one of them itself. -/
example :
    let cell := Address.ofPosition 0
    let g := afterChanges
      [.add (cell 1) (cell 0), .add (cell 2) (cell 1),
        .add (cell 3) (cell 0), .add (cell 0) (cell 2)]
    g.dependents (cell 0) =
      [cell 0, cell 1, cell 3, cell 2] := by
  decide

end DependencyGraph

end Spreadsheet
