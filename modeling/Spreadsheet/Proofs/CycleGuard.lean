import Spreadsheet.Proofs.Dependents

/-
  The walk that guards a graph against cycles. It follows
  the readers of a formula and looks at a cell each round,
  which may be one that was visited before. The readers of a
  cell are stacked once only, so after one round more than
  there are edges the walk has arrived at its target or has
  nothing left to look at; then the cells visited are all
  that depend on the formula. The order in which the readers
  of a cell are stacked does not matter.

  Main declarations:
    * `DependencyGraph.Walk.Sound`
    * `DependencyGraph.Walk.step_sound`
    * `DependencyGraph.walkBack_over`
    * `DependencyGraph.arrived_walkBack_iff`
    * `DependencyGraph.closesCycle_iff`
-/

namespace Spreadsheet

namespace DependencyGraph

open Relation

variable {g : DependencyGraph}
variable {readers : Address → List Address}
variable {start target : Address}

/- Lists of the readers of each cell, in any order. -/
def ListsReaders
    (g : DependencyGraph)
    (readers : Address → List Address) : Prop :=
  ∀ a, (readers a).Perm (g.readersOf a)

namespace Walk

variable {w : Walk}

------------------------------------------------------------
-- One Round
------------------------------------------------------------

/- All cells that the walk has come upon. -/
def seen
    (w : Walk) : List Address :=
  w.visited ++ w.stack

/-
  What holds of a walk from one cell towards another: it has
  come upon its start and upon cells that depend on it only,
  with each visited cell upon the readers of the cell, it
  visits no cell twice, and not the target, at which it
  stays once it has arrived.
-/
structure Sound
    (g : DependencyGraph)
    (start target : Address)
    (w : Walk) : Prop where
  starts : start ∈ w.seen
  depends : ∀ x ∈ w.seen, ReflTransGen g.ReadBy start x
  closed : ∀ x ∈ w.visited, ∀ y, g.ReadBy x y → y ∈ w.seen
  nodup : w.visited.Nodup
  avoids : target ∉ w.visited
  arrived : w.arrived = true → w.stack.head? = some target

theorem step_nil
    (h : w.stack = []) : step readers target w = w := by
  unfold step
  rw [h]

section Cons

variable {a : Address}
variable {rest : List Address}

/- A walk stops where the target comes first. -/
theorem step_target
    (h : w.stack = target :: rest) :
    step readers target w = { w with arrived := true } := by
  unfold step
  rw [h]
  exact if_pos rfl

/- A visited cell is passed over. -/
theorem step_visited
    (h : w.stack = a :: rest)
    (hne : a ≠ target)
    (hVisited : a ∈ w.visited) :
    step readers target w = { w with stack := rest } := by
  unfold step
  rw [h]
  simp only [hne, ↓reduceIte, List.contains_eq_mem,
    hVisited, decide_true]

/- The readers of any other cell are stacked. -/
theorem step_new
    (h : w.stack = a :: rest)
    (hne : a ≠ target)
    (hNew : a ∉ w.visited) :
    step readers target w =
      { w with
        visited := a :: w.visited
        stack := readers a ++ rest } := by
  unfold step
  rw [h]
  simp only [hne, ↓reduceIte, List.contains_eq_mem, hNew,
    decide_false, Bool.false_eq_true]

/- With a new cell the walk comes upon its readers. -/
theorem mem_seen_step_new
    (h : w.stack = a :: rest)
    (hne : a ≠ target)
    (hNew : a ∉ w.visited)
    (x : Address) :
    x ∈ (step readers target w).seen ↔
      x ∈ w.seen ∨ x ∈ readers a := by
  rw [step_new h hne hNew, seen, seen, h]
  simp only [List.cons_append, List.mem_cons,
    List.mem_append]
  tauto

/- A walk that goes on from another cell is under way. -/
theorem Sound.not_arrived
    (hSound : w.Sound g start target)
    (h : w.stack = a :: rest)
    (hne : a ≠ target) : ¬ w.arrived = true := by
  intro hArrived
  have hHead := hSound.arrived hArrived
  rw [h] at hHead
  exact hne (Option.some.inj hHead)

/- Passing over a visited cell keeps a walk sound. -/
theorem Sound.pass
    (hSound : w.Sound g start target)
    (h : w.stack = a :: rest)
    (hne : a ≠ target)
    (hVisited : a ∈ w.visited) :
    Sound g start target { w with stack := rest } := by
  have hSeen :
      ∀ x, x ∈ w.visited ++ rest ↔ x ∈ w.seen := by
    intro x
    unfold seen
    rw [h, List.mem_append, List.mem_append, List.mem_cons]
    constructor
    · rintro (hx | hx)
      · exact Or.inl hx
      · exact Or.inr (Or.inr hx)
    · rintro (hx | rfl | hx)
      · exact Or.inl hx
      · exact Or.inl hVisited
      · exact Or.inr hx
  refine ⟨?_, ?_, ?_, hSound.nodup, hSound.avoids, ?_⟩
  · exact (hSeen _).mpr hSound.starts
  · exact fun x hx => hSound.depends x ((hSeen x).mp hx)
  · intro x hx y hEdge
    exact (hSeen y).mpr (hSound.closed x hx y hEdge)
  · exact fun hArrived =>
      absurd hArrived (hSound.not_arrived h hne)

/- So does visiting a new cell. -/
theorem Sound.visit
    (hReaders : g.ListsReaders readers)
    (hSound : w.Sound g start target)
    (h : w.stack = a :: rest)
    (hne : a ≠ target)
    (hNew : a ∉ w.visited) :
    (step readers target w).Sound g start target := by
  have hStep :
      step readers target w =
        { w with
          visited := a :: w.visited
          stack := readers a ++ rest } :=
    step_new h hne hNew
  have hSeen :
      ∀ x, x ∈ (step readers target w).seen ↔
        x ∈ w.seen ∨ x ∈ readers a :=
    mem_seen_step_new h hne hNew
  have ha : a ∈ w.seen := by simp [seen, h]
  have hVisited :
      ∀ x, x ∈ (step readers target w).visited ↔
        x = a ∨ x ∈ w.visited := by
    intro x
    rw [hStep]
    exact List.mem_cons
  refine ⟨?_, ?_, ?_, ?_, ?_, ?_⟩
  · exact (hSeen _).mpr (Or.inl hSound.starts)
  · intro x hx
    rcases (hSeen x).mp hx with hOld | hReader
    · exact hSound.depends x hOld
    · have hEdge : g.ReadBy a x :=
        (hReaders a).mem_iff.mp hReader
      exact (hSound.depends a ha).tail hEdge
  · intro x hx y hEdge
    rw [hSeen]
    rcases (hVisited x).mp hx with rfl | hx
    · exact Or.inr ((hReaders x).mem_iff.mpr hEdge)
    · exact Or.inl (hSound.closed x hx y hEdge)
  · rw [hStep]
    exact List.nodup_cons.mpr ⟨hNew, hSound.nodup⟩
  · intro hTarget
    rcases (hVisited target).mp hTarget with heq | hOld
    · exact hne heq.symm
    · exact hSound.avoids hOld
  · rw [hStep]
    exact fun hArrived =>
      absurd hArrived (hSound.not_arrived h hne)

end Cons

/- A round keeps a walk sound. -/
theorem step_sound
    (hReaders : g.ListsReaders readers)
    (h : w.Sound g start target) :
    (step readers target w).Sound g start target := by
  cases hStack : w.stack with
  | nil =>
      rw [step_nil hStack]
      exact h
  | cons a rest =>
      by_cases hTarget : a = target
      · subst hTarget
        rw [step_target hStack]
        exact ⟨h.starts, h.depends, h.closed, h.nodup,
          h.avoids, fun _ => by rw [hStack]; rfl⟩
      · by_cases hVisited : a ∈ w.visited
        · rw [step_visited hStack hTarget hVisited]
          exact h.pass hStack hTarget hVisited
        · exact h.visit hReaders hStack hTarget hVisited

------------------------------------------------------------
-- All Rounds
------------------------------------------------------------

theorem repeat_sound
    (hReaders : g.ListsReaders readers)
    (h : w.Sound g start target)
    (rounds : Nat) :
    (Nat.repeat (step readers target) rounds w).Sound g start
      target := by
  induction rounds with
  | zero => exact h
  | succ rounds ih => exact step_sound hReaders ih

/- A walk that has arrived or has no cell to look at. -/
def Over
    (w : Walk) : Prop :=
  w.arrived = true ∨ w.stack = []

/- A walk that is over stays as it is. -/
theorem step_over
    (hSound : w.Sound g start target)
    (h : w.Over) : step readers target w = w := by
  rcases h with hArrived | hStack
  · cases hStack : w.stack with
    | nil => exact step_nil hStack
    | cons a rest =>
        have hHead := hSound.arrived hArrived
        rw [hStack] at hHead
        rw [List.head?_cons, Option.some.injEq] at hHead
        subst hHead
        rw [step_target hStack, ← hArrived]
  · exact step_nil hStack

/- How many cells were ever stacked, the start included. -/
def stacked
    (readers : Address → List Address)
    (w : Walk) : Nat :=
  1 + (w.visited.flatMap readers).length

/- A walk that has arrived stays arrived. -/
theorem arrived_step
    (h : w.arrived = true) :
    (step readers target w).arrived = true := by
  unfold step
  split
  · exact h
  · split
    · rfl
    · split
      · exact h
      · exact h

/- A round that does not arrive takes one cell away. -/
theorem step_progress
    {a : Address}
    {rest : List Address}
    (h : w.stack = a :: rest) :
    let next := step readers target w
    next.arrived = true
      ∨ next.stacked readers + w.stack.length =
        w.stacked readers + next.stack.length + 1 := by
  intro next
  by_cases hTarget : a = target
  · subst hTarget
    simp only [next, step_target h, true_or]
  · right
    by_cases hVisited : a ∈ w.visited
    · simp only [next, step_visited h hTarget hVisited, h,
        stacked, List.length_cons]
      omega
    · simp only [next, step_new h hTarget hVisited, h,
        stacked, List.flatMap_cons, List.length_append,
        List.length_cons]
      omega

/- So a walk is over or every round took a cell away. -/
theorem repeat_progress
    (readers : Address → List Address)
    (start target : Address)
    (rounds : Nat) :
    let w := Nat.repeat (step readers target) rounds
      ⟨[], [start], false⟩
    w.Over ∨ rounds + w.stack.length = w.stacked readers := by
  induction rounds with
  | zero => exact Or.inr rfl
  | succ rounds ih =>
      simp only [Nat.repeat]
      dsimp only at ih
      generalize
        Nat.repeat (step readers target) rounds
          ⟨[], [start], false⟩ = w at ih
      rcases ih with (hArrived | hEmpty) | hCount
      · exact Or.inl (Or.inl (arrived_step hArrived))
      · rw [step_nil hEmpty]
        exact Or.inl (Or.inr hEmpty)
      · cases hStack : w.stack with
        | nil =>
            rw [step_nil hStack]
            exact Or.inl (Or.inr hStack)
        | cons a rest =>
            rcases step_progress hStack with hArrived | hLess
            · exact Or.inl (Or.inl hArrived)
            · right
              omega

end Walk

------------------------------------------------------------
-- Bounding The Walk
------------------------------------------------------------

/- Different cells have no more readers than edges lead to. -/
theorem length_flatMap_readers_le
    (hReaders : g.ListsReaders readers)
    {cells : List Address}
    (hKeys : ∀ a ∈ cells, a.relative = a)
    (hNodup : cells.Nodup) :
    (cells.flatMap readers).length
      ≤ g.readers.edgeCount := by
  let ends : List (Address × Address) :=
    cells.flatMap fun a => (g.readersOf a).map (Prod.mk a)
  have hLength :
      (cells.flatMap readers).length = ends.length := by
    simp only [ends, List.length_flatMap, List.length_map,
      (hReaders _).length_eq]
  have hEnds : ends.Nodup := by
    rw [List.nodup_flatMap]
    refine ⟨fun a _ => ?_, hNodup.imp ?_⟩
    · exact (CellMap.nodup_keys _).map
        fun b c hEq => (Prod.mk.inj hEq).2
    · intro a b hne p hp hq
      rcases List.mem_map.mp hp with ⟨x, -, rfl⟩
      rcases List.mem_map.mp hq with ⟨y, -, hEq⟩
      exact hne (Prod.mk.inj hEq).1.symm
  have hSubset : ends ⊆ g.readers.pairs := by
    intro p hp
    rcases List.mem_flatMap.mp hp with ⟨a, ha, hMem⟩
    rcases List.mem_map.mp hMem with ⟨b, hb, rfl⟩
    exact Adjacency.mem_pairs_iff.mpr ⟨hKeys a ha, hb⟩
  rw [hLength, ← Adjacency.length_pairs]
  exact (List.subperm_of_subset hEnds hSubset).length_le

section WalkBack

variable {formula : Address}

theorem walkBack_sound
    (hReaders : g.ListsReaders readers)
    (formula target : Address) :
    (g.walkBack readers formula target).Sound g
      formula.relative target.relative := by
  refine Walk.repeat_sound hReaders
    ⟨?_, ?_, ?_, List.nodup_nil, ?_, ?_⟩ _
  · simp [Walk.seen]
  · intro x hx
    have hEq : x = formula.relative := by
      simpa [Walk.seen] using hx
    rw [hEq]
  · intro x hx
    simp at hx
  · simp
  · simp

/- After all rounds the walk is over. -/
theorem walkBack_over
    (hReaders : g.ListsReaders readers)
    (formula target : Address) :
    (g.walkBack readers formula target).Over := by
  have hSound := g.walkBack_sound hReaders formula target
  have hKeys :
      ∀ a ∈ (g.walkBack readers formula target).visited,
        a.relative = a :=
    fun a ha => relative_of_reflTransGen
      (hSound.depends a (List.mem_append_left _ ha))
  have hBound :=
    length_flatMap_readers_le hReaders hKeys hSound.nodup
  rcases Walk.repeat_progress readers formula.relative
      target.relative (g.readers.edgeCount + 1)
    with hOver | hCount
  · exact hOver
  · change _ + (g.walkBack readers formula target
      ).stack.length = Walk.stacked readers
        (g.walkBack readers formula target) at hCount
    unfold Walk.stacked at hCount
    exact Or.inr (List.length_eq_zero_iff.mp (by omega))

/-
  The walk arrives just in case its target depends on the
  formula. If it has nothing left to look at, what depends
  on the formula was visited, and the target was not.
-/
theorem arrived_walkBack_iff
    (hReaders : g.ListsReaders readers) :
    (g.walkBack readers formula target).arrived = true ↔
      ReflTransGen g.ReadBy formula.relative
        target.relative := by
  have hSound := g.walkBack_sound hReaders formula target
  constructor
  · intro hArrived
    apply hSound.depends
    exact List.mem_append_right _
      (List.mem_of_head? (hSound.arrived hArrived))
  · intro hPath
    rcases g.walkBack_over hReaders formula target with
      hArrived | hStack
    · exact hArrived
    · have hSeen :
          (g.walkBack readers formula target).seen =
            (g.walkBack readers formula target).visited := by
        rw [Walk.seen, hStack, List.append_nil]
      have hVisited :
          ∀ x, ReflTransGen g.ReadBy formula.relative x →
            x ∈ (g.walkBack readers formula target
              ).visited := by
        intro x hReach
        induction hReach with
        | refl => exact hSeen ▸ hSound.starts
        | tail _ hEdge ih =>
            exact hSeen ▸ hSound.closed _ ih _ hEdge
      exact absurd (hVisited _ hPath) hSound.avoids

/-
  An edge closes a cycle just in case its target depends on
  the formula already.
-/
theorem closesCycle_iff :
    g.closesCycle formula target = true ↔
      ReflTransGen g.ReadBy formula.relative
        target.relative := by
  unfold closesCycle
  rw [Bool.or_eq_true, beq_iff_eq,
    arrived_walkBack_iff fun _ => .refl _]
  refine or_iff_right_of_imp fun hSame => ?_
  rw [hSame]

end WalkBack

end DependencyGraph

end Spreadsheet
