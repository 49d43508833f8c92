import Mathlib.Data.List.Induction
import Spreadsheet.Proofs.GraphEdges

/-
  An evaluation order lists the cells it is made for, and no
  others: only members are ever let into a schedule, and
  those that it cannot place are listed after it.

  Main declarations:
    * `DependencyGraph.Schedule.Within`
    * `DependencyGraph.Schedule.step_within`
    * `DependencyGraph.membersOf`
    * `DependencyGraph.mem_evaluationOrder_iff`
-/

namespace Spreadsheet

namespace DependencyGraph

variable {g : DependencyGraph}
variable {members : List Address}

------------------------------------------------------------
-- Schedules
------------------------------------------------------------

namespace Schedule

/- A schedule knows and places members only. -/
structure Within
    (members : List Address)
    (s : Schedule) : Prop where
  pending :
    ∀ a n, s.pending.get? a = some n → a.relative ∈ members
  queue : s.queue ⊆ members
  placed : s.placed ⊆ members

/- Only a member can be released. -/
theorem release_within
    {s : Schedule}
    {a : Address}
    (h : s.Within members)
    (ha : a.relative = a) : (s.release a).Within members := by
  have hPending :
      ∀ n m b k,
        s.pending.get? a = some n →
        (s.pending.insert a m).get? b = some k →
          b.relative ∈ members := by
    intro n m b k hGet hInsert
    rcases CellMap.get?_insert_eq_some hInsert with
      ⟨hb, -⟩ | hBefore
    · rw [hb]
      exact h.pending a n hGet
    · exact h.pending b k hBefore
  unfold release
  split
  · next hGet =>
      refine ⟨fun b k => hPending 1 0 b k hGet, ?_, h.placed⟩
      intro b hb
      rcases List.mem_append.mp hb with hb | hb
      · exact h.queue hb
      · rw [List.mem_singleton.mp hb, ← ha]
        exact h.pending a 1 hGet
  · next n hGet =>
      exact ⟨fun b k => hPending (n + 2) (n + 1) b k hGet,
        h.queue, h.placed⟩
  · exact h

theorem foldl_release_within
    {s : Schedule}
    (h : s.Within members)
    (readers : List Address)
    (hReaders : ∀ a ∈ readers, a.relative = a) :
    (readers.foldl release s).Within members := by
  induction readers generalizing s with
  | nil => exact h
  | cons a rest ih =>
      rw [List.foldl_cons]
      apply ih
      · exact release_within h (hReaders a List.mem_cons_self)
      · exact fun b hb =>
          hReaders b (List.mem_cons_of_mem _ hb)

/- A step places a member and releases members. -/
theorem step_within
    {s : Schedule}
    (h : s.Within members) : (step g s).Within members := by
  unfold step
  split
  · exact h
  · next a rest hQueue =>
      have hMembers : a :: rest ⊆ members := by
        rw [← hQueue]
        exact h.queue
      have hPlaced : s.placed ++ [a] ⊆ members := by
        refine List.append_subset.mpr ⟨h.placed, ?_⟩
        intro b hb
        rw [List.mem_singleton.mp hb]
        exact hMembers List.mem_cons_self
      apply foldl_release_within
      · refine ⟨h.pending, ?_, hPlaced⟩
        intro b hb
        exact hMembers (List.mem_cons_of_mem _ hb)
      · intro b hb
        exact relative_of_mem_readersOf hb

theorem repeat_within
    {s : Schedule}
    (h : s.Within members)
    (rounds : Nat) :
    (Nat.repeat (step g) rounds s).Within members := by
  induction rounds with
  | zero => exact h
  | succ rounds ih => exact step_within ih

/- A map made of a list has the keys of the list. -/
theorem relative_mem_of_get?_ofList
    {entries : List (Address × Nat)}
    {a : Address}
    {n : Nat}
    (h : (CellMap.ofList entries).get? a = some n) :
    a.relative ∈ entries.map fun p => p.1.relative := by
  unfold CellMap.ofList at h
  induction entries using List.reverseRecOn with
  | nil => simp at h
  | append_singleton rest p ih =>
      rw [List.foldl_append, List.foldl_cons,
        List.foldl_nil, CellMap.get?_insert] at h
      rw [List.map_append, List.mem_append]
      split at h
      · next ha => exact Or.inr (by simp [ha])
      · exact Or.inl (ih h)

/- At the start members wait, and nothing else does. -/
theorem start_within
    (g : DependencyGraph)
    (hMembers : ∀ a ∈ members, a.relative = a) :
    (start g members).Within members := by
  refine ⟨?_, ?_, List.nil_subset _⟩
  · intro a n hGet
    have hMem := relative_mem_of_get?_ofList hGet
    rw [List.map_map] at hMem
    rcases List.mem_map.mp hMem with ⟨b, hb, hEq⟩
    have hKey : b = a.relative :=
      (hMembers b hb).symm.trans hEq
    rw [← hKey]
    exact hb
  · exact fun a ha => (List.mem_filter.mp ha).1

end Schedule

------------------------------------------------------------
-- Evaluation Orders
------------------------------------------------------------

/- What an order is made of: the positions of cells, once. -/
def membersOf
    (cells : List Address) : List Address :=
  (cells.map Address.relative).eraseDups

theorem mem_membersOf_iff
    {cells : List Address}
    {a : Address} :
    a ∈ membersOf cells ↔ a ∈ cells.map Address.relative :=
  List.mem_eraseDups

theorem relative_of_mem_membersOf
    {cells : List Address}
    {a : Address}
    (h : a ∈ membersOf cells) : a.relative = a := by
  rcases List.mem_map.mp (mem_membersOf_iff.mp h) with
    ⟨b, -, rfl⟩
  exact Address.relative_relative b

/- The schedule that some members end up with. -/
def lastSchedule
    (g : DependencyGraph)
    (members : List Address) : Schedule :=
  Nat.repeat (Schedule.step g) members.length
    (Schedule.start g members)

/- An order lists what was placed, and then what was not. -/
theorem evaluationOrder_eq_placed
    (g : DependencyGraph)
    (cells : List Address) :
    g.evaluationOrder cells =
      (g.lastSchedule (membersOf cells)).placed
        ++ (membersOf cells).filter fun a =>
          !(g.lastSchedule (membersOf cells)
            ).placed.contains a :=
  rfl

/- The order is made of the given cells, without markers. -/
theorem mem_evaluationOrder_iff
    {cells : List Address}
    {a : Address} :
    a ∈ g.evaluationOrder cells ↔
      a ∈ cells.map Address.relative := by
  have hLast :
      (g.lastSchedule (membersOf cells)).Within
        (membersOf cells) :=
    Schedule.repeat_within
      (Schedule.start_within g
        fun _ hb => relative_of_mem_membersOf hb) _
  rw [← mem_membersOf_iff, evaluationOrder_eq_placed]
  constructor
  · intro ha
    rcases List.mem_append.mp ha with ha | ha
    · exact hLast.placed ha
    · exact (List.mem_filter.mp ha).1
  · intro ha
    rw [List.mem_append, List.mem_filter]
    by_cases hPlaced :
        a ∈ (g.lastSchedule (membersOf cells)).placed
    · exact Or.inl hPlaced
    · exact Or.inr ⟨ha, by simpa using hPlaced⟩

end DependencyGraph

end Spreadsheet
