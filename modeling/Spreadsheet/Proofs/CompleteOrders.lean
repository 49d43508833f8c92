import Spreadsheet.Proofs.GraphChanges
import Spreadsheet.Proofs.Scheduling

/-
  What an evaluation order makes of cells when edges may
  lead back. A member is placed just in case no cycle is
  reached from it along what members read of each other; it
  then comes after everything that it reads. The rest keeps
  the order in which it was given. On the way no member is
  released that waits for nothing.

  Key definitions include:
    * `DependencyGraph.Grounded`
    * `DependencyGraph.Schedule.CountsDown`
    * `DependencyGraph.CompleteOrder`

  The main result is
  `DependencyGraph.evaluationOrder_complete`.
-/

namespace Spreadsheet

namespace DependencyGraph

open Relation

variable {g : DependencyGraph}
variable {members : List Address}
variable {cells : List Address}

------------------------------------------------------------
-- Grounded Lists
------------------------------------------------------------

/- Cells of a list read members that stand before them. -/
def Grounded
    (g : DependencyGraph)
    (members order : List Address) : Prop :=
  ∀ before a after, order = before ++ a :: after →
    ∀ b ∈ members, g.Reads a b → b ∈ before

theorem Grounded.nil : g.Grounded members [] := by
  intro before a after hSplit
  simp at hSplit

/- A cell may follow once all that it reads is there. -/
theorem Grounded.append_singleton
    {order : List Address}
    {a : Address}
    (h : g.Grounded members order)
    (ha : ∀ b ∈ members, g.Reads a b → b ∈ order) :
    g.Grounded members (order ++ [a]) := by
  intro before x after hSplit b hb hRead
  rcases List.eq_nil_or_concat after with
    rfl | ⟨rest, last, rfl⟩
  · have ⟨hOrder, hLast⟩ := List.append_inj' hSplit rfl
    rw [← hOrder]
    rw [← List.singleton_inj.mp hLast] at hRead
    exact ha b hb hRead
  · have hInner :
        order ++ [a] = (before ++ x :: rest) ++ [last] := by
      simpa using hSplit
    have hOrder := (List.append_inj' hInner rfl).1
    exact h before x rest hOrder b hb hRead

/- What is left when the last cell goes is grounded. -/
theorem Grounded.of_append_singleton
    {order : List Address}
    {a : Address}
    (h : g.Grounded members (order ++ [a])) :
    g.Grounded members order := by
  intro before x after hSplit
  apply h before x (after ++ [a])
  rw [hSplit, List.append_assoc, List.cons_append]

/- From a cell of a grounded list no path goes on forever. -/
theorem Grounded.acc
    {order : List Address}
    (h : g.Grounded members order)
    {a : Address}
    (ha : a ∈ order) :
    Acc (fun y x => g.ReadsAmong members x y) a := by
  induction order using List.reverseRecOn generalizing a with
  | nil => cases ha
  | append_singleton order last ih =>
      have hBefore := h.of_append_singleton
      rcases List.mem_append.mp ha with ha | ha
      · exact ih hBefore ha
      · rw [List.mem_singleton.mp ha]
        refine Acc.intro last fun b hReads => ih hBefore ?_
        exact h order last [] rfl b hReads.2.1 hReads.2.2

/- Where no path goes on forever no cycle is reached. -/
theorem not_stuck_of_acc
    {a : Address}
    (h : Acc (fun y x => g.ReadsAmong members x y) a) :
    ¬ g.Stuck members a := by
  induction h with
  | intro a _ ih =>
      rintro ⟨b, hPath, hCycle⟩
      rcases ReflTransGen.cases_head hPath with
        rfl | ⟨c, hReads, hRest⟩
      · rcases TransGen.head'_iff.mp hCycle with
          ⟨c, hReads, hBack⟩
        exact ih c hReads ⟨a, hBack, hCycle⟩
      · exact ih c hReads ⟨b, hRest, hCycle⟩

------------------------------------------------------------
-- Grounded Schedules
------------------------------------------------------------

namespace Schedule

variable {s : Schedule}

/- A step places a cell that waits for no member. -/
theorem Exact.grounded_step
    (h : s.Exact g members)
    (hPlaced : g.Grounded members s.placed) :
    g.Grounded members (step g s).placed := by
  cases hQueue : s.queue with
  | nil =>
      rw [step_nil hQueue]
      exact hPlaced
  | cons a rest =>
      rw [placed_step hQueue]
      have hReady : a ∈ s.placed ++ s.queue := by
        simp [hQueue]
      have hDone :=
        waits_eq_zero_iff.mp ((h.ready a).mp hReady).2
      exact hPlaced.append_singleton
        fun b hb hRead => hDone b hRead hb

theorem repeat_grounded
    (hMirrored : g.Mirrored)
    (hKeys : ∀ a ∈ members, a.relative = a)
    (h : s.Exact g members)
    (hPlaced : g.Grounded members s.placed)
    (rounds : Nat) :
    g.Grounded members
      (Nat.repeat (step g) rounds s).placed := by
  induction rounds with
  | zero => exact hPlaced
  | succ rounds ih =>
      exact (repeat_exact hMirrored hKeys h rounds
        ).grounded_step ih

------------------------------------------------------------
-- Counting Down
------------------------------------------------------------

/-
  A count that is lowered is not zero yet: when the first of
  the queue is placed and some of its readers are released,
  the next reader is no member or waits for some cell.
-/
def CountsDown
    (g : DependencyGraph)
    (s : Schedule) : Prop :=
  ∀ a rest before b after, s.queue = a :: rest →
    g.readersOf a = before ++ b :: after →
      let placing : Schedule :=
        { s with queue := rest, placed := s.placed ++ [a] }
      (before.foldl release placing).pending.get? b ≠ some 0

/-
  Right counts can be lowered: a member that reads the cell
  to be placed still waits for it, and its count is not
  touched by the release of other readers.
-/
theorem Exact.countsDown
    (hMirrored : g.Mirrored)
    (hKeys : ∀ a ∈ members, a.relative = a)
    (h : s.Exact g members) : s.CountsDown g := by
  intro a rest before b after hQueue hReaders placing
  have hReaderKeys : ∀ c ∈ g.readersOf a, c.relative = c :=
    fun _ hc => relative_of_mem_readersOf hc
  have hNodup : (g.readersOf a).Nodup := CellMap.nodup_keys _
  have hb : b ∈ g.readersOf a := by simp [hReaders]
  have hKey := hReaderKeys b hb
  rw [hReaders] at hReaderKeys hNodup
  obtain ⟨hBefore, -, hApart⟩ := List.nodup_append.mp hNodup
  have hNew : b ∉ before :=
    fun hOld => hApart b hOld b List.mem_cons_self rfl
  rw [get?_pending_foldl_release
    (fun c hc => hReaderKeys c (List.mem_append_left _ hc))
    hBefore, hKey, if_neg hNew]
  intro hZero
  have hMember := h.others b 0 hZero
  rw [hKey] at hMember
  have hWaits := h.pending b hMember
  rw [show s.pending.get? b = some 0 from hZero] at hWaits
  have hFewer :=
    h.waits_first hMirrored hKeys hQueue hMember
  rw [if_pos hb, ← Option.some.inj hWaits] at hFewer
  omega

end Schedule

------------------------------------------------------------
-- Members
------------------------------------------------------------

/- Distinct cells stand in the order of first occurrence. -/
theorem pairwise_idxOf_eraseDups
    (cells : List Address) :
    cells.eraseDups.Pairwise fun a b =>
      cells.idxOf a < cells.idxOf b := by
  induction cells using List.reverseRecOn with
  | nil => exact .nil
  | append_singleton cells last ih =>
      have hOld :
          ∀ a ∈ cells.eraseDups,
            (cells ++ [last]).idxOf a = cells.idxOf a :=
        fun a ha =>
          List.idxOf_append_of_mem (List.mem_eraseDups.mp ha)
      have hKept :
          cells.eraseDups.Pairwise fun a b =>
            (cells ++ [last]).idxOf a
              < (cells ++ [last]).idxOf b := by
        refine ih.imp_of_mem fun ha hb hLess => ?_
        rw [hOld _ ha, hOld _ hb]
        exact hLess
      rw [List.eraseDups_append]
      by_cases hLast : last ∈ cells
      · simpa [List.removeAll, hLast] using hKept
      · have hNew :
            ([last].removeAll cells).eraseDups = [last] := by
          simp [List.removeAll, hLast, List.eraseDups_cons]
        rw [hNew, List.pairwise_append]
        refine ⟨hKept, List.pairwise_singleton _ _, ?_⟩
        intro a ha b hb
        have haCells := List.mem_eraseDups.mp ha
        rw [List.mem_singleton.mp hb, hOld a ha,
          List.idxOf_append_of_notMem hLast]
        have := List.idxOf_lt_length_of_mem haCells
        omega

theorem nodup_membersOf
    (cells : List Address) : (membersOf cells).Nodup :=
  (pairwise_idxOf_eraseDups _).imp fun hLess heq => by
    rw [heq] at hLess
    exact Nat.lt_irrefl _ hLess

/- Being stuck is a matter of which cells are members. -/
theorem stuck_membersOf_iff
    {a : Address} :
    g.Stuck (membersOf cells) a ↔
      g.Stuck (cells.map Address.relative) a := by
  unfold Stuck ReadsAmong
  simp only [mem_membersOf_iff]

/- So is standing after all members that are read. -/
theorem grounded_membersOf_iff
    {order : List Address} :
    g.Grounded (membersOf cells) order ↔
      g.Grounded (cells.map Address.relative) order := by
  unfold Grounded
  simp only [mem_membersOf_iff]

------------------------------------------------------------
-- Complete Orders
------------------------------------------------------------

/-
  An order of cells that has each of their positions once:
  first those that reach no cycle of cells reading each
  other, each after all of the cells that it reads, and then
  those that do, as they first occur.
-/
structure CompleteOrder
    (g : DependencyGraph)
    (cells order : List Address) : Prop where
  perm : order.Perm (cells.map Address.relative).dedup
  parts :
    let members := cells.map Address.relative
    ∃ placed stuck, order = placed ++ stuck
      ∧ (∀ a ∈ placed, ¬ g.Stuck members a)
      ∧ g.Grounded members placed
      ∧ (∀ a ∈ stuck, g.Stuck members a)
      ∧ stuck.Pairwise fun a b =>
          members.idxOf a < members.idxOf b

/- In a graph with paired directions orders are complete. -/
theorem Paired.completeOrder
    (h : g.Paired)
    (cells : List Address) :
    g.CompleteOrder cells (g.evaluationOrder cells) := by
  have hNodup := nodup_membersOf cells
  have hKeys :
      ∀ a ∈ membersOf cells, a.relative = a :=
    fun _ => relative_of_mem_membersOf
  have hStart := Schedule.start_exact g hKeys hNodup
  have hExact := lastSchedule_exact h.mirrored hKeys hNodup
  have hGrounded :
      g.Grounded (membersOf cells)
        (g.lastSchedule (membersOf cells)).placed :=
    Schedule.repeat_grounded h.mirrored hKeys hStart .nil _
  have hOrder := g.evaluationOrder_eq_placed cells
  constructor
  · refine (List.perm_ext_iff_of_nodup ?_
      (List.nodup_dedup _)).mpr fun a => ?_
    · rw [hOrder]
      refine List.nodup_append.mpr
        ⟨(List.nodup_append.mp hExact.nodup).1,
          hNodup.filter _, ?_⟩
      rintro a hPlaced b hRest rfl
      simp [hPlaced] at hRest
    · rw [List.mem_dedup, mem_evaluationOrder_iff]
  · refine ⟨_, _, hOrder, ?_, ?_, ?_,
      (pairwise_idxOf_eraseDups _).filter _⟩
    · intro a ha
      rw [← stuck_membersOf_iff]
      exact not_stuck_of_acc (hGrounded.acc ha)
    · exact grounded_membersOf_iff.mp hGrounded
    · intro a ha
      rw [← stuck_membersOf_iff]
      have ⟨hMember, hLeft⟩ := List.mem_filter.mp ha
      by_contra hFree
      have hPlaced := mem_placed_of_not_stuck h.mirrored
        hKeys hNodup hMember hFree
      simp [hPlaced] at hLeft

/-
  After any changes of a graph the order of any cells is
  complete, no count falls below zero while they are
  ordered, and at the end the queue has run empty.
-/
theorem evaluationOrder_complete
    (changes : List Change)
    (cells : List Address) :
    let g := afterChanges changes
    let start := Schedule.start g (membersOf cells)
    g.CompleteOrder cells (g.evaluationOrder cells)
      ∧ (∀ rounds, Schedule.CountsDown g
          (Nat.repeat (Schedule.step g) rounds start))
      ∧ (g.lastSchedule (membersOf cells)).queue = [] := by
  intro g start
  have hPaired : g.Paired := paired_afterChanges changes
  have hNodup := nodup_membersOf cells
  have hKeys :
      ∀ a ∈ membersOf cells, a.relative = a :=
    fun _ => relative_of_mem_membersOf
  have hStart : start.Exact g (membersOf cells) :=
    Schedule.start_exact g hKeys hNodup
  refine ⟨hPaired.completeOrder cells, fun rounds => ?_,
    lastSchedule_queue hPaired.mirrored hKeys hNodup⟩
  exact (Schedule.repeat_exact hPaired.mirrored hKeys hStart
    rounds).countsDown hPaired.mirrored hKeys

/- Two cells that read each other come last, as given. -/
example :
    let cell := Address.ofPosition 0
    let g := afterChanges
      [.add (cell 0) (cell 1), .add (cell 1) (cell 0),
        .add (cell 2) (cell 3)]
    g.evaluationOrder [cell 1, cell 2, cell 0, cell 3] =
      [cell 3, cell 2, cell 1, cell 0] := by
  decide

end DependencyGraph

end Spreadsheet
