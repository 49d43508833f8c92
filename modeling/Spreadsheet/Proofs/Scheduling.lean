import Mathlib.Order.WellFounded
import Mathlib.Data.Set.Finite.List
import Spreadsheet.Proofs.EvaluationOrder
import Spreadsheet.Proofs.WellFormedGraph

/-
  An evaluation order puts cells after those that they read.
  A schedule counts for each member the cells it still waits
  for, and lets it into the queue when none is left. The
  invariant is that these counts are right; a member is then
  placed just in case everything it reads was placed before.
  This is the case for all members that reach no cycle.

  Main declarations:
    * `DependencyGraph.Schedule.Exact`
    * `DependencyGraph.Schedule.step_exact`
    * `DependencyGraph.lastSchedule_exact`
    * `DependencyGraph.mem_placed_iff`
    * `DependencyGraph.Stuck`
    * `DependencyGraph.mem_placed_of_not_stuck`
    * `DependencyGraph.evaluationOrder_of_acyclic`
-/

namespace Spreadsheet

namespace DependencyGraph

open Relation

variable {g : DependencyGraph}
variable {members : List Address}

namespace Schedule

------------------------------------------------------------
-- Releasing Members
------------------------------------------------------------

/- A released member waits for one cell less. -/
theorem get?_pending_release
    (s : Schedule)
    (a b : Address) :
    (s.release a).pending.get? b =
      if b.relative = a.relative then
        (s.pending.get? b).map (· - 1)
      else s.pending.get? b := by
  have hSame :
      b.relative = a.relative →
        s.pending.get? b = s.pending.get? a := by
    intro h
    rw [← CellMap.get?_relative, h, CellMap.get?_relative]
  unfold release
  split
  · next hGet =>
      rw [CellMap.get?_insert]
      split
      · next h => rw [hSame h, hGet]; rfl
      · rfl
  · next n hGet =>
      rw [CellMap.get?_insert]
      split
      · next h => rw [hSame h, hGet]; rfl
      · rfl
  · next hOne hMore =>
      split
      · next h =>
          rw [hSame h]
          match hGet : s.pending.get? a with
          | none => rfl
          | some 0 => rfl
          | some 1 => exact absurd hGet hOne
          | some (n + 2) => exact absurd hGet (hMore n)
      · rfl

/- It is let into the queue if it waited for one cell. -/
theorem queue_release
    (s : Schedule)
    (a : Address) :
    (s.release a).queue =
      s.queue ++ [a].filter (s.pending.get? · = some 1) := by
  unfold release
  split
  · next hGet => simp [hGet]
  · next n hGet => simp [hGet]
  · next hOne _ => simpa using hOne

theorem placed_release
    (s : Schedule)
    (a : Address) : (s.release a).placed = s.placed := by
  unfold release
  split <;> rfl

theorem placed_foldl_release
    (readers : List Address)
    (s : Schedule) :
    (readers.foldl release s).placed = s.placed := by
  induction readers generalizing s with
  | nil => rfl
  | cons a rest ih =>
      rw [List.foldl_cons, ih, placed_release]

/- Each of several readers waits for one cell less. -/
theorem get?_pending_foldl_release
    {readers : List Address}
    (hKeys : ∀ a ∈ readers, a.relative = a)
    (hNodup : readers.Nodup)
    (s : Schedule)
    (b : Address) :
    (readers.foldl release s).pending.get? b =
      if b.relative ∈ readers then
        (s.pending.get? b).map (· - 1)
      else s.pending.get? b := by
  induction readers generalizing s with
  | nil => simp
  | cons a rest ih =>
      have ⟨hNew, hRest⟩ := List.nodup_cons.mp hNodup
      have hKey : a.relative = a :=
        hKeys a List.mem_cons_self
      rw [List.foldl_cons,
        ih (fun c hc => hKeys c (List.mem_cons_of_mem _ hc))
          hRest,
        get?_pending_release, hKey]
      by_cases hb : b.relative = a
      · simp only [hb, hNew, List.mem_cons, true_or,
          ↓reduceIte]
      · simp only [hb, List.mem_cons, false_or, ↓reduceIte]

/- Those that waited for one cell only join the queue. -/
theorem queue_foldl_release
    {readers : List Address}
    (hKeys : ∀ a ∈ readers, a.relative = a)
    (hNodup : readers.Nodup)
    (s : Schedule) :
    (readers.foldl release s).queue =
      s.queue
        ++ readers.filter (s.pending.get? · = some 1) := by
  induction readers generalizing s with
  | nil => simp
  | cons a rest ih =>
      have ⟨hNew, hRest⟩ := List.nodup_cons.mp hNodup
      have hKeysRest : ∀ c ∈ rest, c.relative = c :=
        fun c hc => hKeys c (List.mem_cons_of_mem _ hc)
      have hSame :
          rest.filter
              ((s.release a).pending.get? · = some 1) =
            rest.filter (s.pending.get? · = some 1) := by
        apply List.filter_congr
        intro c hc
        have hne : c.relative ≠ a.relative := by
          rw [hKeysRest c hc, hKeys a List.mem_cons_self]
          exact fun heq => hNew (heq ▸ hc)
        rw [get?_pending_release, if_neg hne]
      rw [List.foldl_cons, ih hKeysRest hRest, hSame,
        queue_release, List.append_assoc,
        ← List.filter_append, List.singleton_append]

------------------------------------------------------------
-- One Step
------------------------------------------------------------

section Step

variable {s : Schedule}
variable {a : Address}
variable {rest : List Address}

/- A step places the first member of the queue. -/
theorem placed_step
    (h : s.queue = a :: rest) :
    (step g s).placed = s.placed ++ [a] := by
  unfold step
  rw [h]
  exact placed_foldl_release _ _

theorem queue_step
    (h : s.queue = a :: rest) :
    (step g s).queue =
      rest ++ (g.readersOf a).filter
        (s.pending.get? · = some 1) := by
  unfold step
  rw [h]
  exact queue_foldl_release
    (fun _ hb => relative_of_mem_readersOf hb)
    (CellMap.nodup_keys _) _

theorem get?_pending_step
    (h : s.queue = a :: rest)
    (b : Address) :
    (step g s).pending.get? b =
      if b.relative ∈ g.readersOf a then
        (s.pending.get? b).map (· - 1)
      else s.pending.get? b := by
  unfold step
  rw [h]
  exact get?_pending_foldl_release
    (fun _ hb => relative_of_mem_readersOf hb)
    (CellMap.nodup_keys _) _ b

theorem step_nil
    (h : s.queue = []) : step g s = s := by
  unfold step
  rw [h]

end Step

------------------------------------------------------------
-- Waiting
------------------------------------------------------------

/- How many members that a cell reads are to be placed. -/
def waits
    (g : DependencyGraph)
    (members placed : List Address)
    (a : Address) : Nat :=
  (g.readsOf a).countP fun b =>
    members.contains b && !placed.contains b

/- A cell waits no more when all that it reads is placed. -/
theorem waits_eq_zero_iff
    {placed : List Address}
    {a : Address} :
    waits g members placed a = 0 ↔
      ∀ b ∈ g.readsOf a, b ∈ members → b ∈ placed := by
  unfold waits
  rw [List.countP_eq_zero]
  simp

/- At the start all members that a cell reads count. -/
theorem waits_nil
    (g : DependencyGraph)
    (members : List Address)
    (a : Address) :
    waits g members [] a =
      (g.readsOf a).countP members.contains := by
  unfold waits
  apply List.countP_congr
  simp

/- Placing a member takes it off the count of its readers. -/
theorem waits_append
    {placed : List Address}
    {b : Address}
    (hMember : b ∈ members)
    (hNew : b ∉ placed)
    (a : Address) :
    waits g members placed a =
      waits g members (placed ++ [b]) a
        + if b ∈ g.readsOf a then 1 else 0 := by
  have hNodup : (g.readsOf a).Nodup := CellMap.nodup_keys _
  unfold waits
  generalize g.readsOf a = targets at hNodup
  induction targets with
  | nil => rfl
  | cons c rest ih =>
      have ⟨hc, hRest⟩ := List.nodup_cons.mp hNodup
      rw [List.countP_cons, List.countP_cons, ih hRest]
      by_cases hcb : c = b
      · subst hcb
        simp [hMember, hNew, hc]
      · have hOther : b ∈ c :: rest ↔ b ∈ rest := by
          rw [List.mem_cons, or_iff_right (Ne.symm hcb)]
        simp only [hOther, List.contains_eq_mem,
          List.mem_append, List.mem_singleton, hcb, or_false]
        omega

------------------------------------------------------------
-- Exact Schedules
------------------------------------------------------------

/-
  A schedule whose counts are right: a member is placed or
  in the queue just in case it waits for none, once, and
  those placed read nothing that was placed after them.
-/
structure Exact
    (g : DependencyGraph)
    (members : List Address)
    (s : Schedule) : Prop where
  pending :
    ∀ a ∈ members,
      s.pending.get? a = some (waits g members s.placed a)
  others :
    ∀ a n, s.pending.get? a = some n → a.relative ∈ members
  ready :
    ∀ a, a ∈ s.placed ++ s.queue ↔
      a ∈ members ∧ waits g members s.placed a = 0
  nodup : (s.placed ++ s.queue).Nodup
  ordered : s.placed.Pairwise fun a b => b ∉ g.readsOf a

/- What a map made of a list of cells says of them. -/
theorem get?_ofList_of_mem
    {cells : List Address}
    (f : Address → Nat)
    (hKeys : ∀ a ∈ cells, a.relative = a)
    {a : Address}
    (ha : a ∈ cells) :
    (CellMap.ofList (cells.map fun c => (c, f c))).get? a =
      some (f a) := by
  unfold CellMap.ofList
  induction cells using List.reverseRecOn with
  | nil => cases ha
  | append_singleton rest c ih =>
      rw [List.map_append, List.foldl_append, List.map_cons,
        List.map_nil, List.foldl_cons, List.foldl_nil,
        CellMap.get?_insert, hKeys a ha,
        hKeys c (List.mem_append_right _ List.mem_cons_self)]
      split
      · next heq => rw [heq]
      · next hne =>
          rcases List.mem_append.mp ha with ha | ha
          · exact ih
              (fun b hb => hKeys b (List.mem_append_left _ hb))
              ha
          · exact absurd (List.mem_singleton.mp ha) hne

theorem start_exact
    (g : DependencyGraph)
    (hKeys : ∀ a ∈ members, a.relative = a)
    (hNodup : members.Nodup) :
    (start g members).Exact g members where
  pending := by
    intro a ha
    rw [start, waits_nil]
    exact get?_ofList_of_mem
      (fun c => (g.readsOf c).countP members.contains)
      hKeys ha
  others := (start_within g hKeys).pending
  ready := by
    intro a
    rw [start, waits_nil]
    simp
  nodup := hNodup.filter _
  ordered := .nil

variable {s : Schedule}

section Placing

variable {a : Address}
variable {rest : List Address}

/- The first of the queue is a member that is not placed. -/
theorem Exact.first
    (h : s.Exact g members)
    (hQueue : s.queue = a :: rest) :
    a ∈ members ∧ a ∉ s.placed := by
  have hReady : a ∈ s.placed ++ s.queue := by
    simp [hQueue]
  refine ⟨((h.ready a).mp hReady).1, fun ha => ?_⟩
  have hSplit := h.nodup
  rw [hQueue] at hSplit
  exact (List.nodup_append.mp hSplit).2.2 a ha a
    List.mem_cons_self rfl

/- Once it is placed its readers wait for one cell less. -/
theorem Exact.waits_first
    (hMirrored : g.Mirrored)
    (hKeys : ∀ a ∈ members, a.relative = a)
    (h : s.Exact g members)
    (hQueue : s.queue = a :: rest)
    {b : Address}
    (hb : b ∈ members) :
    waits g members s.placed b =
      waits g members (s.placed ++ [a]) b
        + if b ∈ g.readersOf a then 1 else 0 := by
  have ⟨hMember, hNew⟩ := h.first hQueue
  have hReads : b ∈ g.readersOf a ↔ a ∈ g.readsOf b := by
    rw [hMirrored.mem_readsOf_iff, hKeys b hb,
      hKeys a hMember]
    exact (and_iff_right rfl).symm
  rw [waits_append hMember hNew]
  simp only [hReads]

/- Those released are the readers that waited for one. -/
theorem Exact.mem_released_iff
    (h : s.Exact g members)
    (a b : Address) :
    b ∈ (g.readersOf a).filter (s.pending.get? · = some 1) ↔
      b ∈ members ∧ b ∈ g.readersOf a
        ∧ waits g members s.placed b = 1 := by
  rw [List.mem_filter, decide_eq_true_eq]
  constructor
  · rintro ⟨hReader, hGet⟩
    have hb := h.others b 1 hGet
    rw [relative_of_mem_readersOf hReader] at hb
    rw [h.pending b hb] at hGet
    exact ⟨hb, hReader, Option.some.inj hGet⟩
  · rintro ⟨hb, hReader, hOne⟩
    exact ⟨hReader, by rw [h.pending b hb, hOne]⟩

/- A step adds those released to the cells that are ready. -/
theorem placed_append_queue_step
    (hQueue : s.queue = a :: rest) :
    (step g s).placed ++ (step g s).queue =
      (s.placed ++ s.queue)
        ++ (g.readersOf a).filter
          (s.pending.get? · = some 1) := by
  rw [placed_step hQueue, queue_step hQueue, hQueue]
  simp

/- They are the members that wait for none after the step. -/
theorem Exact.ready_step
    (hMirrored : g.Mirrored)
    (hKeys : ∀ a ∈ members, a.relative = a)
    (h : s.Exact g members)
    (hQueue : s.queue = a :: rest)
    (b : Address) :
    b ∈ (step g s).placed ++ (step g s).queue ↔
      b ∈ members
        ∧ waits g members (s.placed ++ [a]) b = 0 := by
  have hFewer := fun hb =>
    h.waits_first hMirrored hKeys hQueue (b := b) hb
  rw [placed_append_queue_step hQueue, List.mem_append,
    h.ready, h.mem_released_iff]
  constructor
  · rintro (⟨hb, hZero⟩ | ⟨hb, hReader, hOne⟩)
    · have := hFewer hb
      exact ⟨hb, by omega⟩
    · have hLess := hFewer hb
      rw [if_pos hReader] at hLess
      exact ⟨hb, by omega⟩
  · rintro ⟨hb, hZero⟩
    have hLess := hFewer hb
    split at hLess
    · next hReader => exact .inr ⟨hb, hReader, by omega⟩
    · exact .inl ⟨hb, by omega⟩

/- None of them is released twice. -/
theorem Exact.nodup_step
    (h : s.Exact g members)
    (hQueue : s.queue = a :: rest) :
    ((step g s).placed ++ (step g s).queue).Nodup := by
  rw [placed_append_queue_step hQueue]
  refine List.nodup_append.mpr ⟨h.nodup, ?_, ?_⟩
  · exact (CellMap.nodup_keys _).filter _
  · rintro b hOld c hReleased rfl
    have hZero := ((h.ready b).mp hOld).2
    have hOne := ((h.mem_released_iff a b).mp hReleased).2.2
    omega

/- What is placed waits for none, so it reads no new cell. -/
theorem Exact.ordered_step
    (h : s.Exact g members)
    (hQueue : s.queue = a :: rest) :
    (s.placed ++ [a]).Pairwise fun a b => b ∉ g.readsOf a := by
  have ⟨hMember, hNew⟩ := h.first hQueue
  rw [List.pairwise_append]
  refine ⟨h.ordered, List.pairwise_singleton _ _, ?_⟩
  intro b hb c hc hRead
  rw [List.mem_singleton.mp hc] at hRead
  have hDone :=
    ((h.ready b).mp (List.mem_append_left _ hb)).2
  exact hNew (waits_eq_zero_iff.mp hDone a hRead hMember)

end Placing

/- A step keeps the counts right. -/
theorem step_exact
    (hMirrored : g.Mirrored)
    (hKeys : ∀ a ∈ members, a.relative = a)
    (h : s.Exact g members) : (step g s).Exact g members := by
  cases hQueue : s.queue with
  | nil =>
      rw [step_nil hQueue]
      exact h
  | cons a rest =>
      have hPlaced := placed_step (g := g) hQueue
      refine ⟨?_, ?_, ?_, h.nodup_step hQueue, ?_⟩
      · intro b hb
        rw [get?_pending_step hQueue, h.pending b hb,
          h.waits_first hMirrored hKeys hQueue hb, hPlaced,
          hKeys b hb]
        split <;> simp
      · intro b n hGet
        rw [get?_pending_step hQueue] at hGet
        split at hGet
        · rcases Option.map_eq_some_iff.mp hGet with
            ⟨m, hBefore, -⟩
          exact h.others b m hBefore
        · exact h.others b n hGet
      · intro b
        rw [h.ready_step hMirrored hKeys hQueue, hPlaced]
      · rw [hPlaced]
        exact h.ordered_step hQueue

theorem repeat_exact
    (hMirrored : g.Mirrored)
    (hKeys : ∀ a ∈ members, a.relative = a)
    (h : s.Exact g members)
    (rounds : Nat) :
    (Nat.repeat (step g) rounds s).Exact g members := by
  induction rounds with
  | zero => exact h
  | succ rounds ih => exact step_exact hMirrored hKeys ih

/- Either nothing is left to place or each step placed one. -/
theorem repeat_placed
    (g : DependencyGraph)
    (s : Schedule)
    (rounds : Nat) :
    (Nat.repeat (step g) rounds s).queue = []
      ∨ (Nat.repeat (step g) rounds s).placed.length
        = s.placed.length + rounds := by
  induction rounds with
  | zero => exact Or.inr rfl
  | succ rounds ih =>
      simp only [Nat.repeat]
      generalize Nat.repeat (step g) rounds s = t at ih
      cases hQueue : t.queue with
      | nil =>
          left
          rw [step_nil hQueue]
          exact hQueue
      | cons a rest =>
          right
          have hLength := ih.resolve_left (by simp [hQueue])
          rw [placed_step hQueue, List.length_append, hLength]
          rfl

end Schedule

------------------------------------------------------------
-- The Last Schedule
------------------------------------------------------------

theorem lastSchedule_exact
    (hMirrored : g.Mirrored)
    (hKeys : ∀ a ∈ members, a.relative = a)
    (hNodup : members.Nodup) :
    (g.lastSchedule members).Exact g members :=
  Schedule.repeat_exact hMirrored hKeys
    (Schedule.start_exact g hKeys hNodup) _

/- At the end no member is left in the queue. -/
theorem lastSchedule_queue
    (hMirrored : g.Mirrored)
    (hKeys : ∀ a ∈ members, a.relative = a)
    (hNodup : members.Nodup) :
    (g.lastSchedule members).queue = [] := by
  have hExact := lastSchedule_exact hMirrored hKeys hNodup
  rcases Schedule.repeat_placed g (Schedule.start g members)
      members.length with hDone | hLength
  · exact hDone
  · change (g.lastSchedule members).placed.length = _
      at hLength
    have hSubset :
        (g.lastSchedule members).placed
          ++ (g.lastSchedule members).queue ⊆ members :=
      fun a ha => ((hExact.ready a).mp ha).1
    have hBound :=
      (List.subperm_of_subset hExact.nodup hSubset).length_le
    simp only [Schedule.start, List.length_append, hLength,
      List.length_nil] at hBound
    exact List.length_eq_zero_iff.mp (by omega)

/-
  A member is placed just in case all members that it reads
  are.
-/
theorem mem_placed_iff
    (hMirrored : g.Mirrored)
    (hKeys : ∀ a ∈ members, a.relative = a)
    (hNodup : members.Nodup)
    {a : Address} :
    a ∈ (g.lastSchedule members).placed ↔
      a ∈ members ∧ ∀ b ∈ g.readsOf a, b ∈ members →
        b ∈ (g.lastSchedule members).placed := by
  have hExact := lastSchedule_exact hMirrored hKeys hNodup
  have hReady := hExact.ready a
  rw [lastSchedule_queue hMirrored hKeys hNodup,
    List.append_nil, Schedule.waits_eq_zero_iff] at hReady
  exact hReady

------------------------------------------------------------
-- Stuck Members
------------------------------------------------------------

/- One member reads another. -/
def ReadsAmong
    (g : DependencyGraph)
    (members : List Address)
    (a b : Address) : Prop :=
  a ∈ members ∧ b ∈ members ∧ g.Reads a b

/-
  A cell from which what members read of each other leads to
  a cycle.
-/
def Stuck
    (g : DependencyGraph)
    (members : List Address)
    (a : Address) : Prop :=
  ∃ b, ReflTransGen (g.ReadsAmong members) a b
    ∧ TransGen (g.ReadsAmong members) b b

/- A member that reads a stuck one is stuck. -/
theorem Stuck.of_reads
    {a b : Address}
    (hReads : g.ReadsAmong members a b)
    (h : g.Stuck members b) : g.Stuck members a := by
  rcases h with ⟨c, hPath, hCycle⟩
  exact ⟨c, hPath.head hReads, hCycle⟩

/-
  Every member that is not stuck is placed. The induction is
  on the edges among such members, of which there are
  finitely many and none leads back.
-/
theorem mem_placed_of_not_stuck
    (hMirrored : g.Mirrored)
    (hKeys : ∀ a ∈ members, a.relative = a)
    (hNodup : members.Nodup)
    {a : Address}
    (ha : a ∈ members)
    (hFree : ¬ g.Stuck members a) :
    a ∈ (g.lastSchedule members).placed := by
  let Free : Type :=
    { x // x ∈ members ∧ ¬ g.Stuck members x }
  let before (x y : Free) : Prop :=
    TransGen (g.ReadsAmong members) y.1 x.1
  have : IsTrans _ before := ⟨fun _ _ _ h h' => h'.trans h⟩
  have : Std.Irrefl before :=
    ⟨fun x h => x.2.2 ⟨x.1, .refl, h⟩⟩
  have : Finite Free :=
    (List.finite_toSet members).subset fun _ hx => hx.1
  have hWellFounded : WellFounded before :=
    Finite.wellFounded_of_trans_of_irrefl before
  suffices h :
      ∀ x : Free, x.1 ∈ (g.lastSchedule members).placed from
    h ⟨a, ha, hFree⟩
  intro x
  induction x using hWellFounded.induction with
  | h x ih =>
      rw [mem_placed_iff hMirrored hKeys hNodup]
      refine ⟨x.2.1, fun b hRead hb => ?_⟩
      have hReads : g.ReadsAmong members x.1 b :=
        ⟨x.2.1, hb, hRead⟩
      have hFree : ¬ g.Stuck members b :=
        fun hStuck => x.2.2 (hStuck.of_reads hReads)
      exact ih ⟨b, hb, hFree⟩ (.single hReads)

/- Where edges make no cycle no member is stuck. -/
theorem Acyclic.not_stuck
    (hMirrored : g.Mirrored)
    (hAcyclic : g.Acyclic)
    (a : Address) : ¬ g.Stuck members a := by
  rintro ⟨b, -, hCycle⟩
  have hReads : g.ReadsAmong members ≤ g.Reads :=
    fun _ _ h => h.2.2
  exact hMirrored.acyclic_iff.mp hAcyclic b
    (TransGen.mono hReads _ _ hCycle)

------------------------------------------------------------
-- Evaluation Orders
------------------------------------------------------------

/- A list without repetitions stays as it is. -/
theorem eraseDups_eq_self
    {cells : List Address}
    (h : cells.Nodup) : cells.eraseDups = cells := by
  induction cells with
  | nil => rfl
  | cons a rest ih =>
      have ⟨hNew, hRest⟩ := List.nodup_cons.mp h
      have hKeep : (rest.filter fun b => !b == a) = rest := by
        apply List.filter_eq_self.mpr
        intro b hb
        have hne : b ≠ a := fun heq => hNew (heq ▸ hb)
        simpa using hne
      rw [List.eraseDups_cons, hKeep, ih hRest]

/- Cells that are positions, each once, are the members. -/
theorem membersOf_eq_self
    {cells : List Address}
    (hKeys : ∀ a ∈ cells, a.relative = a)
    (hNodup : cells.Nodup) : membersOf cells = cells := by
  unfold membersOf
  rw [Address.map_relative hKeys, eraseDups_eq_self hNodup]

/-
  Where edges make no cycle an order lists each cell once,
  after those that it reads.
-/
theorem evaluationOrder_of_acyclic
    (hMirrored : g.Mirrored)
    (hAcyclic : g.Acyclic)
    {cells : List Address}
    (hKeys : ∀ a ∈ cells, a.relative = a)
    (hNodup : cells.Nodup) :
    (g.evaluationOrder cells).Nodup
      ∧ (g.evaluationOrder cells).Pairwise
        fun a b => b ∉ g.readsOf a := by
  have hExact := lastSchedule_exact hMirrored hKeys hNodup
  have hLeft :
      (cells.filter fun a =>
        !(g.lastSchedule cells).placed.contains a) = [] := by
    apply List.filter_eq_nil_iff.mpr
    intro a ha
    simpa using
      mem_placed_of_not_stuck hMirrored hKeys hNodup ha
        (hAcyclic.not_stuck hMirrored a)
  rw [evaluationOrder_eq_placed,
    membersOf_eq_self hKeys hNodup, hLeft, List.append_nil]
  exact ⟨(List.nodup_append.mp hExact.nodup).1,
    hExact.ordered⟩

end DependencyGraph

end Spreadsheet
