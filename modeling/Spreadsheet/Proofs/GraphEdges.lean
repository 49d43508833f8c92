import Mathlib.Data.List.Nodup
import Mathlib.Tactic.Tauto
import Spreadsheet.DependencyGraph
import Spreadsheet.Proofs.CellMap

/-
  The edges of dependency graphs: what adding and forgetting
  edges does to the cells that a formula reads and to the
  readers of a cell, and that both directions stay mirror
  images of each other.

  Main declarations:
    * `Adjacency.pairs`
    * `DependencyGraph.Reads` and `DependencyGraph.ReadBy`
    * `DependencyGraph.Mirrored`
    * `DependencyGraph.mem_readersOf_add`
    * `DependencyGraph.mem_readersOf_removeReads`
    * `DependencyGraph.Mirrored.add`
    * `DependencyGraph.Mirrored.removeReads`
-/

namespace Spreadsheet

------------------------------------------------------------
-- Neighbours
------------------------------------------------------------

namespace Adjacency

/- Neighbours are listed without markers. -/
theorem relative_of_mem_neighbours
    {m : Adjacency}
    {a b : Address}
    (h : b ∈ m.neighbours a) : b.relative = b :=
  (CellSet.mem_toList_iff.mp h).1

/- Entries that are the neighbours of some cell. -/
theorem neighbours_of_get?
    {m : Adjacency}
    {a : Address}
    {set : CellSet}
    (h : m.get? a = some set) :
    m.neighbours a = set.toList := by
  unfold neighbours neighbourSet
  rw [h, Option.getD_some]

theorem mem_neighbours_link
    (m : Adjacency)
    (a b c x : Address) :
    x ∈ (m.link a b).neighbours c ↔
      x ∈ m.neighbours c
        ∨ (c.relative = a.relative ∧ x = b.relative) := by
  simp only [neighbours, CellSet.mem_toList_iff,
    neighbourSet, link, CellMap.get?_insert]
  by_cases hc : c.relative = a.relative
  · have hGet : m.get? c = m.get? a := by
      rw [← CellMap.get?_relative, hc, CellMap.get?_relative]
    rw [if_pos hc, Option.getD_some, CellSet.contains_add,
      hGet]
    constructor
    · rintro ⟨hx, hxb | hMem⟩
      · exact Or.inr ⟨hc, hx.symm.trans hxb⟩
      · exact Or.inl ⟨hx, hMem⟩
    · rintro (⟨hx, hMem⟩ | ⟨-, rfl⟩)
      · exact ⟨hx, Or.inr hMem⟩
      · exact ⟨rfl, Or.inl rfl⟩
  · simp only [hc, ↓reduceIte, false_and, or_false]

theorem mem_neighbours_erase
    (m : Adjacency)
    (a c x : Address) :
    x ∈ Adjacency.neighbours (m.erase a) c ↔
      x ∈ m.neighbours c ∧ c.relative ≠ a.relative := by
  simp only [neighbours, CellSet.mem_toList_iff,
    neighbourSet, CellMap.get?_erase]
  by_cases hc : c.relative = a.relative
  · simp only [hc, ↓reduceIte, Option.getD_none, ne_eq,
      not_true_eq_false, and_false, iff_false, not_and]
    intro _ hMem
    simp [CellMap.contains] at hMem
  · simp only [hc, ↓reduceIte, ne_eq, not_false_eq_true,
      and_true]

theorem mem_neighbours_unlink
    (m : Adjacency)
    (a b c x : Address) :
    x ∈ (m.unlink a b).neighbours c ↔
      x ∈ m.neighbours c
        ∧ ¬ (c.relative = a.relative ∧ x = b.relative) := by
  unfold unlink
  cases hGet : m.get? a with
  | none =>
      have hNone :
          c.relative = a.relative → x ∉ m.neighbours c := by
        intro hc hx
        have hGet' : m.get? c = none := by
          rw [← CellMap.get?_relative, hc]
          exact hGet
        simp [neighbours, CellSet.mem_toList_iff,
          neighbourSet, hGet', CellMap.contains] at hx
      constructor
      · intro hx
        exact ⟨hx, fun h => hNone h.1 hx⟩
      · exact And.left
  | some set =>
      have hRest :
          c.relative = a.relative →
            (x ∈ m.neighbours c ↔ x ∈ CellSet.toList set) := by
        intro hc
        have hGet' : m.get? c = some set := by
          rw [← CellMap.get?_relative, hc]
          exact hGet
        simp only [neighbours, neighbourSet, hGet',
          Option.getD_some]
      have hErase :
          x ∈ CellSet.toList (set.erase b) ↔
            x ∈ CellSet.toList set ∧ x ≠ b.relative := by
        simp only [CellSet.mem_toList_iff,
          CellSet.contains_erase]
        constructor
        · rintro ⟨hx, hne, hMem⟩
          exact ⟨⟨hx, hMem⟩, hx ▸ hne⟩
        · rintro ⟨⟨hx, hMem⟩, hne⟩
          exact ⟨hx, by rw [hx]; exact hne, hMem⟩
      by_cases hc : c.relative = a.relative
      · simp only [hc, true_and]
        rw [hRest hc, ← hErase]
        split
        · next hEmpty =>
            rw [mem_neighbours_erase]
            simp only [hc, ne_eq, not_true_eq_false,
              and_false, false_iff]
            intro hx
            have hMem := (CellSet.mem_toList_iff.mp hx).2
            rw [CellSet.contains_of_isEmpty hEmpty] at hMem
            exact Bool.false_ne_true hMem
        · simp only [neighbours, neighbourSet,
            CellMap.get?_insert, hc, ↓reduceIte,
            Option.getD_some]
      · simp only [hc, false_and, not_false_eq_true,
          and_true]
        split
        · rw [mem_neighbours_erase]
          exact and_iff_left hc
        · simp only [neighbours, neighbourSet,
            CellMap.get?_insert, hc, ↓reduceIte]

/- Forgetting one neighbour in several cells. -/
theorem mem_neighbours_foldl_unlink
    (targets : List Address)
    (m : Adjacency)
    (b c x : Address) :
    x ∈ (targets.foldl
        (fun m target => m.unlink target b) m).neighbours c ↔
      x ∈ m.neighbours c
        ∧ ¬ (x = b.relative
          ∧ c.relative ∈ targets.map Address.relative) := by
  induction targets generalizing m with
  | nil => simp
  | cons a rest ih =>
      rw [List.foldl_cons, ih, mem_neighbours_unlink,
        List.map_cons, List.mem_cons]
      tauto

------------------------------------------------------------
-- Pairs
------------------------------------------------------------

/- The edges as pairs of a cell and one of its neighbours. -/
def pairs
    (m : Adjacency) : List (Address × Address) :=
  m.entries.flatMap fun p =>
    (CellSet.toList p.2).map (Prod.mk p.1)

/- There are as many pairs as there are edges. -/
theorem length_pairs
    (m : Adjacency) : m.pairs.length = m.edgeCount := by
  simp only [pairs, edgeCount, List.length_flatMap,
    List.length_map, CellSet.toList]

/- The first of a pair carries no markers. -/
theorem mem_pairs_iff
    {m : Adjacency}
    {a b : Address} :
    (a, b) ∈ m.pairs ↔
      a.relative = a ∧ b ∈ m.neighbours a := by
  unfold pairs
  rw [List.mem_flatMap]
  constructor
  · rintro ⟨p, hp, hMem⟩
    rcases List.mem_map.mp hMem with ⟨c, hc, hEq⟩
    cases hEq
    have ⟨hKey, hGet⟩ := CellMap.get?_of_mem_entries hp
    exact ⟨hKey, by rwa [neighbours_of_get? hGet]⟩
  · rintro ⟨hKey, hb⟩
    cases hGet : m.get? a with
    | none =>
        unfold neighbours neighbourSet at hb
        rw [hGet] at hb
        exact absurd hb List.not_mem_nil
    | some set =>
        rw [neighbours_of_get? hGet] at hb
        have hEntry := CellMap.get?_eq_some_iff.mp hGet
        rw [hKey] at hEntry
        exact ⟨(a, set), hEntry,
          List.mem_map.mpr ⟨b, hb, rfl⟩⟩

/- No pair is listed twice. -/
theorem nodup_pairs
    (m : Adjacency) : m.pairs.Nodup := by
  unfold pairs
  rw [List.nodup_flatMap]
  refine ⟨fun p _ => ?_, ?_⟩
  · exact (CellMap.nodup_keys p.2).map
      fun b c hEq => (Prod.mk.inj hEq).2
  · refine (List.pairwise_map.mp m.nodup_keys).imp ?_
    intro p q hne x hp hq
    rcases List.mem_map.mp hp with ⟨b, -, rfl⟩
    rcases List.mem_map.mp hq with ⟨c, -, hEq⟩
    exact hne (Prod.mk.inj hEq).1.symm

end Adjacency

------------------------------------------------------------
-- Edges
------------------------------------------------------------

namespace DependencyGraph

/- A cell is among those that a formula reads. -/
abbrev Reads
    (g : DependencyGraph)
    (formula cell : Address) : Prop :=
  cell ∈ g.readsOf formula

/- A formula is among the readers of a cell. -/
def ReadBy
    (g : DependencyGraph)
    (cell formula : Address) : Prop :=
  formula ∈ g.readersOf cell

/-
  Both directions hold the same edges: a formula reads a
  cell just in case it is among the readers of the cell.
-/
def Mirrored
    (g : DependencyGraph) : Prop :=
  ∀ formula cell : Address,
    cell.relative ∈ g.readsOf formula ↔
      formula.relative ∈ g.readersOf cell

theorem readsOf_relative
    (g : DependencyGraph)
    (a : Address) : g.readsOf a.relative = g.readsOf a :=
  rfl

/- Readers are listed without markers. -/
theorem relative_of_mem_readersOf
    {g : DependencyGraph}
    {c x : Address}
    (h : x ∈ g.readersOf c) : x.relative = x :=
  Adjacency.relative_of_mem_neighbours h

theorem mem_readersOf_add
    (g : DependencyGraph)
    (formula target c x : Address) :
    x ∈ (g.add formula target).readersOf c ↔
      x ∈ g.readersOf c
        ∨ (c.relative = target.relative
          ∧ x = formula.relative) :=
  Adjacency.mem_neighbours_link g.readers target formula c x

theorem mem_readsOf_add
    (g : DependencyGraph)
    (formula target c x : Address) :
    x ∈ (g.add formula target).readsOf c ↔
      x ∈ g.readsOf c
        ∨ (c.relative = formula.relative
          ∧ x = target.relative) :=
  Adjacency.mem_neighbours_link g.reads formula target c x

theorem mem_readsOf_removeReads
    (g : DependencyGraph)
    (formula c x : Address) :
    x ∈ (g.removeReads formula).readsOf c ↔
      x ∈ g.readsOf c ∧ c.relative ≠ formula.relative :=
  Adjacency.mem_neighbours_erase g.reads formula c x

/- Only the cells that a formula reads lose it as a reader. -/
theorem mem_readersOf_removeReads
    (g : DependencyGraph)
    (formula c x : Address) :
    x ∈ (g.removeReads formula).readersOf c ↔
      x ∈ g.readersOf c
        ∧ ¬ (x = formula.relative
          ∧ c.relative ∈ g.readsOf formula) := by
  have hTargets :
      (g.reads.neighbours formula).map Address.relative
        = g.reads.neighbours formula :=
    Address.map_relative fun _ hb =>
      Adjacency.relative_of_mem_neighbours hb
  have h := Adjacency.mem_neighbours_foldl_unlink
    (g.reads.neighbours formula) g.readers formula c x
  rw [hTargets] at h
  exact h

/- The empty graph has no edges in either direction. -/
theorem Mirrored.empty : Mirrored DependencyGraph.empty := by
  intro formula cell
  exact ⟨fun h => absurd h List.not_mem_nil,
    fun h => absurd h List.not_mem_nil⟩

/- An edge can be seen from both of its ends. -/
theorem Mirrored.mem_readsOf_iff
    {g : DependencyGraph}
    (h : g.Mirrored)
    {formula cell : Address} :
    cell ∈ g.readsOf formula ↔
      cell.relative = cell
        ∧ g.ReadBy cell formula.relative := by
  constructor
  · intro hEdge
    have hKey := Adjacency.relative_of_mem_neighbours hEdge
    exact ⟨hKey, (h formula cell).mp (by rwa [hKey])⟩
  · rintro ⟨hKey, hEdge⟩
    rw [← hKey]
    exact (h formula cell).mpr hEdge

/- An edge is added in both directions. -/
theorem Mirrored.add
    {g : DependencyGraph}
    (h : g.Mirrored)
    (formula target : Address) :
    (g.add formula target).Mirrored := by
  intro x c
  rw [mem_readsOf_add, mem_readersOf_add, h x c]
  tauto

/- Edges are forgotten in both directions. -/
theorem Mirrored.removeReads
    {g : DependencyGraph}
    (h : g.Mirrored)
    (formula : Address) :
    (g.removeReads formula).Mirrored := by
  intro x c
  rw [mem_readsOf_removeReads, mem_readersOf_removeReads]
  constructor
  · rintro ⟨hReads, hne⟩
    exact ⟨(h x c).mp hReads, fun heq => hne heq.1⟩
  · rintro ⟨hReader, hNot⟩
    have hReads := (h x c).mpr hReader
    refine ⟨hReads, fun heq => hNot ⟨heq, ?_⟩⟩
    have hSame : g.readsOf x = g.readsOf formula := by
      rw [← readsOf_relative, heq, readsOf_relative]
    rw [← hSame]
    exact hReads

/-
  In a mirrored graph no cell keeps a formula among its
  readers whose edges were forgotten.
-/
theorem Mirrored.mem_readersOf_removeReads_iff
    {g : DependencyGraph}
    (h : g.Mirrored)
    (formula c x : Address) :
    x ∈ (g.removeReads formula).readersOf c ↔
      x ∈ g.readersOf c ∧ x ≠ formula.relative := by
  rw [mem_readersOf_removeReads]
  constructor
  · rintro ⟨hReader, hNot⟩
    refine ⟨hReader, fun heq => hNot ⟨heq, ?_⟩⟩
    exact (h formula c).mpr (heq ▸ hReader)
  · rintro ⟨hReader, hne⟩
    exact ⟨hReader, fun heq => hne heq.1⟩

end DependencyGraph

end Spreadsheet
