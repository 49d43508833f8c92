import Mathlib.Data.List.Sort
import Spreadsheet.Proofs.SheetGraph

/-
  What holds of a dependency graph that edges are added to
  under the guard against cycles: both directions hold the
  same edges without empty entries, and following edges
  never leads back. Such a graph is given by what each
  formula reads.

  Main declarations:
    * `CellMap.ext_get?`, `CellMap.keys_congr` and
      `CellSet.ext_mem`
    * `DependencyGraph.Mirrored.acyclic_iff`
    * `DependencyGraph.Paired` and `Paired.isConsistent`
    * `DependencyGraph.WellFormed`
    * `DependencyGraph.WellFormed.ext`
    * `DependencyGraph.WellFormed.relink`
    * `Engine.linkFormula_congr`
-/

namespace Spreadsheet

open Relation

------------------------------------------------------------
-- Maps And Sets By Their Members
------------------------------------------------------------

namespace CellMap

variable {α : Type}

/- An entry of a map whose look-ups another one agrees with. -/
theorem entries_subset
    {m m' : CellMap α}
    (h : ∀ a, m.get? a = m'.get? a) :
    m.entries ⊆ m'.entries := by
  intro p hp
  have ⟨hKey, hGet⟩ := get?_of_mem_entries hp
  rw [h] at hGet
  have hMem := get?_eq_some_iff.mp hGet
  rw [hKey] at hMem
  exact hMem

/- Maps that answer every look-up alike are equal. -/
theorem ext_get?
    {m m' : CellMap α}
    (h : ∀ a, m.get? a = m'.get? a) : m = m' := by
  have hIrrefl :
      Std.Irrefl fun p q : Address × α => p.1 < q.1 :=
    ⟨fun p => Address.lt_irrefl p.1⟩
  have hAntisymm :
      Std.Antisymm fun p q : Address × α => p.1 < q.1 :=
    ⟨fun p q hpq hqp =>
      absurd (Address.lt_trans hpq hqp)
        (Address.lt_irrefl p.1)⟩
  have hEntries : m.entries = m'.entries :=
    List.Subset.antisymm_of_pairwise m.sorted.1 m'.sorted.1
      (entries_subset h) (entries_subset fun a => (h a).symm)
  exact eq_of_entries hEntries

/- Maps that hold values in the same places list them alike. -/
theorem keys_congr
    {β : Type}
    {m : CellMap α}
    {m' : CellMap β}
    (h : ∀ a, (m'.get? a).isSome = (m.get? a).isSome) :
    m'.keys = m.keys := by
  have hPlaces :
      m'.map (fun _ => ()) = m.map (fun _ => ()) := by
    apply ext_get?
    intro a
    have hSome := h a
    rw [get?_map, get?_map]
    generalize m.get? a = found at hSome
    generalize m'.get? a = found' at hSome
    match found, found', hSome with
    | none, none, _ => rfl
    | some value, some value', _ => rfl
  have hKeys := congrArg keys hPlaces
  unfold keys map at hKeys
  rw [List.map_map, List.map_map] at hKeys
  exact hKeys

end CellMap

/- Sets with the same members are equal. -/
theorem CellSet.ext_mem
    {s s' : CellSet}
    (h : ∀ a, a ∈ s.toList ↔ a ∈ s'.toList) : s = s' := by
  apply CellMap.ext_get?
  intro a
  have hContains :
      CellMap.contains s a = CellMap.contains s' a := by
    apply Bool.eq_iff_iff.mpr
    have hMem := h a.relative
    rw [mem_toList_iff, mem_toList_iff] at hMem
    simpa [CellMap.contains] using hMem
  unfold CellMap.contains at hContains
  cases hGet : s.get? a <;> cases hGet' : s'.get? a <;>
    simp_all

------------------------------------------------------------
-- No Empty Entries
------------------------------------------------------------

namespace Adjacency

/- Every cell with an entry has neighbours. -/
def Filled
    (m : Adjacency) : Prop :=
  ∀ a set, m.get? a = some set → set.isEmpty = false

theorem isEmpty_add
    (s : CellSet)
    (a : Address) : CellMap.isEmpty (s.add a) = false := by
  cases hEmpty : CellMap.isEmpty (s.add a) with
  | false => rfl
  | true =>
      have hNone := CellSet.contains_of_isEmpty hEmpty a
      rw [(CellSet.contains_add s a a).mpr (Or.inl rfl)]
        at hNone
      cases hNone

theorem Filled.empty : Filled CellMap.empty :=
  fun _ _ h => by cases h

theorem Filled.insert
    {m : Adjacency}
    (h : m.Filled)
    {set : CellSet}
    (hSet : set.isEmpty = false)
    (a : Address) : Filled (CellMap.insert m a set) := by
  intro b found hGet
  rcases CellMap.get?_insert_eq_some hGet with
    ⟨-, rfl⟩ | hBefore
  · exact hSet
  · exact h b found hBefore

theorem Filled.erase
    {m : Adjacency}
    (h : m.Filled)
    (a : Address) : Filled (CellMap.erase m a) := by
  intro b set hGet
  rw [CellMap.get?_erase] at hGet
  split at hGet
  · cases hGet
  · exact h b set hGet

theorem Filled.link
    {m : Adjacency}
    (h : m.Filled)
    (a b : Address) : (m.link a b).Filled :=
  h.insert (isEmpty_add _ b) a

theorem Filled.unlink
    {m : Adjacency}
    (h : m.Filled)
    (a b : Address) : (m.unlink a b).Filled := by
  unfold Adjacency.unlink
  split
  · exact h
  · dsimp only
    split
    · exact h.erase a
    · next hRest =>
        exact h.insert (Bool.eq_false_iff.mpr hRest) a

theorem Filled.foldl_unlink
    {m : Adjacency}
    (h : m.Filled)
    (targets : List Address)
    (b : Address) :
    Filled (targets.foldl (fun m a => m.unlink a b) m) := by
  induction targets generalizing m with
  | nil => exact h
  | cons a rest ih => exact ih (h.unlink a b)

/- A direction is reversed in one with all edges turned. -/
theorem isReversedIn_of_turned
    {m other : Adjacency}
    (hFilled : m.Filled)
    (hTurned :
      ∀ a b, b ∈ m.neighbours a →
        a.relative ∈ other.neighbours b) :
    m.isReversedIn other = true := by
  unfold isReversedIn
  rw [List.all_eq_true]
  intro p hp
  have ⟨hKey, hGet⟩ := CellMap.get?_of_mem_entries hp
  rw [Bool.and_eq_true, List.all_eq_true]
  refine ⟨by rw [hFilled _ _ hGet]; rfl, ?_⟩
  intro b hb
  have hEdge := hTurned p.1 b
    (by rw [neighbours_of_get? hGet]; exact hb)
  rw [hKey] at hEdge
  exact (CellSet.mem_toList_iff.mp hEdge).2

/- Where entries are filled, neighbours decide on them. -/
theorem Filled.get?_eq
    {m : Adjacency}
    (h : m.Filled)
    (a : Address) :
    m.get? a =
      if m.neighbours a = [] then none
      else some (m.neighbourSet a) := by
  cases hGet : m.get? a with
  | none =>
      have hNil : m.neighbours a = [] := by
        unfold neighbours neighbourSet
        rw [hGet]
        rfl
      rw [if_pos hNil]
  | some set =>
      have hSet := h a set hGet
      have hCons : m.neighbours a ≠ [] := by
        rw [neighbours_of_get? hGet]
        intro hNil
        have hEntries := List.map_eq_nil_iff.mp hNil
        unfold CellMap.isEmpty at hSet
        rw [hEntries] at hSet
        cases hSet
      rw [if_neg hCons]
      unfold neighbourSet
      rw [hGet, Option.getD_some]

/- Filled maps with the same neighbours are equal. -/
theorem ext_neighbours
    {m m' : Adjacency}
    (hFilled : m.Filled)
    (hFilled' : m'.Filled)
    (h : ∀ a b, b ∈ m.neighbours a ↔ b ∈ m'.neighbours a) :
    m = m' := by
  apply CellMap.ext_get?
  intro a
  have hSet : m.neighbourSet a = m'.neighbourSet a :=
    CellSet.ext_mem (h a)
  rw [hFilled.get?_eq, hFilled'.get?_eq]
  unfold neighbours
  rw [hSet]

end Adjacency

namespace DependencyGraph

variable {g : DependencyGraph}

------------------------------------------------------------
-- Paths In Either Direction
------------------------------------------------------------

/- Paths of readers, followed from the other end. -/
theorem Mirrored.reflTransGen_readBy_iff
    (h : g.Mirrored)
    {a b : Address} :
    ReflTransGen g.ReadBy a.relative b ↔
      b.relative = b
        ∧ ReflTransGen g.Reads b a.relative := by
  constructor
  · intro hPath
    induction hPath with
    | refl => exact ⟨rfl, .refl⟩
    | tail _ hEdge ih =>
        have hKey := relative_of_mem_readersOf hEdge
        refine ⟨hKey, .head (h.mem_readsOf_iff.mpr ?_) ih.2⟩
        exact ⟨ih.1, by rw [hKey]; exact hEdge⟩
  · rintro ⟨hKey, hPath⟩
    rw [← hKey]
    induction hPath using ReflTransGen.head_induction_on with
    | refl => exact .refl
    | head hEdge _ ih =>
        have ⟨hTarget, hReader⟩ := h.mem_readsOf_iff.mp hEdge
        have hRest := ih hTarget
        rw [hTarget] at hRest
        exact hRest.tail hReader

/- Turning edges around turns paths around. -/
theorem Mirrored.transGen_readBy
    (h : g.Mirrored)
    {a b : Address}
    (hPath : TransGen g.Reads a b) :
    TransGen g.ReadBy b.relative a.relative := by
  have hTurn :
      ∀ x y, g.Reads x y →
        g.ReadBy y.relative x.relative := by
    intro x y hEdge
    have ⟨hKey, hReader⟩ := h.mem_readsOf_iff.mp hEdge
    rw [hKey]
    exact hReader
  induction hPath with
  | single hEdge => exact .single (hTurn _ _ hEdge)
  | tail _ hEdge ih => exact .head (hTurn _ _ hEdge) ih

/- The same from readers to what they read. -/
theorem Mirrored.transGen_reads
    (h : g.Mirrored)
    {a b : Address}
    (hPath : TransGen g.ReadBy a b) :
    TransGen g.Reads b.relative a.relative := by
  have hTurn :
      ∀ x y, g.ReadBy x y →
        g.Reads y.relative x.relative := by
    intro x y hEdge
    have hKey := relative_of_mem_readersOf hEdge
    exact (h y x).mpr (by rw [hKey]; exact hEdge)
  induction hPath with
  | single hEdge => exact .single (hTurn _ _ hEdge)
  | tail _ hEdge ih => exact .head (hTurn _ _ hEdge) ih

------------------------------------------------------------
-- Paths Through A New Edge
------------------------------------------------------------

/-
  A path of edges after an edge was added is one from
  before, or it runs up to the new edge and on from it.
-/
theorem transGen_readBy_add
    {formula target x y : Address}
    (h : TransGen (g.add formula target).ReadBy x y) :
    TransGen g.ReadBy x y
      ∨ (∃ c, c.relative = target.relative
          ∧ ReflTransGen g.ReadBy x c)
        ∧ ReflTransGen g.ReadBy formula.relative y := by
  induction h with
  | single hEdge =>
      rcases (mem_readersOf_add g formula target _ _).mp hEdge
        with hOld | ⟨hx, hy⟩
      · exact Or.inl (.single hOld)
      · exact Or.inr ⟨⟨x, hx, .refl⟩, hy ▸ .refl⟩
  | tail _ hEdge ih =>
      rcases (mem_readersOf_add g formula target _ _).mp hEdge
        with hOld | ⟨hw, hz⟩
      · rcases ih with hPath | ⟨hBefore, hAfter⟩
        · exact Or.inl (hPath.tail hOld)
        · exact Or.inr ⟨hBefore, hAfter.tail hOld⟩
      · rcases ih with hPath | ⟨hBefore, -⟩
        · exact Or.inr ⟨⟨_, hw, hPath.to_reflTransGen⟩,
            hz ▸ .refl⟩
        · exact Or.inr ⟨hBefore, hz ▸ .refl⟩

/- Edges lead back to no cell. -/
def Acyclic
    (g : DependencyGraph) : Prop :=
  ∀ a, ¬ TransGen g.ReadBy a a

/- It does not matter in which direction they are taken. -/
theorem Mirrored.acyclic_iff
    (h : g.Mirrored) :
    g.Acyclic ↔ ∀ a, ¬ TransGen g.Reads a a :=
  ⟨fun hAcyclic a hCycle =>
      hAcyclic a.relative (h.transGen_readBy hCycle),
    fun hNone a hCycle =>
      hNone a.relative (h.transGen_reads hCycle)⟩

/- An edge that the guard lets through closes no cycle. -/
theorem Acyclic.add
    {formula target : Address}
    (h : g.Acyclic)
    (hCloses : g.closesCycle formula target = false) :
    (g.add formula target).Acyclic := by
  intro a hCycle
  rcases transGen_readBy_add hCycle with
    hOld | ⟨⟨c, hc, hBefore⟩, hAfter⟩
  · exact h a hOld
  · have hPath := hAfter.trans hBefore
    have hKey : c.relative = c := by
      rcases ReflTransGen.cases_tail hPath with
        hEq | ⟨y, -, hEdge⟩
      · rw [hEq]
        rfl
      · exact relative_of_mem_readersOf hEdge
    rw [← hKey, hc, ← closesCycle_iff, hCloses] at hPath
    cases hPath

theorem Acyclic.removeReads
    (h : g.Acyclic)
    (formula : Address) : (g.removeReads formula).Acyclic := by
  intro a hCycle
  apply h a
  refine TransGen.mono ?_ a a hCycle
  intro c x hEdge
  exact ((mem_readersOf_removeReads g formula c x).mp hEdge).1

------------------------------------------------------------
-- Paired Directions
------------------------------------------------------------

/-
  Both directions hold the same edges and no empty entries.
  Edges may make cycles.
-/
structure Paired
    (g : DependencyGraph) : Prop where
  mirrored : g.Mirrored
  reads : g.reads.Filled
  readers : g.readers.Filled

namespace Paired

theorem empty : Paired DependencyGraph.empty where
  mirrored := Mirrored.empty
  reads := Adjacency.Filled.empty
  readers := Adjacency.Filled.empty

theorem add
    (h : g.Paired)
    (formula target : Address) :
    (g.add formula target).Paired where
  mirrored := h.mirrored.add formula target
  reads := h.reads.link formula target
  readers := h.readers.link target formula

theorem removeReads
    (h : g.Paired)
    (formula : Address) : (g.removeReads formula).Paired where
  mirrored := h.mirrored.removeReads formula
  reads := h.reads.erase formula
  readers := h.readers.foldl_unlink _ formula

/- The check of both directions succeeds. -/
theorem isConsistent
    (h : g.Paired) : g.isConsistent = true := by
  unfold DependencyGraph.isConsistent
  rw [Bool.and_eq_true]
  constructor
  · apply Adjacency.isReversedIn_of_turned h.reads
    intro a b hb
    exact (h.mirrored.mem_readsOf_iff.mp hb).2
  · apply Adjacency.isReversedIn_of_turned h.readers
    intro a b hb
    have hKey := Adjacency.relative_of_mem_neighbours hb
    exact (h.mirrored b a).mpr (by rw [hKey]; exact hb)

end Paired

------------------------------------------------------------
-- Well-Formed Graphs
------------------------------------------------------------

/-
  Both directions hold the same edges and no empty entries,
  and edges make no cycle.
-/
structure WellFormed
    (g : DependencyGraph) : Prop where
  mirrored : g.Mirrored
  reads : g.reads.Filled
  readers : g.readers.Filled
  acyclic : g.Acyclic

namespace WellFormed

theorem paired
    (h : g.WellFormed) : g.Paired :=
  ⟨h.mirrored, h.reads, h.readers⟩

theorem ofPaired
    (h : g.Paired)
    (hAcyclic : g.Acyclic) : g.WellFormed :=
  ⟨h.mirrored, h.reads, h.readers, hAcyclic⟩

theorem empty : WellFormed DependencyGraph.empty :=
  ofPaired .empty fun a hCycle => by
    rcases TransGen.head'_iff.mp hCycle with ⟨b, hEdge, -⟩
    exact List.not_mem_nil hEdge

theorem removeReads
    (h : g.WellFormed)
    (formula : Address) :
    (g.removeReads formula).WellFormed :=
  ofPaired (h.paired.removeReads formula)
    (h.acyclic.removeReads formula)

/- The guard keeps a graph well-formed edge by edge. -/
theorem linkTarget
    (h : g.WellFormed)
    (a target : Address) :
    (Engine.linkTarget a g target).WellFormed := by
  unfold Engine.linkTarget
  split
  · exact h
  · next hCloses =>
      exact ofPaired (h.paired.add a target)
        (h.acyclic.add (Bool.eq_false_iff.mpr hCloses))

theorem linkFormula
    (h : g.WellFormed)
    (a : Address)
    (e : Expr) : (Engine.linkFormula g a e).WellFormed :=
  Engine.linkFormula_induction h
    fun _ hBefore target _ => hBefore.linkTarget a target

theorem relink
    (h : g.WellFormed)
    (sheet : Sheet)
    (a : Address) : (Engine.relink g sheet a).WellFormed := by
  unfold Engine.relink
  dsimp only
  split
  · exact (h.removeReads a).linkFormula _ _
  · exact h.removeReads a

theorem graphOf
    (sheet : Sheet) : (Engine.graphOf sheet).WellFormed :=
  Engine.graphOf_induction empty
    fun _ hBefore p _ => hBefore.linkFormula p.1 p.2

theorem isConsistent
    (h : g.WellFormed) : g.isConsistent = true :=
  h.paired.isConsistent

/- Such graphs with the same readers are equal. -/
theorem ext
    {g' : DependencyGraph}
    (h : g.WellFormed)
    (h' : g'.WellFormed)
    (hEdges : ∀ c x, g.ReadBy c x ↔ g'.ReadBy c x) :
    g = g' := by
  have hReads :
      ∀ a b, b ∈ g.readsOf a ↔ b ∈ g'.readsOf a := by
    intro a b
    rw [h.mirrored.mem_readsOf_iff,
      h'.mirrored.mem_readsOf_iff, hEdges]
  cases g
  cases g'
  congr 1
  · exact Adjacency.ext_neighbours h.reads h'.reads hReads
  · exact Adjacency.ext_neighbours h.readers h'.readers hEdges

end WellFormed

end DependencyGraph

------------------------------------------------------------
-- Formulas With The Same Precedents
------------------------------------------------------------

namespace Engine

open DependencyGraph

variable {g : DependencyGraph}
variable {a : Address}

/-
  Formulas that are ordered after the same cells draw the
  same edges into a graph, cyclic or not.
-/
theorem linkFormula_congr
    {e e' : Expr}
    (h : g.WellFormed)
    (hSame : ∀ b, b ∈ e'.precedents ↔ b ∈ e.precedents) :
    linkFormula g a e' = linkFormula g a e := by
  apply (h.linkFormula a e').ext (h.linkFormula a e)
  intro c x
  have hKeys :
      ∀ e : Expr,
        e.precedents.map Address.relative = e.precedents :=
    fun _ =>
      Address.map_relative fun _ => relative_of_mem_precedents
  rw [linkFormula_eq, linkFormula_eq, readBy_foldl_linkTarget,
    readBy_foldl_linkTarget, hKeys, hKeys, hSame]

end Engine

end Spreadsheet
