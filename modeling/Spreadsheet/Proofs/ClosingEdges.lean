import Spreadsheet.Proofs.GraphChanges

/-
  What the guard against cycles says of any graph, whether
  or not edges were let past it before. Its walk sets out
  from the formula and goes along readers, which is against
  the edges; as both directions hold the same edges, it
  arrives just in case the target leads to the formula. So
  the guard refuses the edges that would make a first cycle,
  and no others.

  Key definitions include:
    * `DependencyGraph.Guarded`

  The main result is `DependencyGraph.afterChanges_guarded`.
-/

namespace Spreadsheet

namespace DependencyGraph

open Relation

variable {g : DependencyGraph}
variable {formula target : Address}

/-
  The guard's answer about an edge, in terms of what cells
  read: the walk is over after its rounds, so that no round
  more changes it, and answers alike in whatever order
  readers are stacked, it finds the edges that close a loop
  or complete a path back, and adding an edge makes a first
  cycle just in case it is one of these.
-/
structure Guarded
    (g : DependencyGraph)
    (formula target : Address) : Prop where
  halts :
    ∀ readers, g.ListsReaders readers →
      let last := g.walkBack readers formula target
      last.Over
        ∧ Walk.step readers target.relative last = last
  alike :
    ∀ readers, g.ListsReaders readers →
      (formula.relative == target.relative
          || (g.walkBack readers formula target).arrived) =
        g.closesCycle formula target
  closes :
    g.closesCycle formula target = true ↔
      formula.relative = target.relative
        ∨ TransGen g.Reads target.relative formula.relative
  keeps :
    (∀ a, ¬ TransGen g.Reads a a) →
      ((∀ a, ¬ TransGen (g.add formula target).Reads a a) ↔
        g.closesCycle formula target = false)

/- Either end of an edge can be the one to search from. -/
theorem Mirrored.closesCycle_iff_reads
    (h : g.Mirrored) :
    g.closesCycle formula target = true ↔
      formula.relative = target.relative
        ∨ TransGen g.Reads target.relative
          formula.relative := by
  rw [closesCycle_iff, h.reflTransGen_readBy_iff,
    reflTransGen_iff_eq_or_transGen]
  exact and_iff_right rfl

/- An edge that the guard refuses does make a cycle. -/
theorem Acyclic.add_iff
    (h : g.Acyclic) :
    (g.add formula target).Acyclic ↔
      g.closesCycle formula target = false := by
  refine ⟨fun hAfter => ?_, h.add⟩
  rw [← Bool.not_eq_true, closesCycle_iff]
  intro hPath
  have hOld :
      g.ReadBy ≤ (g.add formula target).ReadBy :=
    fun c x hEdge =>
      (mem_readersOf_add g formula target c x).mpr
        (Or.inl hEdge)
  have hNew :
      (g.add formula target).ReadBy target.relative
        formula.relative :=
    (mem_readersOf_add g formula target _ _).mpr
      (Or.inr ⟨rfl, rfl⟩)
  exact hAfter formula.relative
    (TransGen.tail' (ReflTransGen.mono hOld _ _ hPath) hNew)

/- The guard is exact after any changes of a graph. -/
theorem afterChanges_guarded
    (changes : List Change)
    (formula target : Address) :
    (afterChanges changes).Guarded formula target where
  halts := by
    intro readers hReaders
    have hOver := walkBack_over hReaders formula target
    have hSound := walkBack_sound hReaders formula target
    exact ⟨hOver, Walk.step_over hSound hOver⟩
  alike := by
    intro readers hReaders
    unfold closesCycle
    rw [Bool.eq_iff_iff, Bool.or_eq_true, Bool.or_eq_true,
      arrived_walkBack_iff hReaders,
      arrived_walkBack_iff fun _ => .refl _]
  closes :=
    (paired_afterChanges changes).mirrored
      |>.closesCycle_iff_reads
  keeps := by
    have hMirrored := (paired_afterChanges changes).mirrored
    rw [← hMirrored.acyclic_iff,
      ← (hMirrored.add formula target).acyclic_iff]
    exact Acyclic.add_iff

/-
  In a chain of three formulas no cell leads back, and the
  edge from its end to its start makes a cycle.
-/
theorem guarded_chain :
    let first := Address.ofPosition 0 0
    let second := Address.ofPosition 0 1
    let third := Address.ofPosition 0 2
    let chain := afterChanges
      [.add third second, .add second first]
    (∀ a, ¬ TransGen chain.Reads a a)
      ∧ chain.closesCycle first third = true
      ∧ ¬ ∀ a,
        ¬ TransGen (chain.add first third).Reads a a := by
  intro first second third chain
  have hEmpty :
      ∀ a, ¬ TransGen (afterChanges []).Reads a a := by
    intro a hCycle
    rcases TransGen.head'_iff.mp hCycle with ⟨b, hEdge, -⟩
    exact List.not_mem_nil hEdge
  have hOne :
      ∀ a, ¬ TransGen
        (afterChanges [.add third second]).Reads a a :=
    ((afterChanges_guarded [] third second).keeps
      hEmpty).mpr (by decide)
  have hChain : ∀ a, ¬ TransGen chain.Reads a a :=
    ((afterChanges_guarded [.add third second] second
      first).keeps hOne).mpr (by decide)
  have hCloses : chain.closesCycle first third = true := by
    decide
  refine ⟨hChain, hCloses, fun hAfter => ?_⟩
  have hOpen :=
    ((afterChanges_guarded _ first third).keeps hChain).mp
      hAfter
  rw [hCloses] at hOpen
  cases hOpen

end DependencyGraph

end Spreadsheet
