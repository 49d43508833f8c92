import Spreadsheet.CellMap

/-
  This file defines the graph of which formula reads which
  cell. It is kept in both directions, so that the cells a
  formula reads and the formulas that read a cell are both
  at hand. Markers of addresses do not matter.

  Key definitions include:
    * `Adjacency`
    * `DependencyGraph`
    * `DependencyGraph.add`
    * `DependencyGraph.removeReads`
    * `DependencyGraph.dependents`
    * `DependencyGraph.Walk`
    * `DependencyGraph.closesCycle`
    * `DependencyGraph.evaluationOrder`
    * `DependencyGraph.isConsistent`
-/

namespace Spreadsheet

------------------------------------------------------------
-- Adjacency
------------------------------------------------------------

/-
  The neighbours of each cell in one direction. A cell
  without neighbours has no entry.
-/
abbrev Adjacency := CellMap CellSet

namespace Adjacency

/- The neighbours of a cell as a set. -/
def neighbourSet
    (m : Adjacency)
    (a : Address) : CellSet :=
  (m.get? a).getD CellMap.empty

/- The neighbours of a cell in address order. -/
def neighbours
    (m : Adjacency)
    (a : Address) : List Address :=
  (m.neighbourSet a).toList

/- Whether one cell is a neighbour of another. -/
def hasEdge
    (m : Adjacency)
    (a b : Address) : Bool :=
  (m.neighbourSet a).contains b

/- Make one cell a neighbour of another. -/
def link
    (m : Adjacency)
    (a b : Address) : Adjacency :=
  m.insert a ((m.neighbourSet a).add b)

/- Make one cell no neighbour of another any more. -/
def unlink
    (m : Adjacency)
    (a b : Address) : Adjacency :=
  match m.get? a with
  | none => m
  | some set =>
      let rest := set.erase b
      if rest.isEmpty then m.erase a else m.insert a rest

/- The number of edges. -/
def edgeCount
    (m : Adjacency) : Nat :=
  (m.entries.flatMap fun p => CellMap.keys p.2).length

/-
  Whether every cell with an entry has neighbours, each of
  which has the cell as a neighbour in the other direction.
-/
def isReversedIn
    (m other : Adjacency) : Bool :=
  m.entries.all fun p =>
    !p.2.isEmpty
      && p.2.toList.all fun b => other.hasEdge b p.1

end Adjacency

------------------------------------------------------------
-- The Graph
------------------------------------------------------------

structure DependencyGraph where
  /- The cells that each formula reads. -/
  reads : Adjacency
  /- The formulas that read each cell. -/
  readers : Adjacency
deriving DecidableEq

namespace DependencyGraph

def empty : DependencyGraph :=
  ⟨CellMap.empty, CellMap.empty⟩

instance : Inhabited DependencyGraph :=
  ⟨empty⟩

/-
  Record that a formula reads a cell. Whether the edge
  closes a cycle is not looked at.
-/
def add
    (g : DependencyGraph)
    (formula target : Address) : DependencyGraph :=
  ⟨g.reads.link formula target,
    g.readers.link target formula⟩

/-
  Forget what a formula reads. Formulas that read the cell
  itself go on reading it.
-/
def removeReads
    (g : DependencyGraph)
    (formula : Address) : DependencyGraph :=
  ⟨g.reads.erase formula,
    (g.reads.neighbours formula).foldl
      (fun m target => m.unlink target formula) g.readers⟩

/- The cells a formula reads, in address order. -/
def readsOf
    (g : DependencyGraph)
    (a : Address) : List Address :=
  g.reads.neighbours a

/- The formulas that read a cell, in address order. -/
def readersOf
    (g : DependencyGraph)
    (a : Address) : List Address :=
  g.readers.neighbours a

def edgeCount
    (g : DependencyGraph) : Nat :=
  g.reads.edgeCount

/- Whether both directions hold the same edges. -/
def isConsistent
    (g : DependencyGraph) : Bool :=
  g.reads.isReversedIn g.readers
    && g.readers.isReversedIn g.reads

------------------------------------------------------------
-- Dependents
------------------------------------------------------------

/-
  A search through the readers of a cell: the cells that
  were passed on, and those found that wait their turn.
-/
structure Search where
  found : List Address
  queue : List Address
deriving DecidableEq

/-
  Pass on the first waiting cell, and let those of its
  readers wait that were not found before.
-/
def Search.step
    (g : DependencyGraph)
    (s : Search) : Search :=
  match s.queue with
  | [] => s
  | a :: rest =>
      let isNew (b : Address) : Bool :=
        !s.found.contains b && !s.queue.contains b
      ⟨s.found ++ [a], rest ++ (g.readersOf a).filter isNew⟩

/-
  A cell and everything that reads it, directly or through
  other formulas, nearer readers first. Each cell found is
  at the end of an edge, which bounds the search.
-/
def dependents
    (g : DependencyGraph)
    (a : Address) : List Address :=
  let rounds := g.readers.edgeCount + 1
  (Nat.repeat (Search.step g) rounds
    ⟨[], [a.relative]⟩).found

------------------------------------------------------------
-- Cycles
------------------------------------------------------------

/-
  A walk along the readers of cells: the cells visited, the
  cells to look at, of which the one stacked last comes
  first, and whether the walk has come to its target.
-/
structure Walk where
  visited : List Address
  stack : List Address
  arrived : Bool
deriving DecidableEq

/-
  Look at the first cell of the stack. A walk stays where it
  has arrived. A cell can be stacked several times and is
  passed over when it was visited; the readers of any other
  are stacked, in whatever order they are given.
-/
def Walk.step
    (readers : Address → List Address)
    (target : Address)
    (w : Walk) : Walk :=
  match w.stack with
  | [] => w
  | a :: rest =>
      if a = target then { w with arrived := true }
      else if w.visited.contains a then
        { w with stack := rest }
      else
        { w with
          visited := a :: w.visited
          stack := readers a ++ rest }

/-
  The walk from a formula to a target. The readers of a cell
  are stacked once, which bounds the cells to look at.
-/
def walkBack
    (g : DependencyGraph)
    (readers : Address → List Address)
    (formula target : Address) : Walk :=
  let rounds := g.readers.edgeCount + 1
  Nat.repeat (Walk.step readers target.relative) rounds
    ⟨[], [formula.relative], false⟩

/-
  Whether a formula that started to read a target would
  close a cycle: the target is the formula itself, or is
  found on a walk along the formula's readers.
-/
def closesCycle
    (g : DependencyGraph)
    (formula target : Address) : Bool :=
  formula.relative == target.relative
    || (g.walkBack g.readersOf formula target).arrived

------------------------------------------------------------
-- Evaluation Order
------------------------------------------------------------

/-
  A partial order of evaluation: how many cells each member
  still has to wait for, the members that wait for none, and
  the members that were placed.
-/
structure Schedule where
  pending : CellMap Nat
  queue : List Address
  placed : List Address
deriving DecidableEq

namespace Schedule

/- Let a member wait for one cell less. -/
def release
    (s : Schedule)
    (a : Address) : Schedule :=
  match s.pending.get? a with
  | some 1 =>
      { s with
        pending := s.pending.insert a 0
        queue := s.queue ++ [a] }
  | some (n + 2) =>
      { s with pending := s.pending.insert a (n + 1) }
  | _ => s

/- Place the first member that waits for no other. -/
def step
    (g : DependencyGraph)
    (s : Schedule) : Schedule :=
  match s.queue with
  | [] => s
  | a :: rest =>
      (g.readersOf a).foldl release
        { s with queue := rest, placed := s.placed ++ [a] }

/- The schedule in which nothing is placed. -/
def start
    (g : DependencyGraph)
    (members : List Address) : Schedule :=
  let count (a : Address) : Nat :=
    (g.readsOf a).countP members.contains
  { pending :=
      CellMap.ofList (members.map fun a => (a, count a))
    queue := members.filter fun a => count a == 0
    placed := [] }

end Schedule

/-
  Some cells in an order in which each comes after those of
  them that it reads. Cells that cannot be placed, because
  they wait for a cycle, come last and as they were given.
-/
def evaluationOrder
    (g : DependencyGraph)
    (cells : List Address) : List Address :=
  let members := (cells.map Address.relative).eraseDups
  let last :=
    Nat.repeat (Schedule.step g) members.length
      (Schedule.start g members)
  last.placed
    ++ members.filter fun a => !last.placed.contains a

end DependencyGraph

end Spreadsheet
