import Spreadsheet.Address.Basic

/-
  This file defines finite maps and sets keyed by cell. A
  key is a position: the markers of an address that is
  looked up, stored or removed do not matter. The entries
  stand in address order, so two maps that answer every
  look-up alike are equal.

  Key definitions include:
    * `CellMap`
    * `CellMap.get?`
    * `CellMap.insert`
    * `CellMap.erase`
    * `CellMap.keys`
    * `CellSet`
-/

namespace Spreadsheet

------------------------------------------------------------
-- Sorted Entries
------------------------------------------------------------

namespace Entries

variable {α β : Type}

/-
  Whether entries stand in strictly increasing address order
  and carry no markers.
-/
def Sorted
    (entries : List (Address × α)) : Prop :=
  entries.Pairwise (fun p q => p.1 < q.1)
    ∧ ∀ p ∈ entries, p.1.relative = p.1

/- Store a value under a key in its place. -/
def insert
    (key : Address)
    (value : α) :
    List (Address × α) → List (Address × α)
  | [] => [(key, value)]
  | p :: rest =>
      if key < p.1 then (key, value) :: p :: rest
      else if key = p.1 then (key, value) :: rest
      else p :: insert key value rest

/- Every entry is the new one or was there before. -/
theorem mem_insert
    {key : Address}
    {value : α}
    {p : Address × α}
    {entries : List (Address × α)}
    (h : p ∈ insert key value entries) :
    p = (key, value) ∨ p ∈ entries := by
  induction entries with
  | nil => simpa [insert] using h
  | cons q rest ih =>
      simp only [insert] at h
      split at h
      · simpa using h
      · split at h
        · rcases List.mem_cons.mp h with h | h
          · exact Or.inl h
          · exact Or.inr (List.mem_cons_of_mem _ h)
        · rcases List.mem_cons.mp h with h | h
          · exact Or.inr (h ▸ List.mem_cons_self)
          · exact (ih h).imp_right (List.mem_cons_of_mem _)

/- Storing a value keeps the entries sorted. -/
theorem Sorted.insert
    {key : Address}
    {value : α}
    {entries : List (Address × α)}
    (h : Sorted entries)
    (hKey : key.relative = key) :
    Sorted (Entries.insert key value entries) := by
  refine ⟨?_, fun p hp => ?_⟩
  · have hOrder := h.1
    clear h
    induction entries with
    | nil => simp [Entries.insert]
    | cons q rest ih =>
        have ⟨hq, hRest⟩ := List.pairwise_cons.mp hOrder
        simp only [Entries.insert]
        split
        · next hlt =>
            refine List.pairwise_cons.mpr ⟨?_, hOrder⟩
            intro p hp
            rcases List.mem_cons.mp hp with rfl | hp
            · exact hlt
            · exact Address.lt_trans hlt (hq p hp)
        · next hnlt =>
            split
            · next heq =>
                refine List.pairwise_cons.mpr ⟨?_, hRest⟩
                intro p hp
                simpa [heq] using hq p hp
            · next hne =>
                refine
                  List.pairwise_cons.mpr ⟨?_, ih hRest⟩
                intro p hp
                rcases mem_insert hp with rfl | hp
                · exact
                    Address.lt_of_not_lt_of_ne hnlt hne
                · exact hq p hp
  · rcases mem_insert hp with rfl | hp
    · exact hKey
    · exact h.2 p hp

/- Dropping entries keeps the others sorted. -/
theorem Sorted.filter
    {entries : List (Address × α)}
    (h : Sorted entries)
    (keeps : Address × α → Bool) :
    Sorted (entries.filter keeps) :=
  ⟨h.1.filter keeps,
    fun p hp => h.2 p (List.mem_filter.mp hp).1⟩

/- Changing values keeps the entries sorted. -/
theorem Sorted.mapValues
    {entries : List (Address × α)}
    (h : Sorted entries)
    (f : α → β) :
    Sorted (entries.map fun p => (p.1, f p.2)) := by
  refine ⟨?_, ?_⟩
  · exact List.pairwise_map.mpr h.1
  · intro p hp
    obtain ⟨q, hq, rfl⟩ := List.mem_map.mp hp
    exact h.2 q hq

end Entries

------------------------------------------------------------
-- Maps
------------------------------------------------------------

/- A finite map from cells to values. -/
structure CellMap (α : Type) where
  entries : List (Address × α)
  sorted : Entries.Sorted entries

namespace CellMap

variable {α β : Type}

instance [DecidableEq α] : DecidableEq (CellMap α) :=
  fun a b =>
    match decEq a.entries b.entries with
    | isTrue h => isTrue (by cases a; cases b; simp_all)
    | isFalse h => isFalse (by intro e; simp_all)

/- The map without entries. -/
def empty : CellMap α :=
  ⟨[], by simp [Entries.Sorted]⟩

instance : Inhabited (CellMap α) :=
  ⟨empty⟩

/- The value stored for a cell. -/
def get?
    (m : CellMap α)
    (a : Address) : Option α :=
  m.entries.lookup a.relative

/- Whether a value is stored for a cell. -/
def contains
    (m : CellMap α)
    (a : Address) : Bool :=
  (m.get? a).isSome

/- Store a value for a cell in place of any other. -/
def insert
    (m : CellMap α)
    (a : Address)
    (value : α) : CellMap α :=
  ⟨Entries.insert a.relative value m.entries,
    m.sorted.insert (Address.relative_relative a)⟩

/- Remove what is stored for a cell. -/
def erase
    (m : CellMap α)
    (a : Address) : CellMap α :=
  ⟨m.entries.filter fun p => p.1 != a.relative,
    m.sorted.filter _⟩

/- The entries whose value satisfies a test. -/
def filterValues
    (m : CellMap α)
    (keeps : α → Bool) : CellMap α :=
  ⟨m.entries.filter fun p => keeps p.2,
    m.sorted.filter _⟩

/- Change every value. -/
def map
    (m : CellMap α)
    (f : α → β) : CellMap β :=
  ⟨m.entries.map fun p => (p.1, f p.2),
    m.sorted.mapValues f⟩

/- Store entries one after another. -/
def ofList
    (entries : List (Address × α)) : CellMap α :=
  entries.foldl (fun m p => m.insert p.1 p.2) empty

/- The cells of a map in address order. -/
def keys
    (m : CellMap α) : List Address :=
  m.entries.map (·.1)

/- The number of entries. -/
def size
    (m : CellMap α) : Nat :=
  m.entries.length

def isEmpty
    (m : CellMap α) : Bool :=
  m.entries.isEmpty

end CellMap

------------------------------------------------------------
-- Sets
------------------------------------------------------------

/- A finite set of cells. -/
abbrev CellSet := CellMap Unit

namespace CellSet

def add
    (s : CellSet)
    (a : Address) : CellSet :=
  s.insert a ()

/- The members of a set in address order. -/
def toList
    (s : CellSet) : List Address :=
  s.keys

end CellSet

end Spreadsheet
