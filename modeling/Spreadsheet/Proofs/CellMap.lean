import Spreadsheet.CellMap

/-
  Look-up laws of maps and sets keyed by cell: what storing,
  removing and changing values does to later look-ups, how
  look-ups relate to the entries, and when two changes of
  all values come to the same.

  Main declarations:
    * `CellMap.map_map` and `CellMap.map_eq_map_iff`
    * `CellMap.get?_insert` and `CellMap.get?_erase`
    * `CellMap.get?_map` and `CellMap.get?_filterValues`
    * `CellMap.get?_eq_some_iff`
    * `CellSet.mem_toList_iff`
-/

namespace Spreadsheet

------------------------------------------------------------
-- Positions
------------------------------------------------------------

namespace Address

/- Positions are not changed by dropping markers. -/
theorem map_relative
    {cells : List Address}
    (h : ∀ a ∈ cells, a.relative = a) :
    cells.map relative = cells := by
  rw [List.map_congr_left h, List.map_id']

/- A position among cells is that of one of them. -/
theorem relative_mem_map
    {a : Address}
    {cells : List Address}
    (h : a.relative ∈ cells) :
    a.relative ∈ cells.map relative :=
  List.mem_map.mpr ⟨a.relative, h, relative_relative a⟩

end Address

------------------------------------------------------------
-- Entries
------------------------------------------------------------

namespace Entries

variable {α β : Type}

/- The first entry answers for its key. -/
theorem lookup_cons_ite
    (key : Address)
    (p : Address × α)
    (rest : List (Address × α)) :
    (p :: rest).lookup key =
      if key = p.1 then some p.2 else rest.lookup key := by
  rw [List.lookup_cons]
  by_cases h : key = p.1
  · simp only [h, beq_self_eq_true, ↓reduceIte]
  · have hFalse : (key == p.1) = false := by simpa using h
    simp only [hFalse, h, ↓reduceIte]

/- Looking up the key just stored, or any other. -/
theorem lookup_insert
    (key other : Address)
    (value : α)
    (entries : List (Address × α)) :
    (insert key value entries).lookup other =
      if other = key then some value
      else entries.lookup other := by
  induction entries with
  | nil => simp only [insert, lookup_cons_ite]
  | cons p rest ih =>
      simp only [insert]
      split
      · exact lookup_cons_ite other (key, value) (p :: rest)
      · split
        · next heq =>
            subst heq
            simp only [lookup_cons_ite]
            split <;> rfl
        · next hne =>
            simp only [lookup_cons_ite, ih]
            by_cases h : other = p.1
            · have hOther : other ≠ key :=
                fun h' => hne (h'.symm.trans h)
              simp only [h, ↓reduceIte]
              rw [if_neg (h ▸ hOther)]
            · simp only [h, ↓reduceIte]

/- Dropping a key hides it and no other key. -/
theorem lookup_filter_ne
    (key other : Address)
    (entries : List (Address × α)) :
    (entries.filter fun p => p.1 != key).lookup other =
      if other = key then none
      else entries.lookup other := by
  induction entries with
  | nil => simp
  | cons p rest ih =>
      by_cases hp : p.1 = key
      · rw [List.filter_cons_of_neg (by simp [hp]), ih,
          lookup_cons_ite, hp]
        split <;> rfl
      · rw [List.filter_cons_of_pos (by simp [hp]),
          lookup_cons_ite, lookup_cons_ite, ih]
        by_cases h : other = p.1
        · simp only [h, hp, ↓reduceIte]
        · simp only [h, ↓reduceIte]

/- Changing all values changes what is looked up. -/
theorem lookup_map
    (key : Address)
    (f : α → β)
    (entries : List (Address × α)) :
    (entries.map fun p => (p.1, f p.2)).lookup key =
      (entries.lookup key).map f := by
  induction entries with
  | nil => rfl
  | cons p rest ih =>
      rw [List.map_cons, lookup_cons_ite,
        lookup_cons_ite, ih]
      split <;> rfl

/- A value that is looked up stands among the entries. -/
theorem mem_of_lookup
    {key : Address}
    {value : α}
    {entries : List (Address × α)}
    (h : entries.lookup key = some value) :
    (key, value) ∈ entries := by
  induction entries with
  | nil => simp at h
  | cons p rest ih =>
      rw [lookup_cons_ite] at h
      split at h
      · next hKey =>
          have hValue : p.2 = value := by simpa using h
          rw [hKey, ← hValue]
          exact List.mem_cons_self
      · exact List.mem_cons_of_mem _ (ih h)

/- In sorted entries each entry is found by its key. -/
theorem Sorted.lookup_of_mem
    {key : Address}
    {value : α}
    {entries : List (Address × α)}
    (hSorted : Sorted entries)
    (hMem : (key, value) ∈ entries) :
    entries.lookup key = some value := by
  have hOrder := hSorted.1
  clear hSorted
  induction entries with
  | nil => simp at hMem
  | cons p rest ih =>
      have ⟨hFirst, hRest⟩ := List.pairwise_cons.mp hOrder
      rw [lookup_cons_ite]
      rcases List.mem_cons.mp hMem with rfl | hMem
      · rw [if_pos rfl]
      · have hne : key ≠ p.1 := by
          intro heq
          have hlt := hFirst _ hMem
          rw [heq] at hlt
          exact Address.lt_irrefl p.1 hlt
        rw [if_neg hne]
        exact ih hMem hRest

end Entries

------------------------------------------------------------
-- Maps
------------------------------------------------------------

namespace CellMap

variable {α β : Type}

/- A map is given by its entries. -/
theorem eq_of_entries
    {m m' : CellMap α}
    (h : m.entries = m'.entries) : m = m' := by
  cases m
  cases m'
  cases h
  rfl

/- Changing every value twice is changing it once. -/
theorem map_map
    {γ : Type}
    (m : CellMap α)
    (f : α → β)
    (g : β → γ) :
    (m.map f).map g = m.map fun v => g (f v) := by
  apply eq_of_entries
  simp only [map, List.map_map, Function.comp_def]

/- Maps are changed alike if each of their values is. -/
theorem map_eq_map_iff
    {m : CellMap α}
    {f g : α → β} :
    m.map f = m.map g ↔
      ∀ p ∈ m.entries, f p.2 = g p.2 := by
  have hEntries :
      m.map f = m.map g ↔
        (m.map f).entries = (m.map g).entries :=
    ⟨congrArg entries, eq_of_entries⟩
  rw [hEntries, map, map, List.map_inj_left]
  simp only [Prod.mk.injEq, true_and]

/- And they stay as they are if each of their values does. -/
theorem map_eq_self
    {m : CellMap α}
    {f : α → α}
    (h : ∀ p ∈ m.entries, f p.2 = p.2) : m.map f = m := by
  have hId : m.map id = m := by
    apply eq_of_entries
    exact List.map_id' m.entries
  rw [← hId, map_map]
  exact map_eq_map_iff.mpr h

/- Markers do not matter to a look-up. -/
@[simp]
theorem get?_relative
    (m : CellMap α)
    (a : Address) :
    m.get? a.relative = m.get? a :=
  rfl

@[simp]
theorem get?_empty
    (a : Address) :
    (empty : CellMap α).get? a = none :=
  rfl

theorem get?_insert
    (m : CellMap α)
    (a b : Address)
    (value : α) :
    (m.insert a value).get? b =
      if b.relative = a.relative then some value
      else m.get? b :=
  Entries.lookup_insert a.relative b.relative value
    m.entries

/- What is found was just stored or was there before. -/
theorem get?_insert_eq_some
    {m : CellMap α}
    {a b : Address}
    {value found : α}
    (h : (m.insert a value).get? b = some found) :
    (b.relative = a.relative ∧ value = found)
      ∨ m.get? b = some found := by
  rw [get?_insert] at h
  split at h
  · next heq => exact Or.inl ⟨heq, Option.some.inj h⟩
  · exact Or.inr h

theorem get?_erase
    (m : CellMap α)
    (a b : Address) :
    (m.erase a).get? b =
      if b.relative = a.relative then none
      else m.get? b :=
  Entries.lookup_filter_ne a.relative b.relative m.entries

@[simp]
theorem get?_map
    (m : CellMap α)
    (f : α → β)
    (a : Address) :
    (m.map f).get? a = (m.get? a).map f :=
  Entries.lookup_map a.relative f m.entries

/- Look-ups find exactly the entries. -/
theorem get?_eq_some_iff
    {m : CellMap α}
    {a : Address}
    {value : α} :
    m.get? a = some value ↔
      (a.relative, value) ∈ m.entries :=
  ⟨Entries.mem_of_lookup, m.sorted.lookup_of_mem⟩

/- An entry is found by its key, which has no markers. -/
theorem get?_of_mem_entries
    {m : CellMap α}
    {p : Address × α}
    (h : p ∈ m.entries) :
    p.1.relative = p.1 ∧ m.get? p.1 = some p.2 := by
  have hKey := m.sorted.2 p h
  refine ⟨hKey, get?_eq_some_iff.mpr ?_⟩
  rw [hKey]
  exact h

/- The keys are the cells with a value, without markers. -/
theorem mem_keys_iff
    {m : CellMap α}
    {a : Address} :
    a ∈ m.keys ↔ a.relative = a ∧ (m.get? a).isSome := by
  constructor
  · intro h
    rcases List.mem_map.mp h with ⟨p, hp, rfl⟩
    have ⟨hKey, hGet⟩ := get?_of_mem_entries hp
    exact ⟨hKey, by rw [hGet]; rfl⟩
  · rintro ⟨hKey, hGet⟩
    rcases Option.isSome_iff_exists.mp hGet with
      ⟨value, hGet⟩
    have hMem := get?_eq_some_iff.mp hGet
    rw [hKey] at hMem
    exact List.mem_map.mpr ⟨_, hMem, rfl⟩

/- Keys are listed in address order. -/
theorem pairwise_keys
    (m : CellMap α) : m.keys.Pairwise (· < ·) :=
  List.pairwise_map.mpr m.sorted.1

/- No key is listed twice. -/
theorem nodup_keys
    (m : CellMap α) : m.keys.Nodup := by
  refine m.pairwise_keys.imp ?_
  intro a b hlt heq
  rw [heq] at hlt
  exact Address.lt_irrefl b hlt

/- Entries that are kept for their values have own keys. -/
theorem nodup_filterMap_entries
    (m : CellMap α)
    (f : α → Option β) :
    ((m.entries.filterMap fun p =>
      (f p.2).map fun b => (p.1, b)).map (·.1)).Nodup := by
  have hKeys := List.pairwise_map.mp m.nodup_keys
  refine List.pairwise_map.mpr (hKeys.filterMap _ ?_)
  intro p q hne r hr r' hr'
  rcases Option.map_eq_some_iff.mp hr with ⟨b, -, rfl⟩
  rcases Option.map_eq_some_iff.mp hr' with ⟨b', -, rfl⟩
  exact hne

/- Keeping values hides the others. -/
theorem get?_filterValues
    (m : CellMap α)
    (keeps : α → Bool)
    (a : Address) :
    (m.filterValues keeps).get? a =
      (m.get? a).filter keeps := by
  apply Option.ext
  intro value
  rw [Option.filter_eq_some_iff, get?_eq_some_iff,
    get?_eq_some_iff]
  exact List.mem_filter

/- Removing several cells hides exactly those. -/
theorem get?_foldl_erase
    (cells : List Address)
    (m : CellMap α)
    (b : Address) :
    (cells.foldl erase m).get? b =
      if b.relative ∈ cells.map Address.relative then none
      else m.get? b := by
  induction cells generalizing m with
  | nil => simp
  | cons a rest ih =>
      rw [List.foldl_cons, ih, get?_erase, List.map_cons]
      by_cases hRest :
          b.relative ∈ rest.map Address.relative
      · simp only [hRest, List.mem_cons, or_true, ↓reduceIte]
      · by_cases ha : b.relative = a.relative
        · simp [ha]
        · simp only [hRest, ha, List.mem_cons, or_self,
            ↓reduceIte]

end CellMap

------------------------------------------------------------
-- Sets
------------------------------------------------------------

namespace CellSet

theorem contains_add
    (s : CellSet)
    (a b : Address) :
    (s.add a).contains b = true ↔
      b.relative = a.relative ∨ s.contains b = true := by
  simp only [add, CellMap.contains, CellMap.get?_insert]
  by_cases h : b.relative = a.relative <;> simp [h]

theorem contains_erase
    (s : CellSet)
    (a b : Address) :
    CellMap.contains (s.erase a) b = true ↔
      b.relative ≠ a.relative ∧ s.contains b = true := by
  simp only [CellMap.contains, CellMap.get?_erase]
  by_cases h : b.relative = a.relative <;> simp [h]

/- The members are listed without markers. -/
theorem mem_toList_iff
    {s : CellSet}
    {a : Address} :
    a ∈ s.toList ↔
      a.relative = a ∧ s.contains a = true :=
  CellMap.mem_keys_iff

/- A set without entries has no members. -/
theorem contains_of_isEmpty
    {s : CellSet}
    (h : s.isEmpty = true)
    (a : Address) : s.contains a = false := by
  have hNil : s.entries = [] := List.isEmpty_iff.mp h
  simp [CellMap.contains, CellMap.get?, hNil]

end CellSet

end Spreadsheet
