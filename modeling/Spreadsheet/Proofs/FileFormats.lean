import Spreadsheet.FileFormat

/-
  What is expected of a format. A value that can be written
  is read as itself, and it can be written if its numbers
  can, so whether doubles read back is asked for each double
  alone. Doubles that are not finite are written like null,
  and none is ever read. No more than this is known of a
  format where sheets are saved and read again.

  Key definitions include:
    * `Json.IsFinite`
    * `Json.IsWritable`
    * `Json.withNulls`
    * `FileFormat.ReadsBack`
    * `FileFormat.IsLawful`
-/

namespace Spreadsheet

namespace Json

------------------------------------------------------------
-- Values With Finite Numbers
------------------------------------------------------------

mutual

/- Whether the numbers in a value are finite and in bounds. -/
def IsFinite : Json → Prop
  | natural n => n < UInt64.size
  | number x => x.isFinite = true
  | list items => AreItemsFinite items
  | object fields => AreFieldsFinite fields
  | _ => True

def AreItemsFinite : List Json → Prop
  | [] => True
  | item :: rest => item.IsFinite ∧ AreItemsFinite rest

def AreFieldsFinite : List (String × Json) → Prop
  | [] => True
  | (_, value) :: rest =>
      value.IsFinite ∧ AreFieldsFinite rest

end

theorem areItemsFinite_iff
    (items : List Json) :
    AreItemsFinite items ↔ ∀ v ∈ items, v.IsFinite := by
  induction items with
  | nil => simp [AreItemsFinite]
  | cons item rest ih =>
      rw [AreItemsFinite, ih, List.forall_mem_cons]

theorem areFieldsFinite_iff
    (fields : List (String × Json)) :
    AreFieldsFinite fields ↔
      ∀ p ∈ fields, p.2.IsFinite := by
  induction fields with
  | nil => simp [AreFieldsFinite]
  | cons field rest ih =>
      rw [AreFieldsFinite, ih, List.forall_mem_cons]

/- Every result of a list of readings is one of them. -/
theorem mem_of_mapM
    {α β : Type}
    {f : α → Option β}
    {items : List α}
    {results : List β}
    (h : items.mapM f = some results)
    {b : β}
    (hb : b ∈ results) : ∃ a ∈ items, f a = some b := by
  induction items generalizing results with
  | nil =>
      rw [← Option.some.inj h] at hb
      exact absurd hb List.not_mem_nil
  | cons a rest ih =>
      rw [List.mapM_cons] at h
      rcases Option.bind_eq_some_iff.mp h with
        ⟨first, hFirst, h⟩
      rcases Option.bind_eq_some_iff.mp h with
        ⟨others, hOthers, h⟩
      rw [← Option.some.inj h] at hb
      rcases List.mem_cons.mp hb with rfl | hb
      · exact ⟨a, List.mem_cons_self, hFirst⟩
      · rcases ih hOthers hb with ⟨c, hc, hResult⟩
        exact ⟨c, List.mem_cons_of_mem a hc, hResult⟩

------------------------------------------------------------
-- Writable Values
------------------------------------------------------------

variable {reads : Float → Prop}

mutual

/-
  Whether what is written for a value can stand for it: all
  of it stands for something, its natural numbers fit, and
  its doubles are among those that read back.
-/
def IsWritable
    (reads : Float → Prop) : Json → Prop
  | natural n => n < UInt64.size
  | number x => reads x
  | list items => AreItemsWritable reads items
  | object fields => AreFieldsWritable reads fields
  | unreadable => False
  | _ => True

def AreItemsWritable
    (reads : Float → Prop) : List Json → Prop
  | [] => True
  | item :: rest =>
      item.IsWritable reads ∧ AreItemsWritable reads rest

def AreFieldsWritable
    (reads : Float → Prop) : List (String × Json) → Prop
  | [] => True
  | (_, value) :: rest =>
      value.IsWritable reads ∧ AreFieldsWritable reads rest

end

theorem areFieldsWritable_of_forall
    {fields : List (String × Json)}
    (h : ∀ p ∈ fields, p.2.IsWritable reads) :
    AreFieldsWritable reads fields := by
  induction fields with
  | nil => trivial
  | cons field fields ih =>
      exact ⟨h field List.mem_cons_self,
        ih fun p hp => h p (List.mem_cons_of_mem field hp)⟩

------------------------------------------------------------
-- Doubles That Are Not Finite
------------------------------------------------------------

mutual

/- A value with null for each double that is not finite. -/
def withNulls : Json → Json
  | number x => if x.isFinite then number x else null
  | list items => list (itemsWithNulls items)
  | object fields => object (fieldsWithNulls fields)
  | null => null
  | boolean b => boolean b
  | natural n => natural n
  | text s => text s
  | unreadable => unreadable

def itemsWithNulls : List Json → List Json
  | [] => []
  | item :: rest => item.withNulls :: itemsWithNulls rest

def fieldsWithNulls :
    List (String × Json) → List (String × Json)
  | [] => []
  | (name, value) :: rest =>
      (name, value.withNulls) :: fieldsWithNulls rest

end

theorem fieldsWithNulls_eq
    (fields : List (String × Json)) :
    fieldsWithNulls fields =
      fields.map fun p => (p.1, p.2.withNulls) := by
  induction fields with
  | nil => rfl
  | cons field fields ih =>
      rw [fieldsWithNulls, ih, List.map_cons]

------------------------------------------------------------
-- Depth
------------------------------------------------------------

theorem depthOfFields_le
    {fields : List (String × Json)}
    {bound : Nat}
    (h : ∀ p ∈ fields, p.2.depth ≤ bound) :
    depthOfFields fields ≤ bound := by
  induction fields with
  | nil => exact Nat.zero_le _
  | cons field fields ih =>
      have hField := h field List.mem_cons_self
      have hRest :=
        ih fun p hp => h p (List.mem_cons_of_mem field hp)
      exact Nat.max_le.mpr ⟨hField, hRest⟩

end Json

------------------------------------------------------------
-- Laws Of A Format
------------------------------------------------------------

namespace FileFormat

/- A double that is read from its own text. -/
def ReadsBack
    (format : FileFormat)
    (x : Float) : Prop :=
  format.readJson? (format.writeJson (.number x)) =
    some (.number x)

/- A point in time that is read from its own text. -/
def KeepsTime
    (format : FileFormat)
    (t : Timestamp) : Prop :=
  format.readTime? (format.writeTime t) = some t

/- Readers go no further into lists and objects than this. -/
def deepest : Nat := 127

/-
  The laws of JSON texts. The first one leaves it open which
  doubles read back.
-/
structure IsLawful
    (format : FileFormat) : Prop where
  /- Writable values read back. -/
  roundTrips :
    ∀ v : Json, v.IsWritable format.ReadsBack →
      v.depth ≤ deepest →
      format.readJson? (format.writeJson v) = some v
  /- Doubles that are not finite are written like null. -/
  writesNulls :
    ∀ v : Json,
      format.writeJson v = format.writeJson v.withNulls
  /- Numbers that are read are finite. -/
  readsFinite :
    ∀ (text : String) (v : Json),
      format.readJson? text = some v → v.IsFinite

end FileFormat

end Spreadsheet
