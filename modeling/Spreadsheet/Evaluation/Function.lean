import Spreadsheet.Text.Uppercase
import Spreadsheet.Value

/-
  This file defines the functions of formulas and the names
  they are found under.

  Key definitions include:
    * `Aggregate`
    * `Aggregate.apply`
    * `Function`
    * `Registry`
    * `Registry.find?`
    * `Registry.builtIn`
-/

namespace Spreadsheet

------------------------------------------------------------
-- Aggregates
------------------------------------------------------------

/- The functions that make one number of many values. -/
inductive Aggregate where
  | sum
  | average
  | minimum
  | maximum
  | count
deriving DecidableEq

namespace Aggregate

/-
  The values that are numbers already. Truth values and text
  that reads as a number are passed over.
-/
def numbers
    (values : List Value) : List Float :=
  values.filterMap Value.number?

/-
  The extreme of some numbers, zero if there are none. One
  undefined number makes the extreme undefined.
-/
def extreme
    (pick : Float → Float → Float) :
    List Float → Float
  | [] => 0
  | first :: rest =>
      rest.foldl
        (fun best x =>
          if best.isNaN || x.isNaN then 0 / 0
          else pick best x)
        first

/-
  Add up numbers from left to right. The sum of no numbers
  is negative zero, which leaves every number as it is.
-/
def total
    (xs : List Float) : Float :=
  xs.foldl (· + ·) (-0.0)

/- The mean of some numbers, zero if there are none. -/
def mean
    (xs : List Float) : Float :=
  if xs.isEmpty then 0
  else xs.foldl (· + ·) 0 / Binary64.ofNat xs.length

def apply
    (f : Aggregate)
    (values : List Value) : Float :=
  match f with
  | sum => total (numbers values)
  | average => mean (numbers values)
  | minimum =>
      extreme (fun x y => if y < x then y else x)
        (numbers values)
  | maximum =>
      extreme (fun x y => if x < y then y else x)
        (numbers values)
  | count =>
      Binary64.ofNat
        (values.filter fun v => !v.isEmpty).length

end Aggregate

------------------------------------------------------------
-- Functions
------------------------------------------------------------

/-
  A function either takes the values of all its arguments or
  chooses which of its arguments to evaluate.
-/
inductive Function where
  | aggregate (f : Aggregate)
  | conditional
deriving DecidableEq

------------------------------------------------------------
-- Registries
------------------------------------------------------------

/- A function under the name it was registered with. -/
structure Definition where
  name : String
  function : Function
deriving DecidableEq

/-
  Functions by name. Names that agree in upper case are the
  same name.
-/
structure Registry where
  definitions : List (String × Definition)

namespace Registry

/- The function with a given name. -/
def find?
    (registry : Registry)
    (name : String) : Option Definition :=
  registry.definitions.lookup (Uppercase.ofString name)

/- Register a function in place of one of that name. -/
def register
    (registry : Registry)
    (definition : Definition) : Registry :=
  let key := Uppercase.ofString definition.name
  let others :=
    registry.definitions.filter fun p => p.1 != key
  ⟨(key, definition) :: others⟩

/- All names in order, as they were registered. -/
def names
    (registry : Registry) : List String :=
  (registry.definitions.map fun p => p.2.name).mergeSort
    fun a b => decide (a ≤ b)

/- The functions that formulas can call. -/
def builtIn : Registry :=
  ⟨[("SUM", ⟨"SUM", .aggregate .sum⟩),
    ("AVG", ⟨"AVG", .aggregate .average⟩),
    ("MIN", ⟨"MIN", .aggregate .minimum⟩),
    ("MAX", ⟨"MAX", .aggregate .maximum⟩),
    ("COUNT", ⟨"COUNT", .aggregate .count⟩),
    ("IF", ⟨"IF", .conditional⟩)]⟩

end Registry

/- The function that a formula calls by a name. -/
def Function.named?
    (name : String) : Option Function :=
  (Registry.builtIn.find? name).map Definition.function

end Spreadsheet
