/-
  This file defines the binary operators of formulas: their
  symbols, how tightly they bind, and how they group.

  Key definitions include:
    * `BinaryOperator`
    * `BinaryOperator.precedence`
    * `BinaryOperator.symbol`
    * `BinaryOperator.ofSymbol?`
-/

namespace Spreadsheet

inductive BinaryOperator where
  | add
  | subtract
  | multiply
  | divide
  | power
  | equal
  | notEqual
  | less
  | lessEqual
  | greater
  | greaterEqual
deriving DecidableEq

namespace BinaryOperator

/- An operator with a higher precedence binds tighter. -/
def precedence : BinaryOperator → Nat
  | equal | notEqual => 1
  | less | lessEqual | greater | greaterEqual => 2
  | add | subtract => 3
  | multiply | divide => 4
  | power => 5

/- Only powers group to the right. -/
def isRightAssociative : BinaryOperator → Bool
  | power => true
  | _ => false

/- The least precedence in an operator's right operand. -/
def rightPrecedence
    (op : BinaryOperator) : Nat :=
  if op.isRightAssociative then op.precedence
  else op.precedence + 1

/- The operator as it is written in formulas. -/
def symbol : BinaryOperator → String
  | add => "+"
  | subtract => "-"
  | multiply => "*"
  | divide => "/"
  | power => "^"
  | equal => "="
  | notEqual => "<>"
  | less => "<"
  | lessEqual => "<="
  | greater => ">"
  | greaterEqual => ">="

instance : ToString BinaryOperator :=
  ⟨symbol⟩

/- The operator with a symbol given as characters. -/
def ofChars? : List Char → Option BinaryOperator
  | ['+'] => some add
  | ['-'] => some subtract
  | ['*'] => some multiply
  | ['/'] => some divide
  | ['^'] => some power
  | ['='] => some equal
  | ['<', '>'] => some notEqual
  | ['<'] => some less
  | ['<', '='] => some lessEqual
  | ['>'] => some greater
  | ['>', '='] => some greaterEqual
  | _ => none

/- The operator with a given symbol. -/
def ofSymbol?
    (symbol : String) : Option BinaryOperator :=
  ofChars? symbol.toList

/-
  Take an operator off the front of a text. A symbol of two
  characters wins over a symbol that it starts with.
-/
def take? : List Char → Option (BinaryOperator × List Char)
  | [] => none
  | [c] => (ofChars? [c]).map fun op => (op, [])
  | c :: d :: rest =>
      match ofChars? [c, d] with
      | some op => some (op, rest)
      | none =>
          (ofChars? [c]).map fun op => (op, d :: rest)

theorem length_of_take?
    {cs rest : List Char}
    {op : BinaryOperator}
    (h : take? cs = some (op, rest)) :
    rest.length < cs.length := by
  match cs with
  | [] => simp [take?] at h
  | [c] =>
      simp only [take?, Option.map_eq_some_iff,
        Prod.mk.injEq] at h
      obtain ⟨_, _, _, rfl⟩ := h
      simp
  | c :: d :: tail =>
      simp only [take?] at h
      split at h
      · simp only [Option.some.injEq, Prod.mk.injEq] at h
        rw [← h.2]
        simp only [List.length_cons]
        omega
      · simp only [Option.map_eq_some_iff,
          Prod.mk.injEq] at h
        obtain ⟨_, _, _, rfl⟩ := h
        simp

end BinaryOperator

end Spreadsheet
