import Spreadsheet.Formula.Expr
import Spreadsheet.Formula.Token

/-
  The grammar of formulas: which tokens are an expression,
  and of which tree. It has one level for each group of
  operators that bind equally tightly, and says nothing of
  how tokens are read.

  Key definitions include:
    * `Grammar.Level`
    * `Grammar.Derives`
    * `Grammar.Derives.binary`
    * `Grammar.Derives.weaken`
-/

namespace Spreadsheet

namespace Grammar

------------------------------------------------------------
-- Levels
------------------------------------------------------------

/-
  The levels of expressions, from those whose operators bind
  least tightly to those without operators of their own.
-/
inductive Level where
  | equality
  | comparison
  | sum
  | product
  | power
  | primary
deriving DecidableEq

namespace Level

/- The operators of a level. -/
def operators : Level → List BinaryOperator
  | equality => [.equal, .notEqual]
  | comparison => [.less, .lessEqual, .greater, .greaterEqual]
  | sum => [.add, .subtract]
  | product => [.multiply, .divide]
  | power => [.power]
  | primary => []

/- The next level, whose operators bind more tightly. -/
def tighter : Level → Level
  | equality => comparison
  | comparison => sum
  | sum => product
  | product => power
  | power => primary
  | primary => primary

/- The place of a level in their order. -/
def rank : Level → Nat
  | equality => 1
  | comparison => 2
  | sum => 3
  | product => 4
  | power => 5
  | primary => 6

theorem rank_tighter
    {level : Level}
    (h : level ≠ primary) :
    level.tighter.rank = level.rank + 1 := by
  cases level <;> first | rfl | exact absurd rfl h

theorem rank_le_tighter
    (level : Level) : level.rank ≤ level.tighter.rank := by
  cases level <;> decide

theorem rank_le_primary
    (level : Level) : level.rank ≤ primary.rank := by
  cases level <;> decide

theorem equality_le_rank
    (level : Level) : equality.rank ≤ level.rank := by
  cases level <;> decide

end Level

------------------------------------------------------------
-- Productions
------------------------------------------------------------

mutual

/-
  Tokens are an expression of a level with a given tree.
  Operators group to the left, except for powers, and a
  minus sign in front belongs to the primary after it.
-/
inductive Derives : Level → List Token → Expr → Prop where
  | tighter
      {level : Level}
      {tokens : List Token}
      {e : Expr}
      (hLevel : level ≠ .primary)
      (h : Derives level.tighter tokens e) :
      Derives level tokens e
  | left
      {level : Level}
      {op : BinaryOperator}
      {first second : List Token}
      {x y : Expr}
      (hLevel : level ≠ .power)
      (hOp : op ∈ level.operators)
      (hFirst : Derives level first x)
      (hSecond : Derives level.tighter second y) :
      Derives level (first ++ .operator op :: second)
        (.binary op x y)
  | right
      {first second : List Token}
      {x y : Expr}
      (hFirst : Derives .primary first x)
      (hSecond : Derives .power second y) :
      Derives .power (first ++ .operator .power :: second)
        (.binary .power x y)
  | number
      (x : Float) :
      Derives .primary [.number x] (.number x)
  | text
      (s : String) : Derives .primary [.text s] (.text s)
  | boolean
      (b : Bool) :
      Derives .primary [.boolean b] (.boolean b)
  | cell
      {name : String}
      {a : Address}
      (h : Address.parse name = .ok a) :
      Derives .primary [.reference name] (.cell a)
  | range
      {first second : String}
      {a b : Address}
      (hFirst : Address.parse first = .ok a)
      (hSecond : Address.parse second = .ok b) :
      Derives .primary
        [.reference first, .colon, .reference second]
        (.range a b)
  | callEmpty
      (name : String) :
      Derives .primary
        [.identifier name, .leftParenthesis,
          .rightParenthesis]
        (.call name [])
  | call
      {tokens : List Token}
      {args : List Expr}
      (name : String)
      (h : DerivesArguments tokens args) :
      Derives .primary
        (.identifier name :: .leftParenthesis
          :: tokens ++ [.rightParenthesis])
        (.call name args)
  | parentheses
      {tokens : List Token}
      {e : Expr}
      (h : Derives .equality tokens e) :
      Derives .primary
        (.leftParenthesis :: tokens ++ [.rightParenthesis]) e
  | negate
      {tokens : List Token}
      {e : Expr}
      (h : Derives .primary tokens e) :
      Derives .primary (.operator .subtract :: tokens)
        (.negate e)

/- Tokens are expressions with commas between them. -/
inductive DerivesArguments :
    List Token → List Expr → Prop where
  | last
      {tokens : List Token}
      {e : Expr}
      (h : Derives .equality tokens e) :
      DerivesArguments tokens [e]
  | more
      {tokens rest : List Token}
      {e : Expr}
      {args : List Expr}
      (h : Derives .equality tokens e)
      (hRest : DerivesArguments rest args) :
      DerivesArguments (tokens ++ .comma :: rest) (e :: args)

end

------------------------------------------------------------
-- Operators And Their Operands
------------------------------------------------------------

/- The level that an operator belongs to. -/
def levelOf : BinaryOperator → Level
  | .equal | .notEqual => .equality
  | .less | .lessEqual | .greater | .greaterEqual =>
      .comparison
  | .add | .subtract => .sum
  | .multiply | .divide => .product
  | .power => .power

/- The level of what stands before an operator. -/
def leftLevel
    (op : BinaryOperator) : Level :=
  if op.isRightAssociative then (levelOf op).tighter
  else levelOf op

/- The level of what stands after an operator. -/
def rightLevel
    (op : BinaryOperator) : Level :=
  if op.isRightAssociative then levelOf op
  else (levelOf op).tighter

theorem levelOf_eq
    {level : Level}
    {op : BinaryOperator}
    (h : op ∈ level.operators) : levelOf op = level := by
  cases level <;> cases op <;>
    first
    | rfl
    | simp [Level.operators] at h

theorem mem_operators_levelOf
    (op : BinaryOperator) :
    op ∈ (levelOf op).operators := by
  cases op <;> decide

/- Precedences count the levels. -/
theorem rank_levelOf
    (op : BinaryOperator) :
    (levelOf op).rank = op.precedence := by
  cases op <;> rfl

theorem rank_rightLevel
    (op : BinaryOperator) :
    (rightLevel op).rank = op.rightPrecedence := by
  cases op <;> rfl

theorem levelOf_le_leftLevel
    (op : BinaryOperator) :
    (levelOf op).rank ≤ (leftLevel op).rank := by
  cases op <;> decide

theorem levelOf_le_rightLevel
    (op : BinaryOperator) :
    (levelOf op).rank ≤ (rightLevel op).rank := by
  cases op <;> decide

theorem rightPrecedence_le_primary
    (op : BinaryOperator) :
    op.rightPrecedence ≤ Level.primary.rank := by
  cases op <;> decide

/-
  An operator that does not belong to the right operand of
  another one can stand after both operands of that one.
-/
theorem rank_leftLevel_le
    {op next : BinaryOperator}
    (h : next.precedence < op.rightPrecedence) :
    (leftLevel next).rank ≤ (levelOf op).rank := by
  cases op <;> cases next <;> revert h <;> decide

/-
  An operator that can stand after a level is none of the
  right operand of an operator of that level.
-/
theorem precedence_lt_rightPrecedence
    {op next : BinaryOperator}
    (h : (leftLevel next).rank ≤ (levelOf op).rank) :
    next.precedence < op.rightPrecedence := by
  cases op <;> cases next <;> revert h <;> decide

/- Operators other than powers group to the left. -/
theorem operandLevels_of_ne_power
    {op : BinaryOperator}
    (h : levelOf op ≠ .power) :
    leftLevel op = levelOf op
      ∧ rightLevel op = (levelOf op).tighter := by
  cases op <;> first | exact ⟨rfl, rfl⟩ | exact absurd rfl h

/- Every operator makes an expression of its level. -/
theorem Derives.binary
    {op : BinaryOperator}
    {first second : List Token}
    {x y : Expr}
    (hFirst : Derives (leftLevel op) first x)
    (hSecond : Derives (rightLevel op) second y) :
    Derives (levelOf op) (first ++ .operator op :: second)
      (.binary op x y) := by
  by_cases hPower : op = .power
  · subst hPower
    exact .right hFirst hSecond
  · have hLevel : levelOf op ≠ .power := by
      cases op <;> first | decide | exact absurd rfl hPower
    have ⟨hLeft, hRight⟩ := operandLevels_of_ne_power hLevel
    rw [hLeft] at hFirst
    rw [hRight] at hSecond
    exact .left hLevel (mem_operators_levelOf op) hFirst
      hSecond

/- An expression of a level is one of each level before. -/
theorem Derives.weaken
    {level level' : Level}
    {tokens : List Token}
    {e : Expr}
    (hRank : level'.rank ≤ level.rank)
    (h : Derives level tokens e) :
    Derives level' tokens e := by
  generalize hSteps : level.rank - level'.rank = steps
  induction steps generalizing level' with
  | zero =>
      have hSame : level' = level := by
        cases level <;> cases level' <;>
          simp_all [Level.rank]
      rw [hSame]
      exact h
  | succ steps ih =>
      have hLevel : level' ≠ .primary := by
        rintro rfl
        have hTop := level.rank_le_primary
        omega
      have hNext := Level.rank_tighter hLevel
      exact .tighter hLevel (ih (by omega) (by omega))

end Grammar

end Spreadsheet
