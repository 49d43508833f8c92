import Spreadsheet.Evaluation.Function
import Spreadsheet.Formula.Expr
import Spreadsheet.Proofs.RangeCells

/-
  The references of expressions, by what evaluation makes of
  them: those it may read, and those that it cannot do
  without.

  Key definitions include:
    * `Expr.targets`
    * `Expr.ranges` and `Expr.SpansOnlyCorners`
    * `Expr.strictTargets` and `Expr.operandTargets`
-/

namespace Spreadsheet

namespace Expr

------------------------------------------------------------
-- Kinds Of References
------------------------------------------------------------

mutual

/-
  The cells that evaluation may read, without markers: the
  target of each reference and all cells of each range.
-/
def targets : Expr → List Address
  | number _ => []
  | text _ => []
  | boolean _ => []
  | cell a => [a.relative]
  | range first second =>
      (Range.spanning first second).cells .columnMajor
  | binary _ left right => left.targets ++ right.targets
  | negate operand => operand.targets
  | call _ args => targetsOfAll args

def targetsOfAll : List Expr → List Address
  | [] => []
  | e :: rest => e.targets ++ targetsOfAll rest

end

mutual

/- The two written corners of each range. -/
def ranges : Expr → List (Address × Address)
  | number _ => []
  | text _ => []
  | boolean _ => []
  | cell _ => []
  | range first second => [(first, second)]
  | binary _ left right => left.ranges ++ right.ranges
  | negate operand => operand.ranges
  | call _ args => rangesOfAll args

def rangesOfAll : List Expr → List (Address × Address)
  | [] => []
  | e :: rest => e.ranges ++ rangesOfAll rest

end

/-
  Whether every range consists of its two written corners
  alone.
-/
def SpansOnlyCorners
    (e : Expr) : Prop :=
  ∀ p ∈ e.ranges,
    ∀ a ∈ (Range.spanning p.1 p.2).cells .columnMajor,
      a = p.1.relative ∨ a = p.2.relative

mutual

/-
  The targets of references that are read in every
  evaluation that gives a value: those among the operands of
  operators, among the arguments of aggregates that are not
  ranges, and in the condition of a choice.
-/
def strictTargets : Expr → List Address
  | number _ => []
  | text _ => []
  | boolean _ => []
  | cell a => [a.relative]
  | range _ _ => []
  | binary _ left right =>
      left.strictTargets ++ right.strictTargets
  | negate operand => operand.strictTargets
  | call name args =>
      match Function.named? name with
      | none => []
      | some (.aggregate _) => strictTargetsOfAll args
      | some .conditional => strictTargetsOfChoice args

def strictTargetsOfAll : List Expr → List Address
  | [] => []
  | e :: rest => e.strictTargets ++ strictTargetsOfAll rest

/- A choice has at least two arguments. -/
def strictTargetsOfChoice : List Expr → List Address
  | condition :: _ :: _ => condition.strictTargets
  | _ => []

end

/-
  The targets of references that stand under no function,
  only under operators.
-/
def operandTargets : Expr → List Address
  | number _ => []
  | text _ => []
  | boolean _ => []
  | cell a => [a.relative]
  | range _ _ => []
  | binary _ left right =>
      left.operandTargets ++ right.operandTargets
  | negate operand => operand.operandTargets
  | call _ _ => []

------------------------------------------------------------
-- How The Kinds Relate
------------------------------------------------------------

/- The targets of an argument are among those of all. -/
theorem targets_subset_targetsOfAll
    {e : Expr}
    {args : List Expr}
    (h : e ∈ args) : e.targets ⊆ targetsOfAll args := by
  induction h with
  | head rest => exact List.subset_append_left _ _
  | tail first _ ih =>
      exact List.subset_append_of_subset_right _ ih

/- References under operators alone are strict. -/
theorem operandTargets_subset
    (e : Expr) : e.operandTargets ⊆ e.strictTargets := by
  induction e using operandTargets.induct with
  | case4 a => exact fun _ h => h
  | case6 op left right ihLeft ihRight =>
      simp only [operandTargets, strictTargets]
      exact List.append_subset.mpr
        ⟨List.subset_append_of_subset_left _ ihLeft,
          List.subset_append_of_subset_right _ ihRight⟩
  | case7 operand ih => exact ih
  | _ => exact List.nil_subset _

mutual

/- A strict reference is one that evaluation may read. -/
theorem strictTargets_subset_targets :
    ∀ e : Expr, e.strictTargets ⊆ e.targets
  | number _ => List.nil_subset _
  | text _ => List.nil_subset _
  | boolean _ => List.nil_subset _
  | cell _ => fun _ h => h
  | range _ _ => List.nil_subset _
  | binary _ left right => by
      simp only [strictTargets, targets]
      exact List.append_subset.mpr
        ⟨List.subset_append_of_subset_left _
            (strictTargets_subset_targets left),
          List.subset_append_of_subset_right _
            (strictTargets_subset_targets right)⟩
  | negate operand => strictTargets_subset_targets operand
  | call name args => by
      simp only [strictTargets, targets]
      split
      · exact List.nil_subset _
      · exact strictTargetsOfAll_subset_targets args
      · exact strictTargetsOfChoice_subset_targets args

theorem strictTargetsOfAll_subset_targets :
    ∀ args : List Expr,
      strictTargetsOfAll args ⊆ targetsOfAll args
  | [] => List.nil_subset _
  | e :: rest => by
      simp only [strictTargetsOfAll, targetsOfAll]
      exact List.append_subset.mpr
        ⟨List.subset_append_of_subset_left _
            (strictTargets_subset_targets e),
          List.subset_append_of_subset_right _
            (strictTargetsOfAll_subset_targets rest)⟩

theorem strictTargetsOfChoice_subset_targets :
    ∀ args : List Expr,
      strictTargetsOfChoice args ⊆ targetsOfAll args
  | [] => List.nil_subset _
  | [_] => List.nil_subset _
  | condition :: _ :: _ => by
      simp only [strictTargetsOfChoice, targetsOfAll]
      exact List.subset_append_of_subset_left _
        (strictTargets_subset_targets condition)

end

mutual

/- The cells an expression names are among its targets. -/
theorem endpoints_subset_targets :
    ∀ e : Expr, e.endpoints ⊆ e.targets
  | number _ => List.nil_subset _
  | text _ => List.nil_subset _
  | boolean _ => List.nil_subset _
  | cell _ => fun _ h => h
  | range first second => by
      intro a ha
      simp only [endpoints, List.mem_cons, List.not_mem_nil,
        or_false] at ha
      rcases ha with rfl | rfl
      · exact Range.first_mem_cells first second _
      · exact Range.second_mem_cells first second _
  | binary _ left right => by
      simp only [endpoints, targets]
      exact List.append_subset.mpr
        ⟨List.subset_append_of_subset_left _
            (endpoints_subset_targets left),
          List.subset_append_of_subset_right _
            (endpoints_subset_targets right)⟩
  | negate operand => endpoints_subset_targets operand
  | call _ args => endpointsOfAll_subset_targets args

theorem endpointsOfAll_subset_targets :
    ∀ args : List Expr,
      endpointsOfAll args ⊆ targetsOfAll args
  | [] => List.nil_subset _
  | e :: rest => by
      simp only [endpointsOfAll, targetsOfAll]
      exact List.append_subset.mpr
        ⟨List.subset_append_of_subset_left _
            (endpoints_subset_targets e),
          List.subset_append_of_subset_right _
            (endpointsOfAll_subset_targets rest)⟩

end

mutual

/-
  Where ranges are their corners, an expression may read no
  more than it names.
-/
theorem targets_subset_endpoints :
    ∀ e : Expr, e.SpansOnlyCorners →
      e.targets ⊆ e.endpoints
  | number _, _ => List.nil_subset _
  | text _, _ => List.nil_subset _
  | boolean _, _ => List.nil_subset _
  | cell _, _ => fun _ h => h
  | range first second, h => by
      intro a ha
      have hCorner :=
        h (first, second) List.mem_cons_self a ha
      simpa [endpoints] using hCorner
  | binary _ left right, h => by
      simp only [endpoints, targets]
      refine List.append_subset.mpr
        ⟨List.subset_append_of_subset_left _
            (targets_subset_endpoints left ?_),
          List.subset_append_of_subset_right _
            (targets_subset_endpoints right ?_)⟩
      · exact fun p hp => h p (List.mem_append_left _ hp)
      · exact fun p hp => h p (List.mem_append_right _ hp)
  | negate operand, h => targets_subset_endpoints operand h
  | call _ args, h => targetsOfAll_subset_endpoints args h

theorem targetsOfAll_subset_endpoints :
    ∀ args : List Expr,
      (∀ p ∈ rangesOfAll args,
        ∀ a ∈ (Range.spanning p.1 p.2).cells .columnMajor,
          a = p.1.relative ∨ a = p.2.relative) →
      targetsOfAll args ⊆ endpointsOfAll args
  | [], _ => List.nil_subset _
  | e :: rest, h => by
      simp only [endpointsOfAll, targetsOfAll]
      refine List.append_subset.mpr
        ⟨List.subset_append_of_subset_left _
            (targets_subset_endpoints e ?_),
          List.subset_append_of_subset_right _
            (targetsOfAll_subset_endpoints rest ?_)⟩
      · exact fun p hp => h p (List.mem_append_left _ hp)
      · exact fun p hp => h p (List.mem_append_right _ hp)

end

mutual

/- Targets carry no markers. -/
theorem relative_of_mem_targets :
    ∀ (e : Expr) {a : Address},
      a ∈ e.targets → a.relative = a
  | number _, _, h => absurd h List.not_mem_nil
  | text _, _, h => absurd h List.not_mem_nil
  | boolean _, _, h => absurd h List.not_mem_nil
  | cell _, _, h => by
      rw [List.mem_singleton.mp h]
      rfl
  | range _ _, _, h => Range.relative_of_mem_cells h
  | binary _ left right, _, h => by
      rcases List.mem_append.mp h with h | h
      · exact relative_of_mem_targets left h
      · exact relative_of_mem_targets right h
  | negate operand, _, h => relative_of_mem_targets operand h
  | call _ args, _, h => relative_of_mem_targetsOfAll args h

theorem relative_of_mem_targetsOfAll :
    ∀ (args : List Expr) {a : Address},
      a ∈ targetsOfAll args → a.relative = a
  | [], _, h => absurd h List.not_mem_nil
  | e :: rest, _, h => by
      rcases List.mem_append.mp h with h | h
      · exact relative_of_mem_targets e h
      · exact relative_of_mem_targetsOfAll rest h

end

/- The cells that an expression is ordered after. -/
theorem mem_precedents_iff
    {e : Expr}
    {a : Address} : a ∈ e.precedents ↔ a ∈ e.endpoints :=
  List.mem_eraseDups

end Expr

end Spreadsheet
