import Mathlib.Algebra.BigOperators.Group.Finset.Basic
import Mathlib.Algebra.Order.Field.Basic

/-! # Quotients that may not be numbers

What floating-point arithmetic without rounding yields for numbers that are not negative, where divisors
may be zero: a number, infinity, or not-a-number. A sum is a number exactly if all its summands are
(`Extended.isNum_sum`). -/

namespace ElasticPPQ

/-- A number, infinity, or not-a-number. -/
inductive Extended (K : Type*)
  | num (x : K)
  | inf
  | nan
  deriving DecidableEq

namespace Extended

variable {K ι : Type*} [Field K] [DecidableEq K]

instance instZero : Zero (Extended K) where
  zero := .num 0

instance instAdd : Add (Extended K) where
  add
    | .num x, .num y => .num (x + y)
    | .nan, _ => .nan
    | _, .nan => .nan
    | .inf, _ => .inf
    | _, .inf => .inf

instance instMul : Mul (Extended K) where
  mul
    | .num x, .num y => .num (x * y)
    | .nan, _ => .nan
    | _, .nan => .nan
    | .inf, .inf => .inf
    -- zero times infinity
    | .inf, .num x => if x = 0 then .nan else .inf
    | .num x, .inf => if x = 0 then .nan else .inf

instance instDiv : Div (Extended K) where
  div
    | .num x, .num y => if y = 0 then (if x = 0 then .nan else .inf) else .num (x / y)
    | .nan, _ => .nan
    | _, .nan => .nan
    | .inf, .inf => .nan
    | .inf, .num _ => .inf
    | .num _, .inf => .num 0

/-- It is a number. -/
def IsNum : Extended K → Prop
  | .num _ => True
  | .inf | .nan => False

/-- The number, or zero if there is none. -/
def toNum : Extended K → K
  | .num x => x
  | .inf | .nan => 0

omit [DecidableEq K] in
/-- What is not a number reads as zero. -/
theorem toNum_of_not_isNum {x : Extended K} (h : ¬ x.IsNum) : x.toNum = 0 := by
  cases x with
  | num y => exact absurd trivial h
  | inf => rfl
  | nan => rfl

omit [DecidableEq K] in
/-- Numbers add up as such. -/
@[simp] theorem num_add_num (x y : K) : (num x + num y : Extended K) = num (x + y) := rfl

omit [DecidableEq K] in
/-- A sum is a number if both summands are, and only then: infinities do not cancel. -/
theorem isNum_add {x y : Extended K} : (x + y).IsNum ↔ x.IsNum ∧ y.IsNum := by
  cases x <;> cases y <;> first
    | exact ⟨fun _ => ⟨trivial, trivial⟩, fun _ => trivial⟩
    | exact ⟨fun h => h.elim, fun h => h.1.elim⟩
    | exact ⟨fun h => h.elim, fun h => h.2.elim⟩

/-- Numbers multiply as such. -/
@[simp] theorem num_mul_num (x y : K) : (num x * num y : Extended K) = num (x * y) := rfl

/-- A quotient of numbers, the divisor of which is not zero. -/
theorem num_div_num {y : K} (h : y ≠ 0) (x : K) : (num x / num y : Extended K) = num (x / y) := if_neg h

/-- A number that is not zero, divided by zero. -/
theorem num_div_zero {x : K} (h : x ≠ 0) : (num x / num 0 : Extended K) = inf :=
  (if_pos rfl).trans (if_neg h)

/-- Zero divided by zero. -/
theorem zero_div_zero : (num 0 / num 0 : Extended K) = nan := (if_pos rfl).trans (if_pos rfl)

/-- A quotient by zero is not a number. -/
theorem not_isNum_div_zero (x : Extended K) : ¬ (x / num 0).IsNum := by
  cases x with
  | num x =>
      by_cases hx : x = 0
      · rw [hx, zero_div_zero]
        exact id
      · rw [num_div_zero hx]
        exact id
  | inf => exact id
  | nan => exact id

/-- A product with something that is not a number is none. -/
theorem not_isNum_mul {y : Extended K} (h : ¬ y.IsNum) (x : Extended K) : ¬ (x * y).IsNum := by
  have hif : ∀ p : Prop, [Decidable p] → ¬ (if p then nan else inf : Extended K).IsNum := by
    intro p hp
    split
    · exact id
    · exact id
  cases y with
  | num y => exact absurd trivial h
  | inf =>
      cases x with
      | num x => exact hif (x = 0)
      | inf => exact id
      | nan => exact id
  | nan => cases x <;> exact id

/-! ## Sums -/

omit [DecidableEq K] in
instance instAddCommMonoid : AddCommMonoid (Extended K) where
  add_assoc x y z := by
    -- a sum that is not of numbers only is `inf` or `nan`, whatever the brackets
    cases x <;> cases y <;> cases z <;> first | rfl | exact congrArg num (add_assoc _ _ _)
  zero_add x := by
    cases x with
    | num x => exact congrArg num (zero_add x)
    | inf => rfl
    | nan => rfl
  add_zero x := by
    cases x with
    | num x => exact congrArg num (add_zero x)
    | inf => rfl
    | nan => rfl
  add_comm x y := by
    cases x <;> cases y <;> first | rfl | exact congrArg num (add_comm _ _)
  nsmul := nsmulRec

omit [DecidableEq K] in
/-- A sum of numbers. -/
theorem sum_num (s : Finset ι) (f : ι → K) : ∑ i ∈ s, (num (f i) : Extended K) = num (∑ i ∈ s, f i) := by
  classical
  induction s using Finset.induction_on with
  | empty => rfl
  | insert i s hi ih => rw [Finset.sum_insert hi, Finset.sum_insert hi, ih, num_add_num]

omit [DecidableEq K] in
/-- **A sum is a number if all its summands are**, and only then. -/
theorem isNum_sum (s : Finset ι) (f : ι → Extended K) : (∑ i ∈ s, f i).IsNum ↔ ∀ i ∈ s, (f i).IsNum := by
  classical
  induction s using Finset.induction_on with
  | empty => exact ⟨fun _ i hi => absurd hi (Finset.notMem_empty i), fun _ => trivial⟩
  | insert i s hi ih => rw [Finset.sum_insert hi, isNum_add, ih, Finset.forall_mem_insert]

omit [DecidableEq K] in
/-- A sum the summands of which are zero or not numbers. -/
theorem toNum_sum_eq_zero {s : Finset ι} {f : ι → Extended K}
    (h : ∀ i ∈ s, f i = num 0 ∨ ¬ (f i).IsNum) : (∑ i ∈ s, f i).toNum = 0 := by
  by_cases hall : ∀ i ∈ s, (f i).IsNum
  · have hzero : ∑ i ∈ s, f i = ∑ i ∈ s, num 0 :=
      Finset.sum_congr rfl fun i hi => (h i hi).resolve_right (not_not.mpr (hall i hi))
    rw [hzero, sum_num, Finset.sum_const_zero]
    rfl
  · exact toNum_of_not_isNum fun hnum => hall ((isNum_sum s f).mp hnum)

end Extended

end ElasticPPQ
