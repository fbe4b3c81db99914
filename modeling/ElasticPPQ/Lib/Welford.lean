import Mathlib.Algebra.BigOperators.Field
import Mathlib.Algebra.BigOperators.Group.List.Basic
import Mathlib.Algebra.Order.Field.Basic
import Mathlib.Algebra.Order.BigOperators.Group.Finset
import Mathlib.Algebra.Order.BigOperators.Group.List
import Mathlib.Data.Finset.Max
import Mathlib.Tactic.FieldSimp
import Mathlib.Tactic.LinearCombination
import Mathlib.Tactic.Ring

/-! # Running mean and deviation

The recurrence that keeps the number, the mean and the sum of the squared deviations of a sequence of
numbers, one number after the other. It is exact: after a list of numbers it holds what the list
determines (`Running.foldl_push`). A weighted mean is bounded by its values (`exists_ge_mean`). -/

namespace ElasticPPQ

variable {K : Type*} [Field K]

/-- The arithmetic mean. -/
def mean (xs : List K) : K := xs.sum / xs.length

/-- The sum of the squared deviations from `m`. -/
def deviation (xs : List K) (m : K) : K := (xs.map fun x => (x - m) ^ 2).sum

/-- What is kept of a sequence. -/
@[ext]
structure Running (K : Type*) where
  /-- How many numbers there are. -/
  count : K
  /-- Their mean. -/
  avg : K
  /-- The sum of their squared deviations. -/
  sn : K

/-- The next number: the deviation is the product of those from the old and from the new mean. -/
def Running.push (r : Running K) (x : K) : Running K where
  count := r.count + 1
  avg := r.avg + 1 / (r.count + 1) * (x - r.avg)
  sn := r.sn + (x - r.avg) * (x - (r.avg + 1 / (r.count + 1) * (x - r.avg)))

/-- What a list determines. -/
def Running.of (xs : List K) : Running K where
  count := xs.length
  avg := mean xs
  sn := deviation xs (mean xs)

/-- The square of each difference, expanded. -/
theorem deviation_eq (xs : List K) (m : K) :
    deviation xs m = (xs.map fun x => x ^ 2).sum - 2 * m * xs.sum + xs.length * m ^ 2 := by
  induction xs with
  | nil => simp [deviation]
  | cons x xs ih =>
      have hcons : deviation (x :: xs) m = (x - m) ^ 2 + deviation xs m := by
        rw [deviation, List.map_cons, List.sum_cons, deviation]
      rw [hcons, ih, List.map_cons, List.sum_cons, List.sum_cons, List.length_cons]
      push_cast
      ring

variable [CharZero K]

/-- The mean times the number of samples is their sum. -/
theorem length_mul_mean (xs : List K) : xs.length * mean xs = xs.sum := by
  cases xs with
  | nil => simp
  | cons x xs =>
      have hne : ((x :: xs).length : K) ≠ 0 := Nat.cast_ne_zero.mpr (Nat.succ_ne_zero _)
      rw [mean, mul_div_cancel₀ _ hne]

/-- One more number. -/
theorem mean_append (xs : List K) (x : K) :
    mean (xs ++ [x]) = mean xs + 1 / (xs.length + 1) * (x - mean xs) := by
  have hne : (xs.length : K) + 1 ≠ 0 := Nat.cast_add_one_ne_zero _
  have hsum := length_mul_mean xs
  rw [mean, List.sum_append, List.sum_singleton, List.length_append, List.length_singleton,
    Nat.cast_add, Nat.cast_one, ← hsum]
  field_simp
  ring

/-- **The step of the recurrence.** -/
theorem Running.of_append (xs : List K) (x : K) :
    Running.of (xs ++ [x]) = (Running.of xs).push x := by
  have hlen : (((xs ++ [x]).length : Nat) : K) = xs.length + 1 := by
    rw [List.length_append, List.length_singleton, Nat.cast_add, Nat.cast_one]
  refine Running.ext hlen (mean_append xs x) ?_
  show deviation (xs ++ [x]) (mean (xs ++ [x])) =
    deviation xs (mean xs) + (x - mean xs) * (x - (mean xs + 1 / (xs.length + 1) * (x - mean xs)))
  -- both sides in terms of the two means
  have hold := length_mul_mean xs
  have hnew := length_mul_mean (xs ++ [x])
  rw [List.sum_append, List.sum_singleton, hlen, ← hold] at hnew
  rw [← mean_append, deviation_eq, deviation_eq, List.map_append, List.sum_append,
    List.sum_append, List.map_singleton, List.sum_singleton, List.sum_singleton, hlen, ← hold]
  linear_combination (mean (xs ++ [x]) - mean xs) * hnew

/-- **The recurrence is exact.** -/
theorem Running.foldl_push (xs ys : List K) :
    ys.foldl Running.push (Running.of xs) = Running.of (xs ++ ys) := by
  induction ys generalizing xs with
  | nil => rw [List.foldl_nil, List.append_nil]
  | cons y ys ih =>
      rw [List.foldl_cons, ← Running.of_append, ih, List.append_assoc, List.singleton_append]

omit [CharZero K] in
/-- The statistics of no samples. -/
theorem Running.of_nil : Running.of ([] : List K) = ⟨0, 0, 0⟩ :=
  Running.ext Nat.cast_zero (zero_div _) rfl

/-- A sum of squares. -/
theorem deviation_nonneg {K : Type*} [Field K] [LinearOrder K] [IsStrictOrderedRing K]
    (xs : List K) (m : K) : 0 ≤ deviation xs m := by
  refine List.sum_nonneg fun y hy => ?_
  obtain ⟨x, -, rfl⟩ := List.mem_map.mp hy
  exact sq_nonneg (x - m)

/-! ## Weighted means -/

section Weighted

variable {K ι : Type*} [Field K] [LinearOrder K] [IsStrictOrderedRing K]

/-- A mean is not more than one of the values. -/
theorem exists_ge_mean {s : Finset ι} (hs : s.Nonempty) {w r : ι → K} (hw : ∀ i ∈ s, 0 ≤ w i)
    (hsum : ∑ i ∈ s, w i ≤ 1) (hr : ∀ i ∈ s, 0 ≤ r i) : ∃ i ∈ s, ∑ i ∈ s, w i * r i ≤ r i := by
  obtain ⟨j, hj, hmax⟩ := s.exists_max_image r hs
  refine ⟨j, hj, ?_⟩
  calc ∑ i ∈ s, w i * r i ≤ ∑ i ∈ s, w i * r j :=
        Finset.sum_le_sum fun i hi => mul_le_mul_of_nonneg_left (hmax i hi) (hw i hi)
    _ = (∑ i ∈ s, w i) * r j := (Finset.sum_mul ..).symm
    _ ≤ 1 * r j := mul_le_mul_of_nonneg_right hsum (hr j hj)
    _ = r j := one_mul _

/-- The parts of some of the elements. -/
theorem sum_parts_le_one [Fintype ι] (s : Finset ι) {x : ι → K} (hx : ∀ i, 0 ≤ x i) :
    ∑ i ∈ s, x i / ∑ i, x i ≤ 1 := by
  rw [← Finset.sum_div]
  refine div_le_one_of_le₀ ?_ (Finset.sum_nonneg fun i _ => hx i)
  exact Finset.sum_le_sum_of_subset_of_nonneg (Finset.subset_univ s) fun i _ _ => hx i

end Weighted

end ElasticPPQ
