import Mathlib.Algebra.Order.Group.Defs
import Mathlib.Algebra.Order.Group.MinMax
import Mathlib.Algebra.Order.Group.Unbundled.Basic
import Mathlib.Tactic.Abel

/-! # Saturating accumulation

A quantity that has to stay between two boundaries, and is cut off there whenever an increment would
take it beyond. Such an accumulator forgets: increments that are bounded away from zero, and of one
sign, take it to a boundary after a number of steps that does not depend on what has come before. The
statements about the lower boundary are turned into those about the upper one by changing all signs. -/

namespace ElasticPPQ

variable {α : Type*} [LinearOrder α] {lo hi : α}

/-- `x`, cut off at the boundaries. -/
def clamp (lo hi x : α) : α := if hi < x then hi else if x < lo then lo else x

/-- Clamping is a minimum and a maximum. -/
theorem clamp_eq (h : lo ≤ hi) (x : α) : clamp lo hi x = max lo (min hi x) := by
  unfold clamp
  split
  · rename_i hhi
    rw [min_eq_left hhi.le, max_eq_right h]
  · rename_i hhi
    rw [min_eq_right (not_lt.mp hhi)]
    split
    · rename_i hlo
      rw [max_eq_left hlo.le]
    · rename_i hlo
      rw [max_eq_right (not_lt.mp hlo)]

/-- What is clamped is not below the range. -/
theorem le_clamp (h : lo ≤ hi) (x : α) : lo ≤ clamp lo hi x := by
  rw [clamp_eq h]
  exact le_max_left _ _

/-- What is clamped is not above the range. -/
theorem clamp_le (h : lo ≤ hi) (x : α) : clamp lo hi x ≤ hi := by
  rw [clamp_eq h]
  exact max_le h (min_le_left _ _)

/-- A bound that the boundaries keep is a bound of what is cut off. -/
theorem clamp_le_of_le {x u : α} (hlo : lo ≤ u) (hx : x ≤ u) : clamp lo hi x ≤ u := by
  unfold clamp
  split
  · rename_i hhi
    exact hhi.le.trans hx
  · split
    · exact hlo
    · exact hx

variable [AddCommGroup α]

/-- Clamping to the negated range. -/
theorem clamp_neg [IsOrderedAddMonoid α] (h : lo ≤ hi) (x : α) :
    clamp (-hi) (-lo) (-x) = -clamp lo hi x := by
  rw [clamp_eq h, clamp_eq (neg_le_neg h), min_neg_neg, max_neg_neg, max_min_distrib_left,
    max_eq_right h]

/-- The accumulator after a list of increments. -/
def accumulate (lo hi : α) : List α → α → α
  | [], x => x
  | d :: ds, x => accumulate lo hi ds (clamp lo hi (x + d))

/-- Increments in two parts. -/
theorem accumulate_append (ds ds' : List α) (x : α) :
    accumulate lo hi (ds ++ ds') x = accumulate lo hi ds' (accumulate lo hi ds x) := by
  induction ds generalizing x with
  | nil => rfl
  | cons d ds ih => exact ih _

/-- **The accumulator stays between its boundaries.** -/
theorem accumulate_mem (h : lo ≤ hi) (ds : List α) {x : α} (hx : lo ≤ x ∧ x ≤ hi) :
    lo ≤ accumulate lo hi ds x ∧ accumulate lo hi ds x ≤ hi := by
  induction ds generalizing x with
  | nil => exact hx
  | cons d ds ih => exact ih ⟨le_clamp h _, clamp_le h _⟩

variable [IsOrderedAddMonoid α]

/-- Increments that are not above `-δ` take the accumulator to the lower boundary, as soon as there
are enough of them for the way from where it is. -/
theorem accumulate_eq_lo (h : lo ≤ hi) {δ : α} (hδ : 0 ≤ δ) {ds : List α}
    (hds : ∀ d ∈ ds, d ≤ -δ) {x : α} (hx : lo ≤ x) (hway : x ≤ lo + ds.length • δ) :
    accumulate lo hi ds x = lo := by
  induction ds generalizing x with
  | nil =>
      rw [List.length_nil, zero_nsmul, add_zero] at hway
      exact le_antisymm hway hx
  | cons d ds ih =>
      have hd := hds d List.mem_cons_self
      have hrest : lo ≤ lo + ds.length • δ := le_add_of_nonneg_right (nsmul_nonneg hδ _)
      -- each increment is at least one step of the way to the lower bound
      have hstep : x + d ≤ lo + ds.length • δ := by
        calc x + d ≤ lo + (ds.length + 1) • δ + -δ := add_le_add hway hd
          _ = lo + ds.length • δ := by rw [succ_nsmul]; abel
      exact ih (fun d hd => hds d (List.mem_cons_of_mem _ hd)) (le_clamp h _)
        (clamp_le_of_le hrest hstep)

/-- Changing all signs. -/
theorem accumulate_neg (h : lo ≤ hi) (ds : List α) (x : α) :
    accumulate (-hi) (-lo) (ds.map (-·)) (-x) = -accumulate lo hi ds x := by
  induction ds generalizing x with
  | nil => rfl
  | cons d ds ih =>
      rw [List.map_cons, accumulate, accumulate, ← ih, ← neg_add, clamp_neg h]

end ElasticPPQ
