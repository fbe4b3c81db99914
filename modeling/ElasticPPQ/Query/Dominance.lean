import ElasticPPQ.Lib.Pareto
import ElasticPPQ.Rset

/-! # Dominance between tuples

A tuple dominates another if it is at most as great in every dimension and less in one; it
`k`-dominates it if it is at most as great in `k` dimensions and less in one. The timestamps do not
matter. -/

namespace ElasticPPQ

variable {α : Type} [LinearOrder α] {DIM : Nat}

namespace Row

/-- `q` dominates `p`. -/
def Dominates (q p : Row α DIM) : Prop := (∀ i, q.d i ≤ p.d i) ∧ ∃ i, q.d i < p.d i

instance decidableDominates : DecidableRel (Dominates : Row α DIM → Row α DIM → Prop) :=
  fun q p => inferInstanceAs (Decidable ((∀ i, q.d i ≤ p.d i) ∧ ∃ i, q.d i < p.d i))

/-- The number of dimensions in which `q` is at most as great as `p`, counted only if it is less in
at least one dimension. -/
def dominance (q p : Row α DIM) : Nat :=
  if ∃ i, q.d i < p.d i then (Finset.univ.filter fun i => q.d i ≤ p.d i).card else 0

/-- Dominance is the strict order of the coordinates. -/
theorem dominates_iff_lt {q p : Row α DIM} : q.Dominates p ↔ q.d < p.d := Pi.lt_def.symm

instance isStrictOrder : IsStrictOrder (Row α DIM) Dominates where
  irrefl := fun _ h => lt_irrefl _ (dominates_iff_lt.mp h)
  trans := fun _ _ _ h h' =>
    dominates_iff_lt.mpr ((dominates_iff_lt.mp h).trans (dominates_iff_lt.mp h'))

/-- The factor of dominance is `DIM` at most. -/
theorem dominance_le (q p : Row α DIM) : q.dominance p ≤ DIM := by
  unfold dominance
  split
  · exact (Finset.card_filter_le _ _).trans (by simp)
  · exact Nat.zero_le _

/-- Dominating is dominating in all the dimensions. -/
theorem dominance_eq_iff (hpos : 0 < DIM) {q p : Row α DIM} :
    q.dominance p = DIM ↔ q.Dominates p := by
  unfold dominance Dominates
  by_cases hlt : ∃ i, q.d i < p.d i
  · rw [if_pos hlt]
    constructor
    · intro hcard
      -- all coordinates are counted, so none of them is greater
      have huniv : (Finset.univ.filter fun i => q.d i ≤ p.d i) = Finset.univ :=
        Finset.eq_univ_of_card _ (by rw [hcard, Fintype.card_fin])
      refine ⟨fun i => ?_, hlt⟩
      have hmem : i ∈ Finset.univ.filter fun i => q.d i ≤ p.d i := by
        rw [huniv]
        exact Finset.mem_univ i
      exact (Finset.mem_filter.mp hmem).2
    · rintro ⟨hle, -⟩
      rw [Finset.filter_true_of_mem fun i _ => hle i, Finset.card_univ, Fintype.card_fin]
  · rw [if_neg hlt]
    constructor
    · intro h
      omega
    · rintro ⟨-, h⟩
      exact absurd h hlt

/-- A tuple that dominates another is at least as good against a third one. -/
theorem dominance_mono {q q' : Row α DIM} (h : q.Dominates q') (p : Row α DIM) :
    q'.dominance p ≤ q.dominance p := by
  unfold dominance
  by_cases hlt : ∃ i, q'.d i < p.d i
  · obtain ⟨i, hi⟩ := hlt
    rw [if_pos ⟨i, hi⟩, if_pos ⟨i, (h.1 i).trans_lt hi⟩]
    refine Finset.card_le_card fun j hj => ?_
    rw [Finset.mem_filter] at hj ⊢
    exact ⟨hj.1, (h.1 j).trans hj.2⟩
  · rw [if_neg hlt]
    exact Nat.zero_le _

end Row

end ElasticPPQ
