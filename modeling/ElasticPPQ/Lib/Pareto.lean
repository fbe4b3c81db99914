import Mathlib.Data.Multiset.Filter
import Mathlib.Data.Multiset.Lattice
import Mathlib.Order.WellFoundedSet

/-! # Nondominated elements of a multiset

A strict order `dom q p`, read `q` dominates `p`, on any type. The *nondominated* elements of a finite
multiset keep enough of it: whatever is dominated is dominated by one of them
(`exists_nondominated`), so the nondominated elements of a union are computed from those of its
parts (`nondominated_add`), one part at a time. The same holds of the greatest score that the
elements of the multiset give to a fixed one, if a dominating element never scores less
(`best_nondominated`). -/

namespace ElasticPPQ.Pareto

variable {β : Type*} (dom : β → β → Prop) [DecidableRel dom]

/-- The elements of `m` that no element of `m` dominates, with their multiplicity. -/
def nondominated (m : Multiset β) : Multiset β := m.filter fun p => ∀ q ∈ m, ¬ dom q p

variable {dom} {m m' : Multiset β} {p q : β}

/-- The nondominated elements are those that no element dominates. -/
theorem mem_nondominated : p ∈ nondominated dom m ↔ p ∈ m ∧ ∀ q ∈ m, ¬ dom q p :=
  Multiset.mem_filter

/-- They are elements. -/
theorem mem_of_mem_nondominated (h : p ∈ nondominated dom m) : p ∈ m := (mem_nondominated.mp h).1

/-- Of no elements none is left. -/
@[simp] theorem nondominated_zero : nondominated dom (0 : Multiset β) = 0 := rfl

/-- No nondominated element dominates another. -/
theorem not_dom_of_mem (hp : p ∈ nondominated dom m) (hq : q ∈ nondominated dom m) : ¬ dom q p :=
  (mem_nondominated.mp hp).2 q (mem_of_mem_nondominated hq)

section StrictOrder

variable [IsStrictOrder β dom]

/-- One element is not dominated by itself. -/
@[simp] theorem nondominated_singleton (p : β) : nondominated dom {p} = {p} := by
  refine Multiset.filter_eq_self.mpr fun x hx y hy => ?_
  rw [Multiset.mem_singleton.mp hx, Multiset.mem_singleton.mp hy]
  exact irrefl_of dom p

variable (dom) in
/-- **Every element is, or is dominated by, a nondominated one.** -/
theorem exists_nondominated (hp : p ∈ m) : ∃ q ∈ nondominated dom m, q = p ∨ dom q p := by
  have hwf : {x | x ∈ m}.WellFoundedOn dom := (Multiset.finite_toSet m).wellFoundedOn
  refine hwf.induction (P := fun p => ∃ q ∈ nondominated dom m, q = p ∨ dom q p) hp ?_
  intro p hp ih
  by_cases hnd : ∀ q ∈ m, ¬ dom q p
  · exact ⟨p, mem_nondominated.mpr ⟨hp, hnd⟩, Or.inl rfl⟩
  · push Not at hnd
    obtain ⟨q, hq, hqp⟩ := hnd
    obtain ⟨q', hq', rfl | hdom⟩ := ih q hq hqp
    · exact ⟨q', hq', Or.inr hqp⟩
    · exact ⟨q', hq', Or.inr (IsTrans.trans _ _ _ hdom hqp)⟩

/-- What a multiset dominates, its nondominated elements dominate. -/
theorem exists_nondominated_dom (hq : q ∈ m) (hqp : dom q p) :
    ∃ q' ∈ nondominated dom m, dom q' p := by
  obtain ⟨q', hq', rfl | hdom⟩ := exists_nondominated dom hq
  · exact ⟨q', hq', hqp⟩
  · exact ⟨q', hq', IsTrans.trans _ _ _ hdom hqp⟩

/-- What a nondominated element does not dominate no element does. -/
theorem forall_nondominated_iff :
    (∀ q ∈ nondominated dom m, ¬ dom q p) ↔ ∀ q ∈ m, ¬ dom q p := by
  constructor
  · intro h q hq hqp
    obtain ⟨q', hq', hdom⟩ := exists_nondominated_dom hq hqp
    exact h q' hq' hdom
  · exact fun h q hq => h q (mem_of_mem_nondominated hq)

/-- The nondominated elements of a multiset are empty only if it is. -/
theorem nondominated_eq_zero : nondominated dom m = 0 ↔ m = 0 := by
  refine ⟨fun h => ?_, fun h => by rw [h, nondominated_zero]⟩
  by_contra hne
  obtain ⟨p, hp⟩ := Multiset.exists_mem_of_ne_zero hne
  obtain ⟨q, hq, -⟩ := exists_nondominated dom hp
  rw [h] at hq
  exact Multiset.notMem_zero q hq

/-- **The nondominated elements of a union**: those of each part that the nondominated elements of
the other part do not dominate. -/
theorem nondominated_add (m m' : Multiset β) :
    nondominated dom (m + m') =
      (nondominated dom m).filter (fun p => ∀ q ∈ nondominated dom m', ¬ dom q p) +
        (nondominated dom m').filter (fun p => ∀ q ∈ nondominated dom m, ¬ dom q p) := by
  have hpart : ∀ p, (∀ q ∈ m + m', ¬ dom q p) ↔
      (∀ q ∈ m, ¬ dom q p) ∧ ∀ q ∈ m', ¬ dom q p := by
    intro p
    simp only [Multiset.mem_add, or_imp, forall_and]
  rw [nondominated, Multiset.filter_add]
  -- what is left of `m` is not dominated by what is left of `m'`, and the other way round
  congr 1
  · rw [nondominated.eq_def dom m, Multiset.filter_filter]
    refine Multiset.filter_congr fun p _ => ?_
    rw [hpart, forall_nondominated_iff, and_comm]
  · rw [nondominated.eq_def dom m', Multiset.filter_filter]
    refine Multiset.filter_congr fun p _ => ?_
    rw [hpart, forall_nondominated_iff]

end StrictOrder

/-! ## The greatest score -/

section Best

variable (k : β → β → ℕ)

/-- The greatest score that the elements of `m` give to `p`. -/
def best (m : Multiset β) (p : β) : ℕ := (m.map fun q => k q p).sup

variable {k}

/-- The highest score is bounded if all the scores are. -/
theorem best_le_iff {n : ℕ} : best k m p ≤ n ↔ ∀ q ∈ m, k q p ≤ n := by
  simp [best, Multiset.sup_le]

/-- Each score is one of those. -/
theorem le_best (hq : q ∈ m) : k q p ≤ best k m p := best_le_iff.mp le_rfl q hq

/-- The highest score among none. -/
@[simp] theorem best_zero (p : β) : best k 0 p = 0 := rfl

/-- The highest score of two collections. -/
theorem best_add (m m' : Multiset β) (p : β) :
    best k (m + m') p = max (best k m p) (best k m' p) := by
  rw [best, Multiset.map_add, Multiset.sup_add]
  rfl

/-- The highest score with one element more. -/
theorem best_cons (q : β) (m : Multiset β) (p : β) :
    best k (q ::ₘ m) p = max (k q p) (best k m p) := by
  rw [best, Multiset.map_cons, Multiset.sup_cons]
  rfl

/-- The greatest score is reached, or nothing scores. -/
theorem exists_best (h : best k m p ≠ 0) : ∃ q ∈ m, k q p = best k m p := by
  by_contra hne
  push Not at hne
  have hle : best k m p ≤ best k m p - 1 := best_le_iff.mpr fun q hq => by
    have := lt_of_le_of_ne (le_best (k := k) (p := p) hq) (hne q hq)
    omega
  omega

variable (dom) in
/-- **Only the nondominated elements matter for the greatest score**, where a dominating element
scores at least as much. -/
theorem best_nondominated [IsStrictOrder β dom] (hmono : ∀ q q' p, dom q q' → k q' p ≤ k q p)
    (m : Multiset β) (p : β) : best k (nondominated dom m) p = best k m p := by
  refine le_antisymm (best_le_iff.mpr fun q hq => le_best (mem_of_mem_nondominated hq)) ?_
  refine best_le_iff.mpr fun q hq => ?_
  obtain ⟨q', hq', rfl | hdom⟩ := exists_nondominated dom hq
  · exact le_best hq'
  · exact (hmono q' q p hdom).trans (le_best hq')

end Best

end ElasticPPQ.Pareto
