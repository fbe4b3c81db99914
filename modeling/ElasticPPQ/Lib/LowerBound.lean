import Mathlib.Data.List.Basic
import Mathlib.Data.List.Sort
import Mathlib.Order.Lattice

/-! # The lower bound of a partitioned sequence

`std::lower_bound` as the standard library computes it: a binary search for the first position whose
element does not satisfy the comparison. On a sequence that is partitioned by the comparison it
returns the partition point, and inserting there keeps a sorted sequence sorted. -/

namespace ElasticPPQ

variable {α : Type*}

/-- The loop of the binary search: the partition point is among the `len` positions after `first`,
or right after them. The length at least halves, so `len` is enough fuel. -/
def lowerBoundLoop (before : α → Bool) (l : List α) : Nat → Nat → Nat → Nat
  | 0, first, _ => first
  | fuel + 1, first, len =>
      if len = 0 then first
      else
        match l[first + len / 2]? with
        | none => first
        | some a =>
            if before a then lowerBoundLoop before l fuel (first + len / 2 + 1) (len - len / 2 - 1)
            else lowerBoundLoop before l fuel first (len / 2)

/-- The first position whose element is not before the searched value. -/
def lowerBound (before : α → Bool) (l : List α) : Nat :=
  lowerBoundLoop before l l.length 0 l.length

/-- No element that is before the searched value comes after one that is not. -/
def Partitioned (before : α → Bool) (l : List α) : Prop :=
  l.Pairwise fun a b => before b = true → before a = true

/-- The elements up to `first` are before the searched value, and those from `first + len` on are
not. -/
structure Narrowed (before : α → Bool) (l : List α) (first len : Nat) : Prop where
  le : first + len ≤ l.length
  below : ∀ i a, i < first → l[i]? = some a → before a = true
  above : ∀ i a, first + len ≤ i → l[i]? = some a → before a = false

/-- In a partitioned sequence an earlier element is before the searched value if a later one is. -/
theorem Partitioned.before_of_le {before : α → Bool} {l : List α} (h : Partitioned before l)
    {i j : Nat} (hij : i ≤ j) {a b : α} (ha : l[i]? = some a) (hb : l[j]? = some b)
    (hbefore : before b = true) : before a = true := by
  rcases hij.lt_or_eq with hlt | rfl
  · obtain ⟨hi, rfl⟩ := List.getElem?_eq_some_iff.mp ha
    obtain ⟨hj, rfl⟩ := List.getElem?_eq_some_iff.mp hb
    exact List.pairwise_iff_getElem.mp h i j hi hj hlt hbefore
  · rw [ha] at hb
    cases hb
    exact hbefore

/-- The loop narrows the range down to the partition point. -/
theorem lowerBoundLoop_spec {before : α → Bool} {l : List α} (h : Partitioned before l) {fuel first
    len : Nat} (hn : Narrowed before l first len) (hfuel : len ≤ fuel) :
    Narrowed before l (lowerBoundLoop before l fuel first len) 0 := by
  induction fuel generalizing first len with
  | zero =>
      obtain rfl : len = 0 := Nat.le_zero.mp hfuel
      exact hn
  | succ fuel ih =>
      rw [lowerBoundLoop]
      by_cases hlen : len = 0
      · rw [if_pos hlen]
        exact hlen ▸ hn
      · rw [if_neg hlen]
        obtain ⟨a, ha⟩ : ∃ a, l[first + len / 2]? = some a :=
          ⟨_, List.getElem?_eq_getElem (by have := hn.le; omega)⟩
        rw [ha]
        dsimp only
        by_cases hbefore : before a = true
        · -- the partition point is after the middle
          rw [if_pos hbefore]
          apply ih
          · refine ⟨by have := hn.le; omega, fun i b hi hb => ?_, fun i b hi hb => ?_⟩
            · exact h.before_of_le (by omega) hb ha hbefore
            · exact hn.above i b (by omega) hb
          · omega
        · rw [if_neg hbefore]
          apply ih
          · refine ⟨by have := hn.le; omega, hn.below, fun i b hi hb => ?_⟩
            -- everything after the middle is not before either
            by_contra hb'
            exact hbefore (h.before_of_le hi ha hb (by simpa using hb'))
          · omega

/-- **The lower bound is the partition point.** -/
theorem lowerBound_spec {before : α → Bool} {l : List α} (h : Partitioned before l) :
    Narrowed before l (lowerBound before l) 0 := by
  apply lowerBoundLoop_spec h _ le_rfl
  refine ⟨by omega, fun i a hi => absurd hi (Nat.not_lt_zero i), fun i a hi ha => ?_⟩
  obtain ⟨hlt, -⟩ := List.getElem?_eq_some_iff.mp ha
  omega

/-- The search stays within the list. -/
theorem lowerBound_le {before : α → Bool} {l : List α} (h : Partitioned before l) :
    lowerBound before l ≤ l.length := (lowerBound_spec h).le

/-- The elements before the lower bound. -/
theorem before_of_mem_take {before : α → Bool} {l : List α} (h : Partitioned before l) {a : α}
    (ha : a ∈ l.take (lowerBound before l)) : before a = true := by
  obtain ⟨i, hi, rfl⟩ := List.mem_iff_getElem.mp ha
  have hlt : i < lowerBound before l := (List.length_take ▸ hi).trans_le (min_le_left _ _)
  refine (lowerBound_spec h).below i _ hlt ?_
  rw [List.getElem_take]
  exact List.getElem?_eq_getElem _

/-- The elements from the lower bound on. -/
theorem not_before_of_mem_drop {before : α → Bool} {l : List α} (h : Partitioned before l) {a : α}
    (ha : a ∈ l.drop (lowerBound before l)) : before a = false := by
  obtain ⟨i, hi, rfl⟩ := List.mem_iff_getElem.mp ha
  refine (lowerBound_spec h).above (lowerBound before l + i) _ (Nat.le_add_right _ _) ?_
  rw [List.getElem_drop]
  exact List.getElem?_eq_getElem _

/-- What precedes the lower bound is what satisfies the comparison. -/
theorem take_lowerBound {before : α → Bool} {l : List α} (h : Partitioned before l) :
    l.take (lowerBound before l) = l.filter before := by
  conv_rhs => rw [← List.take_append_drop (lowerBound before l) l]
  rw [List.filter_append, List.filter_eq_self.mpr fun a ha => before_of_mem_take h ha,
    List.filter_eq_nil_iff.mpr fun a ha => ?_, List.append_nil]
  rw [not_before_of_mem_drop h ha]
  exact Bool.false_ne_true

/-- `insert` of a sequence container at a position. -/
def insertAt (l : List α) (i : Nat) (a : α) : List α := l.take i ++ a :: l.drop i

/-- An insertion adds one element. -/
theorem insertAt_perm (l : List α) (i : Nat) (a : α) : (insertAt l i a).Perm (a :: l) := by
  have h : (l.take i ++ a :: l.drop i).Perm (a :: (l.take i ++ l.drop i)) := List.perm_middle
  rwa [List.take_append_drop] at h

section Keyed

variable {β : Type*} [LinearOrder β] (f : α → β)

/-- A sequence sorted by a key is partitioned by comparing the key, strictly or not. -/
theorem partitioned_lt {l : List α} (h : l.Pairwise fun a b => f a ≤ f b) (k : β) :
    Partitioned (fun a => decide (f a < k)) l :=
  h.imp fun hab hb => decide_eq_true (hab.trans_lt (of_decide_eq_true hb))

/-- In a sorted list those up to a bound come first. -/
theorem partitioned_le {l : List α} (h : l.Pairwise fun a b => f a ≤ f b) (k : β) :
    Partitioned (fun a => decide (f a ≤ k)) l :=
  h.imp fun hab hb => decide_eq_true (hab.trans (of_decide_eq_true hb))

/-- **Inserting at the lower bound keeps the sequence sorted.** -/
theorem pairwise_insertAt {l : List α} (h : l.Pairwise fun a b => f a ≤ f b) (a : α) :
    (insertAt l (lowerBound (fun b => decide (f b < f a)) l) a).Pairwise
      fun a b => f a ≤ f b := by
  have hp := partitioned_lt f h (f a)
  -- what is before the position is smaller, what is after it is not
  obtain ⟨i, hi⟩ : ∃ i, i = lowerBound (fun b => decide (f b < f a)) l := ⟨_, rfl⟩
  have hsplit : (l.take i ++ l.drop i).Pairwise fun a b => f a ≤ f b := by
    rw [List.take_append_drop]
    exact h
  obtain ⟨htake, hdrop, hcross⟩ := List.pairwise_append.mp hsplit
  rw [← hi]
  refine List.pairwise_append.mpr ⟨htake, List.pairwise_cons.mpr ⟨fun b hb => ?_, hdrop⟩,
    fun b hb d hd => ?_⟩
  · have := not_before_of_mem_drop hp (hi ▸ hb)
    exact not_lt.mp (of_decide_eq_false this)
  · rcases List.mem_cons.mp hd with rfl | hd
    · exact (of_decide_eq_true (before_of_mem_take hp (hi ▸ hb))).le
    · exact hcross b hb d hd

end Keyed

end ElasticPPQ
