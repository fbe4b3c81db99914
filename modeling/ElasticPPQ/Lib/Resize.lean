import Mathlib.Data.List.GetD

/-! # Growable vectors read with a default

A vector that is resized with a fill value and read with the same fill value behaves like a total
function: resizing is invisible to reads, and a write inside the bounds changes one point. These
are the only facts proofs about such vectors use. -/

namespace ElasticPPQ

variable {α : Type*}

/-- Resize a vector to `n` entries, filling with `a`. -/
def resize (l : List α) (n : Nat) (a : α) : List α :=
  l.take n ++ List.replicate (n - l.length) a

/-- The new length. -/
@[simp] theorem length_resize (l : List α) (n : Nat) (a : α) : (resize l n a).length = n := by
  simp only [resize, List.length_append, List.length_take, List.length_replicate]
  omega

/-- Growing a vector is invisible to reads with the fill value as default. -/
theorem getD_resize {l : List α} {n : Nat} (hn : l.length ≤ n) (a : α) (i : Nat) :
    (resize l n a).getD i a = l.getD i a := by
  rw [resize, List.take_of_length_le hn]
  by_cases hi : i < l.length
  · rw [List.getD_append _ _ _ _ hi]
  · rw [List.getD_append_right _ _ _ _ (Nat.not_lt.mp hi), List.getD_eq_default _ _ (Nat.not_lt.mp hi)]
    simp [List.getD_eq_getElem?_getD, List.getElem?_replicate]
    split <;> rfl

/-- A read after a write. -/
theorem getD_set (l : List α) (i j : Nat) (x a : α) :
    (l.set i x).getD j a = if j = i ∧ i < l.length then x else l.getD j a := by
  simp only [List.getD_eq_getElem?_getD, List.getElem?_set]
  by_cases h : i = j
  · subst h
    by_cases hl : i < l.length
    · simp [hl]
    · simp [hl]
  · rw [if_neg h, if_neg (fun hj => h hj.1.symm)]

/-- A read, inside the bounds or elsewhere, after a write inside the bounds. -/
theorem getD_set_of_lt {l : List α} {i : Nat} (hi : i < l.length) (j : Nat) (x a : α) :
    (l.set i x).getD j a = if j = i then x else l.getD j a := by
  rw [getD_set]
  simp [hi]

/-- One entry takes the place of another. -/
theorem set_getD_of_eq {l A B A' B' : List α} {x y : α} (hx : l = A ++ x :: B)
    (hy : l = A' ++ y :: B') (a : α) : l.set A.length (l.getD A'.length a) = A ++ y :: B := by
  have hget : l.getD A'.length a = y := by
    rw [hy, List.getD_append_right _ _ _ _ (Nat.le_refl _)]
    simp
  rw [hget, hx]
  simp

/-- The entries of the first `m` indices, extended to the first `n`. -/
theorem map_range_append {f g : Nat → α} {m n : Nat} (hle : m ≤ n) (h : ∀ p, p < m → f p = g p) :
    (List.range m).map f ++ (List.range' m (n - m)).map g = (List.range n).map g := by
  have hfront : (List.range m).map f = (List.range m).map g :=
    List.map_congr_left fun p hp => h p (List.mem_range.mp hp)
  have hrange : List.range m ++ List.range' m (n - m) = List.range n := by
    have happend := List.range'_append_1 (s := 0) (m := m) (n := n - m)
    rwa [Nat.zero_add, Nat.add_sub_cancel' hle, ← List.range_eq_range', ← List.range_eq_range']
      at happend
  rw [hfront, ← List.map_append, hrange]

/-- A vector grown, if necessary, to have an entry at index `p`. -/
def growTable (l : List α) (p : Nat) (a : α) : List α :=
  if l.length ≤ p then resize l (p + 1) a else l

/-- A table that grows reads as before. -/
theorem getD_growTable (l : List α) (p : Nat) (a : α) (i : Nat) :
    (growTable l p a).getD i a = l.getD i a := by
  unfold growTable
  by_cases h : l.length ≤ p
  · rw [if_pos h]
    exact getD_resize (by omega) a i
  · rw [if_neg h]

/-- A table has room for the index that it has been grown for. -/
theorem length_growTable (l : List α) (p : Nat) (a : α) :
    (growTable l p a).length = max l.length (p + 1) := by
  unfold growTable
  by_cases h : l.length ≤ p
  · rw [if_pos h, length_resize]
    omega
  · rw [if_neg h]
    omega

end ElasticPPQ
