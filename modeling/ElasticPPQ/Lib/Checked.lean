import Mathlib.Data.List.GetD
import Mathlib.Logic.Function.Basic

/-! # Checked accesses

An array of the program is a list, or a function on `Fin n` if its size `n` is fixed, and an index a
number of any sign. An access is defined inside the array only. -/

namespace ElasticPPQ

variable {α : Type*}

/-- `l[i]`, read. -/
def readAt (l : List α) (i : Int) : Option α := if 0 ≤ i then l[i.toNat]? else none

/-- `l[i] = x`. -/
def writeAt (l : List α) (i : Int) (x : α) : Option (List α) :=
  if 0 ≤ i ∧ i.toNat < l.length then some (l.set i.toNat x) else none

/-- A read inside the array. -/
theorem readAt_eq {l : List α} {n : Nat} (h : n < l.length) : readAt l n = some l[n] := by
  rw [readAt, if_pos (Int.natCast_nonneg n), Int.toNat_natCast, List.getElem?_eq_getElem h]

/-- A read inside the array, as a read with a default. -/
theorem readAt_eq_getD {l : List α} {n : Nat} (h : n < l.length) (a : α) :
    readAt l n = some (l.getD n a) := by
  rw [readAt_eq h, List.getD_eq_getElem _ _ h]

/-- A write inside the array. -/
theorem writeAt_eq {l : List α} {n : Nat} (h : n < l.length) (x : α) :
    writeAt l n x = some (l.set n x) := by
  rw [writeAt, if_pos ⟨Int.natCast_nonneg n, by rwa [Int.toNat_natCast]⟩, Int.toNat_natCast]

/-- A read of an array given as a function of the index. -/
theorem readAt_map_range {n i : Nat} (h : i < n) (f : Nat → α) :
    readAt ((List.range n).map f) i = some (f i) := by
  rw [readAt_eq (by rwa [List.length_map, List.length_range]), List.getElem_map,
    List.getElem_range]

/-- A write of an array given as a function of the index. -/
theorem writeAt_map_range {n i : Nat} (h : i < n) (f : Nat → α) (x : α) :
    writeAt ((List.range n).map f) i x = some ((List.range n).map (Function.update f i x)) := by
  rw [writeAt_eq (by rwa [List.length_map, List.length_range])]
  refine congrArg some (List.ext_getElem (by simp) fun j hj hj' => ?_)
  rw [List.getElem_set, List.getElem_map, List.getElem_map, List.getElem_range,
    Function.update_apply]
  simp only [eq_comm]

/-! ## Arrays of a fixed size -/

/-- `a[i]`, read, for an array with `n` entries. -/
def fetch {n : Nat} (a : Fin n → α) (i : Int) : Option α :=
  if h : 0 ≤ i ∧ i.toNat < n then some (a ⟨i.toNat, h.2⟩) else none

/-- `a[i] = x`. -/
def store {n : Nat} (a : Fin n → α) (i : Int) (x : α) : Option (Fin n → α) :=
  if h : 0 ≤ i ∧ i.toNat < n then some (Function.update a ⟨i.toNat, h.2⟩ x) else none

/-- A read within bounds succeeds. -/
theorem fetch_eq {n : Nat} (a : Fin n → α) (i : Fin n) : fetch a i.val = some (a i) := by
  rw [fetch, dif_pos ⟨Int.natCast_nonneg _, by rw [Int.toNat_natCast]; exact i.isLt⟩]
  rfl

/-- A write within bounds succeeds. -/
theorem store_eq {n : Nat} (a : Fin n → α) (i : Fin n) (x : α) :
    store a i.val x = some (Function.update a i x) := by
  rw [store, dif_pos ⟨Int.natCast_nonneg _, by rw [Int.toNat_natCast]; exact i.isLt⟩]
  rfl

/-- A read outside of the array goes wrong. -/
theorem fetch_eq_none {n : Nat} (a : Fin n → α) {i : Int} (h : i < 0 ∨ (n : Int) ≤ i) :
    fetch a i = none := by
  rw [fetch, dif_neg (by omega)]

end ElasticPPQ
