import Mathlib.Data.List.Nodup
import Mathlib.Logic.Function.Basic

/-! # Selection by quotas

From a list whose elements have keys, `takeQuota` keeps for each key as many elements as its quota
says, the first ones. With the quotas that exhaust the smallest keys first (`levelQuota`) the elements
kept are as many as wanted, and none of those left out has a smaller key than one of them
(`takeLevels_le`). -/

namespace ElasticPPQ

namespace Quota

section TakeQuota

variable {ι κ : Type} [DecidableEq κ]

/-- The elements that are kept, with the quotas `c`. -/
def takeQuota (key : ι → κ) : (κ → Nat) → List ι → List ι
  | _, [] => []
  | c, i :: l =>
      if 0 < c (key i) then
        i :: takeQuota key (Function.update c (key i) (c (key i) - 1)) l
      else takeQuota key c l

variable {key : ι → κ}

/-- What is taken keeps its order. -/
theorem takeQuota_sublist (c : κ → Nat) (l : List ι) : (takeQuota key c l).Sublist l := by
  induction l generalizing c with
  | nil => exact List.Sublist.refl _
  | cons i l ih =>
      rw [takeQuota]
      split
      · exact (ih _).cons_cons i
      · exact (ih c).cons i

/-- Each key gets its quota. -/
theorem countP_takeQuota (c : κ → Nat) (l : List ι) (d : κ) :
    (takeQuota key c l).countP (fun i => decide (key i = d)) =
      min (c d) (l.countP fun i => decide (key i = d)) := by
  induction l generalizing c with
  | nil => simp [takeQuota]
  | cons i l ih =>
      rw [takeQuota]
      -- only elements of the same key use up the quota of a key
      by_cases hd : key i = d
      · subst hd
        split <;> rename_i hc
        · rw [List.countP_cons, List.countP_cons, ih, Function.update_self]
          simp only [decide_true, if_true]
          omega
        · rw [ih, List.countP_cons]
          omega
      · split
        · rw [List.countP_cons, List.countP_cons, ih, Function.update_of_ne (Ne.symm hd)]
          simp [hd]
        · rw [ih, List.countP_cons]
          simp [hd]

/-- Only the quotas of the keys in the list matter. -/
theorem takeQuota_congr {c c' : κ → Nat} {l : List ι} (h : ∀ i ∈ l, c (key i) = c' (key i)) :
    takeQuota key c l = takeQuota key c' l := by
  induction l generalizing c c' with
  | nil => rfl
  | cons i l ih =>
      have hi := h i List.mem_cons_self
      have hl : ∀ j ∈ l, c (key j) = c' (key j) := fun j hj => h j (List.mem_cons_of_mem i hj)
      rw [takeQuota, takeQuota, hi]
      split
      · congr 1
        apply ih
        intro j hj
        -- taking the element lowers the quota of its own key alone
        by_cases hji : key j = key i
        · rw [hji, Function.update_self, Function.update_self]
        · rw [Function.update_of_ne hji, Function.update_of_ne hji, hl j hj]
      · exact ih hl

/-- A key of which an element is left out has used up its quota. -/
theorem quota_lt_of_not_mem {c : κ → Nat} {l : List ι} {j : ι} (hj : j ∈ l)
    (hno : j ∉ takeQuota key c l) : c (key j) < l.countP fun i => decide (key i = key j) := by
  by_contra hge
  have hcount := @countP_takeQuota _ _ _ key c l (key j)
  rw [Nat.min_eq_right (Nat.not_lt.mp hge), List.countP_eq_length_filter,
    List.countP_eq_length_filter] at hcount
  -- nothing with this key is left out
  have heq := (List.Sublist.filter (fun i => decide (key i = key j))
    (@takeQuota_sublist _ _ _ key c l)).eq_of_length hcount
  have hmem : j ∈ l.filter fun i => decide (key i = key j) :=
    List.mem_filter.mpr ⟨hj, decide_eq_true rfl⟩
  rw [← heq] at hmem
  exact hno (List.mem_filter.mp hmem).1

/-- A key of which an element is kept has a quota. -/
theorem quota_pos_of_mem {c : κ → Nat} {l : List ι} {i : ι} (hi : i ∈ takeQuota key c l) :
    0 < c (key i) := by
  have hcount := @countP_takeQuota _ _ _ key c l (key i)
  have hpos : 0 < (takeQuota key c l).countP fun j => decide (key j = key i) :=
    List.countP_pos_iff.mpr ⟨i, hi, decide_eq_true rfl⟩
  omega

end TakeQuota

/-! ## Smallest keys first -/

section Levels

variable {ι : Type}

/-- How many elements have a smaller key. -/
def below (key : ι → Nat) (l : List ι) (d : Nat) : Nat := l.countP fun i => decide (key i < d)

/-- The quota of a key, if `delta` elements are wanted: what the smaller keys leave. -/
def levelQuota (key : ι → Nat) (l : List ι) (delta d : Nat) : Nat :=
  min (l.countP fun i => decide (key i = d)) (delta - below key l d)

variable {key : ι → Nat} {l : List ι} {delta : Nat}

/-- Nothing has a key below zero. -/
theorem below_zero (key : ι → Nat) (l : List ι) : below key l 0 = 0 :=
  List.countP_eq_zero.mpr fun i _ => by simp

/-- One key more. -/
theorem below_succ (key : ι → Nat) (l : List ι) (d : Nat) :
    below key l (d + 1) = below key l d + l.countP fun i => decide (key i = d) := by
  unfold below
  induction l with
  | nil => rfl
  | cons i l ih =>
      rw [List.countP_cons, List.countP_cons, List.countP_cons, ih]
      -- the key is below `d`, is `d` itself, or is above
      rcases Nat.lt_trichotomy (key i) d with h | h | h
      · have h₁ : key i < d + 1 := by omega
        have h₂ : key i ≠ d := by omega
        simp [h, h₁, h₂]
        omega
      · simp [h]
        omega
      · have h₁ : ¬ key i < d + 1 := by omega
        have h₂ : ¬ key i < d := by omega
        have h₃ : key i ≠ d := by omega
        simp [h₁, h₂, h₃]

/-- Higher bounds count more. -/
theorem below_mono (key : ι → Nat) (l : List ι) {d e : Nat} (h : d ≤ e) :
    below key l d ≤ below key l e := by
  induction h with
  | refl => exact Nat.le_refl _
  | step h ih =>
      rw [below_succ]
      exact Nat.le_trans ih (Nat.le_add_right _ _)

/-- All the keys are below a bound. -/
theorem below_eq_length {D : Nat} (h : ∀ i ∈ l, key i < D) : below key l D = l.length :=
  List.countP_eq_length.mpr fun i hi => decide_eq_true (h i hi)

/-- How many elements with smaller keys are kept. -/
theorem below_takeQuota (d : Nat) :
    below key (takeQuota key (levelQuota key l delta) l) d = min delta (below key l d) := by
  induction d with
  | zero => rw [below_zero, below_zero, Nat.min_zero]
  | succ d ih =>
      rw [below_succ, below_succ, ih, countP_takeQuota, levelQuota]
      omega

/-- **As many elements are kept as wanted**, if there are as many. -/
theorem length_takeLevels {D : Nat} (h : ∀ i ∈ l, key i < D) :
    (takeQuota key (levelQuota key l delta) l).length = min delta l.length := by
  have hkept : ∀ i ∈ takeQuota key (levelQuota key l delta) l, key i < D := fun i hi =>
    h i ((takeQuota_sublist _ l).subset hi)
  rw [← below_eq_length hkept, below_takeQuota, below_eq_length h]

/-- **No element left out has a smaller key than one that is kept.** -/
theorem takeLevels_le {i j : ι} (hi : i ∈ takeQuota key (levelQuota key l delta) l) (hj : j ∈ l)
    (hno : j ∉ takeQuota key (levelQuota key l delta) l) : key i ≤ key j := by
  have hpos := quota_pos_of_mem hi
  have hused := quota_lt_of_not_mem hj hno
  by_contra hlt
  have hmono := below_mono key l (Nat.succ_le_of_lt (Nat.not_le.mp hlt))
  rw [Nat.succ_eq_add_one, below_succ] at hmono
  rw [levelQuota] at hpos hused
  omega

end Levels

end Quota

end ElasticPPQ
