import Mathlib.Algebra.BigOperators.Group.Finset.Basic
import Mathlib.Data.Fintype.Basic
import Mathlib.Tactic.Abel

/-! # Families of FIFO channels

One channel for each index, as a list with the oldest message first. What all the channels hold
together is a multiset (`contents`): a message sent adds itself to it, one received leaves it. -/

namespace ElasticPPQ.Channels

variable {ι μ : Type*} [DecidableEq ι]

/-- A message is appended to channel `i`. -/
def push (q : ι → List μ) (i : ι) (m : μ) : ι → List μ := Function.update q i (q i ++ [m])

/-- The channel that gets the message. -/
@[simp] theorem push_self (q : ι → List μ) (i : ι) (m : μ) : push q i m i = q i ++ [m] :=
  Function.update_self ..

/-- The other channels stay as they are. -/
theorem push_of_ne (q : ι → List μ) {i j : ι} (h : j ≠ i) (m : μ) : push q i m j = q j :=
  Function.update_of_ne h ..

/-- A list of messages is appended, each to its channel. -/
def pushAll (q : ι → List μ) : List (ι × μ) → ι → List μ
  | [] => q
  | x :: xs => pushAll (push q x.1 x.2) xs

/-- Each channel grows by the messages sent to it. -/
theorem length_pushAll (q : ι → List μ) (l : List (ι × μ)) (i : ι) :
    (pushAll q l i).length = (q i).length + (l.map Prod.fst).count i := by
  induction l generalizing q with
  | nil => rfl
  | cons x xs ih =>
      rw [pushAll, ih, List.map_cons, List.count_cons]
      by_cases h : i = x.1
      · subst h
        rw [push_self, List.length_append, List.length_singleton, if_pos (by simp)]
        omega
      · rw [push_of_ne q h, if_neg (by simpa using Ne.symm h), Nat.add_zero]

/-- A message in a channel was there before or has been sent. -/
theorem mem_pushAll {q : ι → List μ} {l : List (ι × μ)} {i : ι} {m : μ} (h : m ∈ pushAll q l i) :
    m ∈ q i ∨ m ∈ l.map Prod.snd := by
  induction l generalizing q with
  | nil => exact Or.inl h
  | cons x xs ih =>
      rcases ih h with h | h
      -- the first message goes to channel `i` or to another one
      · by_cases hi : i = x.1
        · subst hi
          rw [push_self] at h
          rcases List.mem_append.mp h with h | h
          · exact Or.inl h
          · rw [List.mem_singleton.mp h]
            exact Or.inr List.mem_cons_self
        · rw [push_of_ne q hi] at h
          exact Or.inl h
      · exact Or.inr (List.mem_cons_of_mem _ h)

variable [Fintype ι]

/-- The messages of all the channels. -/
def contents (q : ι → List μ) : Multiset μ := ∑ i, (q i : Multiset μ)

omit [DecidableEq ι] in
/-- A message is in some channel. -/
theorem mem_contents {q : ι → List μ} {m : μ} : m ∈ contents q ↔ ∃ i, m ∈ q i := by
  simp [contents, Multiset.mem_sum]

/-- Overwriting one channel. -/
theorem contents_update (q : ι → List μ) (i : ι) (l : List μ) :
    contents (Function.update q i l) + (q i : Multiset μ) = contents q + (l : Multiset μ) := by
  have hrest : ∀ q' : ι → List μ, (∀ j, j ≠ i → q' j = q j) →
      contents q' = (q' i : Multiset μ) + ∑ j ∈ Finset.univ.erase i, (q j : Multiset μ) := by
    intro q' hq'
    rw [contents, ← Finset.add_sum_erase _ _ (Finset.mem_univ i)]
    refine congrArg _ (Finset.sum_congr rfl fun j hj => ?_)
    rw [hq' j (Finset.ne_of_mem_erase hj)]
  rw [hrest _ fun j hj => Function.update_of_ne hj .., hrest q fun _ _ => rfl,
    Function.update_self]
  abel

/-- A message received leaves the contents. -/
theorem contents_pop {q : ι → List μ} {i : ι} {m : μ} {ms : List μ} (h : q i = m :: ms) :
    contents q = {m} + contents (Function.update q i ms) := by
  have := contents_update q i ms
  rw [h, ← Multiset.cons_coe, ← Multiset.singleton_add, ← add_assoc] at this
  have hcancel := add_right_cancel this
  rw [← hcancel, add_comm]

/-- A message sent joins the contents. -/
theorem contents_push (q : ι → List μ) (i : ι) (m : μ) :
    contents (push q i m) = contents q + {m} := by
  have := contents_update q i (q i ++ [m])
  rw [← Multiset.coe_add, add_comm (q i : Multiset μ), ← add_assoc] at this
  exact add_right_cancel this

/-- What is sent is in the channels. -/
theorem contents_pushAll (q : ι → List μ) (l : List (ι × μ)) :
    contents (pushAll q l) = contents q + (l.map Prod.snd : Multiset μ) := by
  induction l generalizing q with
  | nil => simp [pushAll]
  | cons x xs ih =>
      rw [pushAll, ih, contents_push, List.map_cons, ← Multiset.cons_coe, ← Multiset.singleton_add,
        add_assoc]

end ElasticPPQ.Channels
