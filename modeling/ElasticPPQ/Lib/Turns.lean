import Mathlib.Data.List.Rotate

/-! # Taking turns

A queue whose head is served and goes to the back: `turns q c` are the members served by `c` turns.
As long as the queue, a stretch of turns serves every member once, in the order of the queue from
some member on; so over any number of turns no member is served more often than another by more
than one. -/

namespace ElasticPPQ

variable {α : Type*}

/-- The members of the queue served by `c` turns, first to last. -/
def turns : List α → Nat → List α
  | _, 0 => []
  | [], _ + 1 => []
  | a :: q, c + 1 => a :: turns (q ++ [a]) c

/-- No turns. -/
@[simp] theorem turns_zero (q : List α) : turns q 0 = [] := by
  cases q <;> rfl

/-- The first one takes its turn, and goes to the end of the queue. -/
theorem turns_cons (a : α) (q : List α) (c : Nat) :
    turns (a :: q) (c + 1) = a :: turns (q ++ [a]) c := rfl

/-- One turn: the head is served, and the queue is rotated by one. -/
theorem turns_succ {q : List α} {a : α} (h : q.head? = some a) (c : Nat) :
    turns q (c + 1) = a :: turns (q.rotate 1) c := by
  cases q with
  | nil => cases h
  | cons b q =>
      obtain rfl : b = a := Option.some.inj h
      rw [turns_cons, List.rotate_cons_succ, List.rotate_zero]

/-- As many turns as wanted. -/
theorem length_turns {q : List α} (hq : q ≠ []) (c : Nat) : (turns q c).length = c := by
  induction c generalizing q with
  | zero => rw [turns_zero, List.length_nil]
  | succ c ih =>
      cases q with
      | nil => exact absurd rfl hq
      | cons a q =>
          rw [turns_cons, List.length_cons, ih (by simp)]

/-- The members in front of the queue are served, and go to the back. -/
theorem turns_append (q r : List α) (c : Nat) :
    turns (q ++ r) (q.length + c) = q ++ turns (r ++ q) c := by
  induction q generalizing r with
  | nil => simp
  | cons a q ih =>
      rw [List.cons_append, List.length_cons, Nat.succ_add, turns_cons, List.append_assoc, ih]
      simp

/-- **A round**: as many turns as the queue has members serve it once through, in order, and leave
it as it was. -/
theorem turns_round (q : List α) (c : Nat) : turns q (q.length + c) = q ++ turns q c := by
  have h := turns_append q [] c
  rwa [List.append_nil, List.nil_append] at h

/-- Turns in two stretches: the second one meets the queue rotated by the first. -/
theorem turns_add (q : List α) (i c : Nat) :
    turns q (i + c) = turns q i ++ turns (q.rotate i) c := by
  induction i generalizing q with
  | zero => simp
  | succ i ih =>
      cases q with
      | nil =>
          rw [Nat.succ_add, List.rotate_nil]
          cases c <;> rfl
      | cons a q =>
          rw [Nat.succ_add, turns_cons, turns_cons, ih, List.rotate_cons_succ, List.cons_append]

/-- **Any window of the turns as long as the queue is the queue, rotated.** -/
theorem take_drop_turns {q : List α} (hq : q ≠ []) {i c : Nat} (h : i + q.length ≤ c) :
    ((turns q c).drop i).take q.length = q.rotate i := by
  obtain ⟨d, rfl⟩ := Nat.exists_eq_add_of_le h
  have hround := turns_round (q.rotate i) d
  rw [List.length_rotate] at hround
  rw [Nat.add_assoc, turns_add, hround,
    List.drop_left' (length_turns hq i), List.take_left' (List.length_rotate q i)]

/-- Fewer turns than the queue has members serve the first of them. -/
theorem turns_eq_take {q : List α} {c : Nat} (h : c ≤ q.length) : turns q c = q.take c := by
  have hsplit := turns_append (q.take c) (q.drop c) 0
  rwa [List.take_append_drop, List.length_take_of_le h, turns_zero, List.append_nil,
    Nat.add_zero] at hsplit

/-- Only members of the queue are served. -/
theorem mem_of_mem_turns {q : List α} {c : Nat} {a : α} (h : a ∈ turns q c) : a ∈ q := by
  induction c generalizing q with
  | zero =>
      rw [turns_zero] at h
      exact absurd h List.not_mem_nil
  | succ c ih =>
      cases q with
      | nil => exact absurd h List.not_mem_nil
      | cons b q =>
          rcases List.mem_cons.mp h with rfl | h
          · exact List.mem_cons_self
          · have hmem := ih h
            rwa [List.mem_append, List.mem_singleton, or_comm, ← List.mem_cons] at hmem

variable [DecidableEq α]

/-- **Turns are fair.** With distinct members, `c` turns serve each of the `m` members at least
`⌊c / m⌋` times, and at most `⌈c / m⌉` times. -/
theorem count_turns {q : List α} (hq : q.Nodup) {a : α} (ha : a ∈ q) (c : Nat) :
    c / q.length ≤ (turns q c).count a ∧
      (turns q c).count a ≤ (c + q.length - 1) / q.length := by
  have hpos : 0 < q.length := List.length_pos_of_mem ha
  -- Whole rounds are taken off the front, each with one turn of `a`.
  induction c using Nat.strong_induction_on with
  | _ c ih =>
      by_cases hc : c < q.length
      · have hone : (q.take c).count a ≤ 1 :=
          List.nodup_iff_count_le_one.mp (hq.sublist (List.take_sublist c q)) a
        rw [turns_eq_take hc.le, Nat.div_eq_of_lt hc]
        refine ⟨Nat.zero_le _, ?_⟩
        cases c with
        | zero => simp
        | succ c =>
            rw [Nat.succ_add_sub_one, Nat.add_div_right _ hpos]
            exact hone.trans (Nat.le_add_left 1 _)
      · obtain ⟨d, rfl⟩ := Nat.exists_eq_add_of_le (Nat.not_lt.mp hc)
        obtain ⟨hlow, hhigh⟩ := ih d (by omega)
        have hround : (d + q.length - 1 + q.length) / q.length =
            (d + q.length - 1) / q.length + 1 := Nat.add_div_right _ hpos
        rw [turns_round, List.count_append, List.count_eq_one_of_mem hq ha,
          Nat.add_div_left _ hpos,
          show q.length + d + q.length - 1 = d + q.length - 1 + q.length by omega, hround]
        omega

end ElasticPPQ
