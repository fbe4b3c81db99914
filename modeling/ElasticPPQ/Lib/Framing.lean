import Mathlib.Init

/-! # Frames of a fixed length in a stream

Frames of one length follow each other in a stream without delimiters. Two sequences of frames that
begin the same stream, one of them up to an incomplete frame, are related by their lengths alone. -/

namespace ElasticPPQ

namespace Framing

variable {β : Type*} {len : Nat}

/-- **Frames are recovered.** All the frames of `A` are among those of `B`, in the same order, if only
an incomplete frame follows those of `B`. -/
theorem frames_initial {A B : List (List β)} (hA : ∀ x ∈ A, x.length = len)
    (hB : ∀ y ∈ B, y.length = len) {a b : List β} (hb : b.length < len)
    (h : A.flatten ++ a = B.flatten ++ b) : A <+: B := by
  induction A generalizing B with
  | nil => exact List.nil_prefix
  | cons x A ih =>
      have hx := hA x List.mem_cons_self
      cases B with
      | nil =>
          -- the first frame is longer than what there is
          have hlen := congrArg List.length h
          simp only [List.flatten_cons, List.flatten_nil, List.length_append, List.length_nil] at hlen
          omega
      | cons y B =>
          have hy := hB y List.mem_cons_self
          rw [List.flatten_cons, List.flatten_cons, List.append_assoc, List.append_assoc] at h
          obtain ⟨rfl, hrest⟩ := List.append_inj h (hx.trans hy.symm)
          rw [List.cons_prefix_cons]
          refine ⟨rfl, ih ?_ ?_ hrest⟩
          · exact fun z hz => hA z (List.mem_cons_of_mem x hz)
          · exact fun z hz => hB z (List.mem_cons_of_mem x hz)

/-- Nothing is missing if an incomplete frame follows on both sides. -/
theorem frames_eq {A B : List (List β)} (hA : ∀ x ∈ A, x.length = len)
    (hB : ∀ y ∈ B, y.length = len) {a b : List β} (ha : a.length < len) (hb : b.length < len)
    (h : A.flatten ++ a = B.flatten ++ b) : A = B :=
  (frames_initial hA hB hb h).eq_of_length_le (frames_initial hB hA ha h.symm).length_le

/-- The frame at a given index. -/
theorem take_drop_flatten {A : List (List β)} (hA : ∀ x ∈ A, x.length = len) {i : Nat}
    (hi : i < A.length) : (A.flatten.drop (len * i)).take len = A[i] := by
  induction A generalizing i with
  | nil => exact absurd hi (Nat.not_lt_zero i)
  | cons x A ih =>
      have hx := hA x List.mem_cons_self
      cases i with
      | zero =>
          rw [Nat.mul_zero, List.drop_zero, List.flatten_cons, List.take_left' hx]
          rfl
      | succ i =>
          rw [List.flatten_cons, Nat.mul_succ, Nat.add_comm, ← List.drop_drop, List.drop_left' hx]
          exact ih (fun z hz => hA z (List.mem_cons_of_mem x hz)) (Nat.lt_of_succ_lt_succ hi)

/-- Frames of the same length one after the other. -/
theorem length_flatten {A : List (List β)} (hA : ∀ x ∈ A, x.length = len) :
    A.flatten.length = len * A.length := by
  induction A with
  | nil => rfl
  | cons x A ih =>
      rw [List.flatten_cons, List.length_append, hA x List.mem_cons_self, List.length_cons,
        ih fun z hz => hA z (List.mem_cons_of_mem x hz), Nat.mul_succ, Nat.add_comm]

end Framing

end ElasticPPQ
