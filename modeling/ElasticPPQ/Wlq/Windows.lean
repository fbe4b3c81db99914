import ElasticPPQ.Plq.Worker
import ElasticPPQ.Wlq.Emitter
import Mathlib.Tactic.Positivity

/-! # Which windows contain a pane

Window `k` consists of the `wp` panes from `sp * k` on. The emitter of the second stage computes the
first and the last window of a pane with quotients rounded up; the windows in between are those that
contain the pane. -/

namespace ElasticPPQ

/-- Pane `p` belongs to window `k`. -/
def InWindow (wp sp k p : Nat) : Prop := sp * k ≤ p ∧ p < sp * k + wp

instance decidableInWindow (wp sp k p : Nat) : Decidable (InWindow wp sp k p) :=
  inferInstanceAs (Decidable (_ ∧ _))

variable {wp sp : Nat}

/-- The first window of a pane ends after it. -/
theorem firstWin_le_iff (hsp : 1 ≤ sp) (p k : Nat) : firstWin wp sp p ≤ k ↔ p < sp * k + wp := by
  unfold firstWin
  -- the first window is 0 up to the first full one, and a rounded quotient from there on
  by_cases hp : p < wp
  · rw [if_pos hp]
    exact ⟨fun _ => by omega, fun _ => Nat.zero_le k⟩
  · have hpos : (0 : ℚ) < sp := by exact_mod_cast hsp
    rw [if_neg hp, Nat.ceil_le, div_le_iff₀ hpos]
    constructor
    · intro h
      have hle : p + 1 - wp ≤ k * sp := by exact_mod_cast h
      rw [Nat.mul_comm] at hle
      omega
    · intro h
      have hle : p + 1 - wp ≤ k * sp := by
        rw [Nat.mul_comm]
        omega
      exact_mod_cast hle

/-- The last window of a pane does not begin after it. -/
theorem le_lastWin_iff (hsp : 1 ≤ sp) (p k : Nat) : k ≤ lastWin sp p ↔ sp * k ≤ p := by
  have hpos : (0 : ℚ) < sp := by exact_mod_cast hsp
  have hceil : k < ⌈((p + 1 : Nat) : ℚ) / sp⌉₊ ↔ sp * k ≤ p := by
    rw [Nat.lt_ceil, lt_div_iff₀ hpos, Nat.mul_comm, ← Nat.lt_succ_iff]
    exact_mod_cast Iff.rfl
  have hone : 0 < ⌈((p + 1 : Nat) : ℚ) / sp⌉₊ := by
    rw [Nat.ceil_pos]
    positivity
  rw [lastWin, ← hceil]
  omega

/-- **The windows of the range are those that contain the pane.** -/
theorem mem_range_windows (hsp : 1 ≤ sp) (p k : Nat) :
    k ∈ List.range' (firstWin wp sp p) (lastWin sp p + 1 - firstWin wp sp p) ↔
      InWindow wp sp k p := by
  rw [List.mem_range'_1, InWindow, ← firstWin_le_iff hsp, ← le_lastWin_iff hsp]
  omega

/-- The last window of a pane contains it. -/
theorem inWindow_lastWin (hsp : 1 ≤ sp) (hle : sp ≤ wp) (p : Nat) :
    InWindow wp sp (lastWin sp p) p := by
  refine ⟨(le_lastWin_iff hsp p _).mp le_rfl, ?_⟩
  have hnext : ¬ sp * (lastWin sp p + 1) ≤ p := by
    rw [← le_lastWin_iff hsp]
    omega
  rw [Nat.mul_add] at hnext
  omega

/-- A pane belongs to a window. -/
theorem firstWin_le_lastWin (hsp : 1 ≤ sp) (hle : sp ≤ wp) (p : Nat) :
    firstWin wp sp p ≤ lastWin sp p :=
  (firstWin_le_iff hsp p _).mpr (inWindow_lastWin hsp hle p).2

end ElasticPPQ
