import ElasticPPQ.Wlq.Windows

/-! # Windows, panes and timestamps

The constructor of the pattern (`PF`, `pane_farming.hpp`) turns the length and the slide of the
windows, in milliseconds, into a length of the panes and into numbers of panes. Three places then
speak about the same windows: a timestamp lies in a window, its pane is one of the panes of the
window, and the window is in the range that the second stage computes for the pane. They agree for
every window and every timestamp. -/

namespace ElasticPPQ

/-- The loop of the local function `gcd` of the constructor. -/
def gcd (u v : Nat) : Nat :=
  if h : v = 0 then u
  else
    have : u % v < v := Nat.mod_lt u (Nat.pos_of_ne_zero h)
    gcd v (u % v)
termination_by v

/-- The loop computes the greatest common divisor. -/
theorem gcd_eq (u v : Nat) : gcd u v = Nat.gcd u v := by
  induction v using Nat.strong_induction_on generalizing u with
  | _ v ih =>
      rw [gcd]
      by_cases hv : v = 0
      · rw [dif_pos hv, hv, Nat.gcd_zero_right]
      · rw [dif_neg hv, ih (u % v) (Nat.mod_lt u (Nat.pos_of_ne_zero hv)) v, Nat.gcd_comm u v,
          Nat.gcd_rec v u, Nat.gcd_comm]

/-- What the constructor computes. -/
structure PaneFarming where
  /-- Length of a pane (milliseconds). -/
  paneLen : Nat
  /-- Panes per window. -/
  wp : Nat
  /-- Panes per slide. -/
  sp : Nat

namespace PaneFarming

/-- The constructor, for windows of `wlen` milliseconds that slide by `wslide`; `none` where the
program exits. -/
def new (wlen wslide : Nat) : Option PaneFarming :=
  if wlen < wslide then none
  else some ⟨gcd wlen wslide, wlen / gcd wlen wslide, wslide / gcd wlen wslide⟩

/-- The constructor succeeds, and the window and its slide are whole numbers of panes. -/
theorem new_spec {wlen wslide : Nat} (hslide : 1 ≤ wslide) (hlen : wslide ≤ wlen) :
    ∃ pf, new wlen wslide = some pf ∧ 1 ≤ pf.paneLen ∧ pf.wp * pf.paneLen = wlen ∧
      pf.sp * pf.paneLen = wslide ∧ 1 ≤ pf.sp ∧ pf.sp ≤ pf.wp := by
  have hpos : 0 < Nat.gcd wlen wslide := Nat.gcd_pos_of_pos_right _ hslide
  -- the pane length is the greatest common divisor of window and slide
  refine ⟨_, if_neg (Nat.not_lt.mpr hlen), ?_, ?_, ?_, ?_, ?_⟩
  · show 1 ≤ gcd wlen wslide
    rw [gcd_eq]
    exact hpos
  · show wlen / gcd wlen wslide * gcd wlen wslide = wlen
    rw [gcd_eq]
    exact Nat.div_mul_cancel (Nat.gcd_dvd_left _ _)
  · show wslide / gcd wlen wslide * gcd wlen wslide = wslide
    rw [gcd_eq]
    exact Nat.div_mul_cancel (Nat.gcd_dvd_right _ _)
  · show 1 ≤ wslide / gcd wlen wslide
    rw [gcd_eq]
    exact Nat.div_pos (Nat.gcd_le_right _ hslide) hpos
  · show wslide / gcd wlen wslide ≤ wlen / gcd wlen wslide
    exact Nat.div_le_div_right hlen

/-- A timestamp is not before the beginning of pane `n` if and only if its pane is not before `n`. -/
theorem le_paneOf_iff {paneLen : Nat} (hlen : 1 ≤ paneLen) {ts : ℚ} (hts : 0 ≤ ts) (n : Nat) :
    n ≤ Tuple.paneOf paneLen ts ↔ ((1000 * (n * paneLen) : Nat) : ℚ) ≤ ts := by
  have hpos : (0 : ℚ) < ((paneLen * 1000 : Nat) : ℚ) := by
    exact_mod_cast Nat.mul_pos hlen (by decide)
  have hcast : (n : ℚ) * ((paneLen * 1000 : Nat) : ℚ) = ((1000 * (n * paneLen) : Nat) : ℚ) := by
    push_cast
    ring
  rw [Tuple.paneOf, Nat.le_floor_iff (div_nonneg hts hpos.le), le_div_iff₀ hpos, hcast]

/-- **A timestamp lies in a window** if and only if its pane is one of the panes of the window. -/
theorem inWindow_paneOf {wlen wslide : Nat} {pf : PaneFarming} (hlen : 1 ≤ pf.paneLen)
    (hwp : pf.wp * pf.paneLen = wlen) (hsp : pf.sp * pf.paneLen = wslide) (k : Nat) {ts : ℚ}
    (hts : 0 ≤ ts) :
    InWindow pf.wp pf.sp k (Tuple.paneOf pf.paneLen ts) ↔
      ((1000 * (k * wslide) : Nat) : ℚ) ≤ ts ∧ ts < ((1000 * (k * wslide + wlen) : Nat) : ℚ) := by
  have hstart : pf.sp * k * pf.paneLen = k * wslide := by
    rw [← hsp]
    ring
  have hend : (pf.sp * k + pf.wp) * pf.paneLen = k * wslide + wlen := by
    rw [Nat.add_mul, hstart, hwp]
  rw [InWindow, ← Nat.not_le, le_paneOf_iff hlen hts, le_paneOf_iff hlen hts, hstart, hend, not_le]

/-- Where the last pane of a window begins. -/
theorem start_lastPane {wlen wslide : Nat} {pf : PaneFarming} (hwp : pf.wp * pf.paneLen = wlen)
    (hsp : pf.sp * pf.paneLen = wslide) (hone : 1 ≤ pf.wp) (k : Nat) :
    (pf.sp * k + (pf.wp - 1)) * pf.paneLen = k * wslide + wlen - pf.paneLen := by
  obtain ⟨m, hm⟩ := Nat.exists_eq_add_of_le' hone
  have hend : k * (pf.sp * pf.paneLen) + (m + 1) * pf.paneLen =
      (pf.sp * k + m) * pf.paneLen + pf.paneLen := by ring
  rw [← hwp, ← hsp, hm, hend, Nat.add_sub_cancel, Nat.add_sub_cancel]

/-- The three views of window `k` agree on a timestamp, and nothing underflows on the way: neither in
the bounds of the range of windows, which is not empty, nor in the last pane of the window. -/
structure Decomposed (wlen wslide k : Nat) (ts : ℚ) (pf : PaneFarming) (paneId : Nat) : Prop where
  panes : ((1000 * (k * wslide) : Nat) : ℚ) ≤ ts ∧ ts < ((1000 * (k * wslide + wlen) : Nat) : ℚ) ↔
    pf.sp * k ≤ paneId ∧ paneId ≤ pf.sp * k + pf.wp - 1
  windows : pf.sp * k ≤ paneId ∧ paneId ≤ pf.sp * k + pf.wp - 1 ↔
    firstWin pf.wp pf.sp paneId ≤ k ∧ k ≤ lastWin pf.sp paneId
  nonempty : firstWin pf.wp pf.sp paneId ≤ lastWin pf.sp paneId
  first : ¬ paneId < pf.wp → pf.wp ≤ paneId + 1
  last : 1 ≤ ⌈((paneId + 1 : Nat) : ℚ) / pf.sp⌉₊
  wp : 1 ≤ pf.wp

/-- **Pane decomposition of time windows.** -/
theorem pane_decomposition {DIM wlen wslide : Nat} (hslide : 1 ≤ wslide) (hlen : wslide ≤ wlen)
    (k : Nat) (row : Row ℚ DIM) (hts : 0 ≤ row.appTs) :
    ∃ pf, new wlen wslide = some pf ∧
      Decomposed wlen wslide k row.appTs pf (Tuple.createRegular row pf.paneLen).paneId := by
  obtain ⟨pf, hpf, hpane, hwp, hsp, hone, hle⟩ := new_spec hslide hlen
  obtain ⟨p, hp⟩ : ∃ p, p = (Tuple.createRegular row pf.paneLen).paneId := ⟨_, rfl⟩
  have hpaneOf : p = Tuple.paneOf pf.paneLen row.appTs := hp
  have hin : pf.sp * k ≤ p ∧ p ≤ pf.sp * k + pf.wp - 1 ↔ InWindow pf.wp pf.sp k p := by
    rw [InWindow]
    omega
  refine ⟨pf, hpf, ?_⟩
  rw [← hp]
  -- membership of the window, the range of windows, and the number of panes of a window
  refine ⟨?_, ?_, firstWin_le_lastWin hone hle p, fun h => by omega, ?_, hone.trans hle⟩
  · rw [hin, hpaneOf]
    exact (inWindow_paneOf hpane hwp hsp k hts).symm
  · rw [hin, InWindow, firstWin_le_iff hone, le_lastWin_iff hone]
    exact and_comm
  · have hpos : (0 : ℚ) < pf.sp := by exact_mod_cast hone
    rw [Nat.one_le_ceil_iff]
    positivity

/-- Windows of 3 ms that slide by 2 ms, and a timestamp in the middle of window 1. -/
theorem pane_decomposition_witness :
    ∃ pf, new 3 2 = some pf ∧ Decomposed 3 2 1 3500 pf
      (Tuple.createRegular (⟨fun _ => 0, 3500, 0⟩ : Row ℚ 1) pf.paneLen).paneId :=
  pane_decomposition (by decide) (by decide) 1 ⟨fun _ => 0, 3500, 0⟩ (by norm_num)

end PaneFarming

end ElasticPPQ
