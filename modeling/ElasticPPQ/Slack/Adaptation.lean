import ElasticPPQ.Slack.KSlack
import ElasticPPQ.Slack.Pid

/-! # The adaptation of the slack

`adapt` of the adaptive K-slack classes, with the PID controller that they create. The attenuation
`alpha` accumulates the outputs of the controller between `0` and `1`, and the controller is reversed:
a measured dropping probability above its target takes `alpha` down, so that the slack grows. Since the
integral of the controller cannot wind up, a deviation that lasts takes the attenuation all the way
after a number of samples that depends on the deviation only (`Steers.alpha_eq_zero`,
`Steers.alpha_eq_one`). -/

namespace ElasticPPQ

namespace PID

/-- The controller that the constructors create. -/
def forSlack (mem : PID) (dropTarget : ℚ) : PID :=
  new mem 6 0.6 0.2 (1 - dropTarget) (-1) 1 true true

/-- `adapt` without auto-tuning, up to the update of `alpha`: the output, if the sampling interval has
elapsed. -/
def adapt (elapsed : Bool) (measuredDropProb : ℚ) (pid : PID) : Option ℚ × PID :=
  if elapsed then
    let pid := pid.sample (1 - measuredDropProb)
    (some pid.getOutput, pid)
  else (none, pid)

end PID

/-- The law of the controller. -/
def slackLaw (dropTarget : ℚ) : PidLaw ℚ := ⟨1 - dropTarget, 0 - 6, 0 - 0.6, 0 - 0.2, -1, 1⟩

/-- The error of the coverage is that of the dropping probability. -/
theorem slackLaw_error (dropTarget d : ℚ) : (slackLaw dropTarget).error (1 - d) = d - dropTarget := by
  unfold PidLaw.error slackLaw
  ring

/-- The dropping probabilities are probabilities. -/
def AreProbabilities (ds : List ℚ) : Prop := ∀ d ∈ ds, 0 ≤ d ∧ d ≤ 1

/-- The controller follows the law for its target, and its inputs have been coverages. -/
structure Steers (dropTarget : ℚ) (pid : PID) : Prop where
  inAuto : pid.inAuto = true
  law : pid.law = slackLaw dropTarget
  integral : -1 ≤ pid.memory.integral ∧ pid.memory.integral ≤ 1
  previous : ∀ y ∈ pid.memory.previous, 0 ≤ y ∧ y ≤ 1

/-- The PID controller as the emitters set it up steers the dropping probability. -/
theorem forSlack_steers (mem : PID) (dropTarget : ℚ) :
    Steers dropTarget (PID.forSlack mem dropTarget) := by
  have hgains : ¬ ((6 : ℚ) < 0 ∨ (0.6 : ℚ) < 0 ∨ (0.2 : ℚ) < 0) := by norm_num
  -- the gains are stored with the other sign, as the controller is reversed
  have hnew : PID.forSlack mem dropTarget =
      ⟨1 - dropTarget, 0, -1, 0, 0, 0 - 6, 0 - 0.6, 0 - 0.2, -1, 1, true, true⟩ := by
    unfold PID.forSlack PID.new PID.setGains
    dsimp only
    rw [if_neg hgains]
    rfl
  rw [hnew]
  refine ⟨rfl, rfl, ?_, ?_⟩
  · unfold PID.memory
    norm_num
  · unfold PID.memory
    simp

/-- The attenuation and the controller after a list of samples. -/
def adaptAll : List ℚ → ℚ × PID → ℚ × PID
  | [], x => x
  | d :: ds, (alpha, pid) =>
      let pid := pid.sample (1 - d)
      adaptAll ds (attenuate alpha pid.getOutput, pid)

/-- The slack factor moves by the output, and stays between zero and one. -/
theorem attenuate_eq (alpha output : ℚ) : attenuate alpha output = clamp 0 1 (alpha + output) := by
  unfold attenuate clamp
  dsimp only
  split
  · rw [if_neg (by norm_num)]
  · rfl

variable {dropTarget : ℚ} {pid : PID}

/-- **A sample** is a step of the law, and the controller steers on. -/
theorem Steers.sample (h : Steers dropTarget pid) {d : ℚ} (hd : 0 ≤ d ∧ d ≤ 1) :
    Steers dropTarget (pid.sample (1 - d)) ∧
      (pid.sample (1 - d)).memory = (slackLaw dropTarget).next (1 - d) pid.memory ∧
      (pid.sample (1 - d)).output = (slackLaw dropTarget).output (1 - d) pid.memory := by
  -- an input of -1 would be taken for no input at all
  have hne : 1 - d ≠ -1 := by linarith [hd.2]
  obtain ⟨hauto, hlaw, hmem, hout⟩ := PID.sample_spec h.inAuto hne
  rw [h.law] at hlaw hmem hout
  refine ⟨⟨hauto, hlaw, ?_, fun y hy => ?_⟩, hmem, hout⟩
  · rw [hmem]
    have hle : (slackLaw dropTarget).lo ≤ (slackLaw dropTarget).hi := by
      show (-1 : ℚ) ≤ 1
      norm_num
    exact ⟨le_clamp hle _, clamp_le hle _⟩
  · rw [hmem] at hy
    obtain rfl := Option.mem_some.mp hy
    constructor <;> linarith [hd.1, hd.2]

/-- The samples as the law has them. -/
theorem Steers.adaptAll_eq (h : Steers dropTarget pid) {ds : List ℚ} (hds : AreProbabilities ds)
    (alpha : ℚ) : Steers dropTarget (adaptAll ds (alpha, pid)).2 ∧
      (adaptAll ds (alpha, pid)).1 =
        accumulate 0 1 ((slackLaw dropTarget).outputs (ds.map (1 - ·)) pid.memory) alpha := by
  induction ds generalizing alpha pid with
  | nil => exact ⟨h, rfl⟩
  | cons d ds ih =>
      obtain ⟨hsteers, hmem, hout⟩ := h.sample (hds d List.mem_cons_self)
      obtain ⟨hlast, halpha⟩ := ih hsteers (fun d hd => hds d (List.mem_cons_of_mem _ hd))
        (attenuate alpha (pid.sample (1 - d)).getOutput)
      have hout : (pid.sample (1 - d)).getOutput = _ := hout
      refine ⟨hlast, halpha.trans ?_⟩
      rw [hmem, attenuate_eq, hout]
      rfl

/-- Enough samples for a deviation `ε` to take the integral of the controller from one boundary to the
other, and two more. -/
def Enough (ε : ℚ) (n : Nat) : Prop := 2 ≤ ((n : ℚ) - 2) * (0.6 * ε)

/-- The last two samples are left aside. -/
theorem Enough.split {ε : ℚ} (hε : 0 < ε) {ds : List ℚ} (h : Enough ε ds.length) :
    ∃ xs ys : List ℚ, ds = xs ++ ys ∧ ys.length = 2 ∧ (1 : ℚ) ≤ -1 + xs.length • (0.6 * ε) := by
  -- samples that are enough are at least two, the last two of which lower the slack
  have htwo : 2 ≤ ds.length := by
    by_contra hlt
    have hle : (ds.length : ℚ) ≤ 1 := by
      have hle : ds.length ≤ 1 := by omega
      exact_mod_cast hle
    have hneg : ((ds.length : ℚ) - 2) * (0.6 * ε) ≤ 0 :=
      mul_nonpos_of_nonpos_of_nonneg (by linarith) (by linarith)
    unfold Enough at h
    linarith
  refine ⟨ds.take (ds.length - 2), ds.drop (ds.length - 2), (List.take_append_drop _ _).symm, ?_, ?_⟩
  · rw [List.length_drop]
    omega
  · rw [List.length_take, min_eq_left (Nat.sub_le _ _), nsmul_eq_mul, Nat.cast_sub htwo]
    unfold Enough at h
    push_cast
    linarith

/-- Coverages do not fall or rise by more than one. -/
theorem Steers.slopes (h : Steers dropTarget pid) {ds ds' : List ℚ}
    (hds : AreProbabilities (ds ++ ds')) {v : ℚ} (hv : v ∈ PidLaw.slopes (ds'.map (1 - ·))
      ((slackLaw dropTarget).after (ds.map (1 - ·)) pid.memory).previous) : -1 ≤ v ∧ v ≤ 1 := by
  have hcov : ∀ x ∈ (ds ++ ds').map (1 - ·), 0 ≤ x ∧ x ≤ (1 : ℚ) := by
    intro x hx
    obtain ⟨d, hd, rfl⟩ := List.mem_map.mp hx
    constructor <;> linarith [(hds d hd).1, (hds d hd).2]
  rw [List.map_append] at hcov
  have hprev := PidLaw.previous_after (c := slackLaw dropTarget) (D := {x | 0 ≤ x ∧ x ≤ 1})
    (fun x hx => hcov x (List.mem_append_left _ hx)) h.previous
  have hslope := PidLaw.slopes_mem (fun x hx => hcov x (List.mem_append_right _ hx)) hprev hv
  constructor <;> linarith [hslope.1, hslope.2]

/-- **Too many drops** that last take the attenuation to zero, whatever has come before. -/
theorem Steers.alpha_eq_zero (h : Steers dropTarget pid) {ε : ℚ} (hε : 0 < ε) {ds : List ℚ}
    (hds : AreProbabilities ds) (hhigh : ∀ d ∈ ds, dropTarget + ε ≤ d) (hn : Enough ε ds.length)
    {alpha : ℚ} (ha : 0 ≤ alpha ∧ alpha ≤ 1) : (adaptAll ds (alpha, pid)).1 = 0 := by
  rw [(h.adaptAll_eq hds alpha).2]
  obtain ⟨xs, ys, rfl, hys, hxs⟩ := hn.split hε
  rw [List.map_append]
  refine PidLaw.accumulate_outputs_eq_bot (c := slackLaw dropTarget) (δ := 0.6 * ε) (ρ := 0)
    (κ := 0.2) (σ := 0.8) (show (-1 : ℚ) ≤ 1 by norm_num) zero_le_one (by linarith) (by norm_num)
    (show (-1 : ℚ) ≤ -0.8 by norm_num) (show (-1 : ℚ) - 0 + 0.2 ≤ -0.8 by norm_num) ?_ ?_ ?_
    h.integral ?_ ?_ ha
  · -- the integral
    intro x hx
    rw [← List.map_append] at hx
    obtain ⟨d, hd, rfl⟩ := List.mem_map.mp hx
    rw [slackLaw_error]
    show (0 - 0.6) * (d - dropTarget) ≤ -(0.6 * ε)
    linarith [hhigh d hd]
  · -- the proportional term
    intro x hx
    obtain ⟨d, hd, rfl⟩ := List.mem_map.mp hx
    rw [slackLaw_error]
    show (0 - 6) * (d - dropTarget) ≤ -0
    linarith [hhigh d (List.mem_append_right _ hd)]
  · -- the term against the slope
    intro v hv
    have hslope := h.slopes hds hv
    show -((0 - 0.2) * v) ≤ 0.2
    linarith [hslope.2]
  · rw [List.length_map]
    exact hxs
  · rw [List.length_map, hys]
    norm_num

/-- **Too few drops** that last take the attenuation to one, whatever has come before. -/
theorem Steers.alpha_eq_one (h : Steers dropTarget pid) {ε : ℚ} (hε : 0 < ε) {ds : List ℚ}
    (hds : AreProbabilities ds) (hlow : ∀ d ∈ ds, d ≤ dropTarget - ε) (hn : Enough ε ds.length)
    {alpha : ℚ} (ha : 0 ≤ alpha ∧ alpha ≤ 1) : (adaptAll ds (alpha, pid)).1 = 1 := by
  rw [(h.adaptAll_eq hds alpha).2]
  obtain ⟨xs, ys, rfl, hys, hxs⟩ := hn.split hε
  rw [List.map_append]
  -- first the integral part goes to its limit, then the slack factor to 1
  refine PidLaw.accumulate_outputs_eq_top (c := slackLaw dropTarget) (δ := 0.6 * ε) (ρ := 0)
    (κ := 0.2) (σ := 0.8) (show (-1 : ℚ) ≤ 1 by norm_num) zero_le_one (by linarith) (by norm_num)
    (show (0.8 : ℚ) ≤ 1 by norm_num) (show (0.8 : ℚ) ≤ 1 + 0 - 0.2 by norm_num) ?_ ?_ ?_
    h.integral ?_ ?_ ha
  · intro x hx
    rw [← List.map_append] at hx
    obtain ⟨d, hd, rfl⟩ := List.mem_map.mp hx
    rw [slackLaw_error]
    show 0.6 * ε ≤ (0 - 0.6) * (d - dropTarget)
    linarith [hlow d hd]
  · intro x hx
    obtain ⟨d, hd, rfl⟩ := List.mem_map.mp hx
    rw [slackLaw_error]
    show 0 ≤ (0 - 6) * (d - dropTarget)
    linarith [hlow d (List.mem_append_right _ hd)]
  · intro v hv
    have hslope := h.slopes hds hv
    show (0 - 0.2) * v ≤ 0.2
    linarith [hslope.1]
  · rw [List.length_map]
    exact hxs
  · rw [List.length_map, hys]
    norm_num

end ElasticPPQ
