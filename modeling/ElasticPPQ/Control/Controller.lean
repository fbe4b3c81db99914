import ElasticPPQ.Control.ResourcePool
import ElasticPPQ.Lib.Replica

/-! # The controller

The class `Controller` (`controller.hpp`) and the translation of the outputs of the fuzzy engine into
parallelism degrees (`FuzzyStrategy::evaluate`). The engine itself is a library: its two outputs, the
variations of the degrees, are inputs of a control step. The monitored data that it reads, the log and
the statistics are left out, and doubles are rational numbers. -/

namespace ElasticPPQ

/-- The types of reconfiguration messages (`type_reconf_t`). -/
inductive TypeReconf
  | add
  | remove
  | noreconf
  deriving DecidableEq

/-- A reconfiguration message (`Reconf_t`). -/
structure Reconf (N : Nat) where
  /-- Type of the reconfiguration. -/
  type : TypeReconf
  /-- Workers involved. -/
  wIds : List (Fin N)

namespace FuzzyStrategy

/-- `round` of the C library, for a number that is not negative. -/
def round (x : ℚ) : Nat := ⌊x + 1 / 2⌋₊

/-- The new parallelism degree of a stage with `nw` workers: the special cases of very small degrees
come after the rounding. -/
def degree (nw : Nat) (var : ℚ) : Nat :=
  let new := round (nw * var)
  let new := if nw = 1 ∧ 1.250 ≤ var then 2 else new
  let new := if nw = 2 ∧ 0.563 ≤ var ∧ var < 1.250 then 2 else new
  let new := if nw = 3 ∧ 0.793 ≤ var ∧ var < 1.17 then 3 else new
  if new < 1 then 1 else new

/-- `evaluate`, given the variations: the degrees are reduced if there are not enough resources. -/
def evaluate (N : Nat) (plqVar wlqVar : ℚ) (nwPlq nwWlq : Nat) : Nat × Nat :=
  let first := degree nwPlq plqVar
  let second := degree nwWlq wlqVar
  if N < first + second then
    let reductionFactor : ℚ := N / (first + second : Nat)
    let first := round (reductionFactor * first)
    let second := round (reductionFactor * second)
    if N < first + second then (first - 1, second) else (first, second)
  else (first, second)

/-- A degree is rounded to one at least. -/
theorem round_pos {x : ℚ} (h : 1 / 2 ≤ x) : 1 ≤ round x := by
  apply Nat.le_floor
  push_cast
  linarith

/-- Rounding adds one half at most. -/
theorem round_le {x : ℚ} (h : 0 ≤ x) : (round x : ℚ) ≤ x + 1 / 2 :=
  Nat.floor_le (by linarith)

/-- No stage is asked to have no workers. -/
theorem degree_pos (nw : Nat) (var : ℚ) : 1 ≤ degree nw var := by
  unfold degree
  dsimp only
  split_ifs <;> omega

/-- A degree grows by half of it at most, up to rounding. -/
theorem degree_le {nw : Nat} (hnw : 1 ≤ nw) {var : ℚ} (hvar : 1 / 2 ≤ var ∧ var ≤ 3 / 2) :
    2 * degree nw var ≤ 3 * nw + 1 := by
  have hround : 2 * round (nw * var) ≤ 3 * nw + 1 := by
    have hnonneg : (0 : ℚ) ≤ nw := Nat.cast_nonneg nw
    have hle := round_le (x := nw * var) (mul_nonneg hnonneg (by linarith))
    have hmul := mul_le_mul_of_nonneg_left hvar.2 hnonneg
    have : (2 * round (nw * var) : ℚ) ≤ 3 * nw + 1 := by linarith
    exact_mod_cast this
  unfold degree
  dsimp only
  split_ifs <;> omega

/-- The degrees that are reduced: both stages are left with workers, even after the correction of the
first degree. -/
theorem reduced_pos {N a b : Nat} (ha : 1 ≤ a) (hb : 1 ≤ b) (hab : a + b ≤ 2 * N)
    (hbN : b + 1 < 2 * N) :
    1 ≤ round (N / (a + b : Nat) * a) ∧ 1 ≤ round (N / (a + b : Nat) * b) ∧
      (N < round (N / (a + b : Nat) * a) + round (N / (a + b : Nat) * b) →
        2 ≤ round (N / (a + b : Nat) * a)) := by
  obtain ⟨f, hf⟩ : ∃ f : ℚ, f = N / (a + b : Nat) := ⟨_, rfl⟩
  have hapos : (1 : ℚ) ≤ a := by exact_mod_cast ha
  have hbpos : (1 : ℚ) ≤ b := by exact_mod_cast hb
  have hsum : f * a + f * b = N := by
    rw [hf, Nat.cast_add]
    field_simp
  -- the factor is one half at least
  have hhalf : 1 / 2 ≤ f := by
    have hab' : ((a + b : Nat) : ℚ) ≤ 2 * N := by exact_mod_cast hab
    rw [hf, le_div_iff₀ (by rw [Nat.cast_add]; linarith)]
    linarith
  have hfa : 1 / 2 ≤ f * a := hhalf.trans (le_mul_of_one_le_right (by linarith) hapos)
  have hfb : 1 / 2 ≤ f * b := hhalf.trans (le_mul_of_one_le_right (by linarith) hbpos)
  rw [← hf]
  refine ⟨round_pos hfa, round_pos hfb, fun hlt => ?_⟩
  by_contra hno
  -- otherwise all the resources go to the second stage, so the first one asks for half a resource
  have hN : N ≤ round (f * b) := by omega
  have hfb' := round_le (x := f * b) (by linarith)
  have hNle : (N : ℚ) ≤ round (f * b) := by exact_mod_cast hN
  have hhalf' : f * a ≤ 1 / 2 := by linarith
  have hfle : f ≤ 1 / 2 := (le_mul_of_one_le_right (by linarith) hapos).trans hhalf'
  have hfeq : f = 1 / 2 := le_antisymm hfle hhalf
  have ha1 : (a : ℚ) ≤ 1 := by
    rw [hfeq] at hhalf'
    linarith
  have hbN' : (b : ℚ) + 1 < 2 * N := by exact_mod_cast hbN
  rw [hfeq] at hsum
  linarith

/-- **The strategy leaves workers to both stages.** -/
theorem evaluate_pos {N nwPlq nwWlq : Nat} (hN : 2 ≤ N) (hplq : 1 ≤ nwPlq) (hwlq : 1 ≤ nwWlq)
    (hle : nwPlq + nwWlq ≤ N) {plqVar wlqVar : ℚ} (hp : 1 / 2 ≤ plqVar ∧ plqVar ≤ 3 / 2)
    (hw : 1 / 2 ≤ wlqVar ∧ wlqVar ≤ 3 / 2) :
    1 ≤ (evaluate N plqVar wlqVar nwPlq nwWlq).1 ∧ 1 ≤ (evaluate N plqVar wlqVar nwPlq nwWlq).2 := by
  have ha := degree_pos nwPlq plqVar
  have hb := degree_pos nwWlq wlqVar
  have ha' := degree_le hplq hp
  have hb' := degree_le hwlq hw
  obtain ⟨hfirst, hsecond, hcorrected⟩ := reduced_pos (N := N) ha hb (by omega) (by omega)
  unfold evaluate
  dsimp only
  -- the sum is too large, and still is after the reduction, or it is not
  split_ifs with hmore hstill
  · have := hcorrected hstill
    refine ⟨?_, hsecond⟩
    show 1 ≤ round _ - 1
    omega
  · exact ⟨hfirst, hsecond⟩
  · exact ⟨ha, hb⟩

/-- Two shares of the resources add up to one resource too many at most, once they are rounded. -/
theorem reduced_le {N a b : Nat} (hab : 1 ≤ a + b) :
    round (N / (a + b : Nat) * a) + round (N / (a + b : Nat) * b) ≤ N + 1 := by
  have hpos : (0 : ℚ) < (a + b : Nat) := by exact_mod_cast hab
  obtain ⟨f, hf⟩ : ∃ f : ℚ, f = N / (a + b : Nat) := ⟨_, rfl⟩
  have hnonneg : 0 ≤ f := by
    rw [hf]
    exact div_nonneg (Nat.cast_nonneg N) hpos.le
  -- before rounding the two degrees share the resources exactly
  have hsum : f * a + f * b = N := by
    rw [← mul_add, ← Nat.cast_add, hf]
    exact div_mul_cancel₀ _ hpos.ne'
  rw [← hf]
  have ha := round_le (mul_nonneg hnonneg (Nat.cast_nonneg a))
  have hb := round_le (mul_nonneg hnonneg (Nat.cast_nonneg b))
  have : ((round (f * a) + round (f * b) : Nat) : ℚ) ≤ (N + 1 : Nat) := by
    push_cast
    linarith
  exact_mod_cast this

/-- **The adaptation strategy neither over-commits nor empties a stage.** -/
theorem evaluate_bounds {N nwPlq nwWlq : Nat} (hN : 2 ≤ N) (hplq : 1 ≤ nwPlq) (hwlq : 1 ≤ nwWlq)
    (hle : nwPlq + nwWlq ≤ N) {plqVar wlqVar : ℚ} (hp : 1 / 2 ≤ plqVar ∧ plqVar ≤ 3 / 2)
    (hw : 1 / 2 ≤ wlqVar ∧ wlqVar ≤ 3 / 2) :
    1 ≤ (evaluate N plqVar wlqVar nwPlq nwWlq).1 ∧ 1 ≤ (evaluate N plqVar wlqVar nwPlq nwWlq).2 ∧
      (evaluate N plqVar wlqVar nwPlq nwWlq).1 + (evaluate N plqVar wlqVar nwPlq nwWlq).2 ≤ N := by
  obtain ⟨hfirst, hsecond⟩ := evaluate_pos hN hplq hwlq hle hp hw
  refine ⟨hfirst, hsecond, ?_⟩
  have ha := degree_pos nwPlq plqVar
  have hone := reduced_le (N := N) (a := degree nwPlq plqVar) (b := degree nwWlq wlqVar) (by omega)
  unfold evaluate at hfirst ⊢
  dsimp only at hfirst ⊢
  split_ifs with hmore hstill
  · -- the reduced degrees exceed the resources by one, and the first one is corrected
    rw [if_pos hmore, if_pos hstill] at hfirst
    have hpos : 1 ≤ round (N / (degree nwPlq plqVar + degree nwWlq wlqVar : Nat) *
        degree nwPlq plqVar) - 1 := hfirst
    show round _ - 1 + round _ ≤ N
    omega
  · exact Nat.not_lt.mp hstill
  · exact Nat.not_lt.mp hmore

/-- Five workers for two stages that both ask for three: exact halves on both sides. -/
theorem evaluate_bounds_witness :
    evaluate 5 (3 / 2) (3 / 2) 2 2 = (2, 3) ∧
      1 ≤ (evaluate 5 (3 / 2) (3 / 2) 2 2).1 ∧ 1 ≤ (evaluate 5 (3 / 2) (3 / 2) 2 2).2 ∧
      (evaluate 5 (3 / 2) (3 / 2) 2 2).1 + (evaluate 5 (3 / 2) (3 / 2) 2 2).2 ≤ 5 :=
  ⟨by decide +kernel, evaluate_bounds (by decide) (by decide) (by decide) (by decide)
    (by norm_num) (by norm_num)⟩

end FuzzyStrategy

/-- The state of the controller. -/
structure Controller (N : Nat) where
  /-- Parallelism degree of the PLQ. -/
  nwPlq : Nat
  /-- Parallelism degree of the WLQ. -/
  nwWlq : Nat
  /-- The resource pool. -/
  rPool : ResourcePool N

/-- What a control step reads: the outputs of the fuzzy engine, and the lengths of the input queues of
the workers in each scan of the pool for the PLQ and for the WLQ. -/
structure ControlEnv (N : Nat) where
  /-- Variation of the degree of the PLQ. -/
  plqVar : ℚ
  /-- Variation of the degree of the WLQ. -/
  wlqVar : ℚ
  /-- Queue lengths of the PLQ workers. -/
  plqLens : Nat → Fin N → Nat
  /-- Queue lengths of the WLQ workers. -/
  wlqLens : Nat → Fin N → Nat

namespace Reconf

variable {N : Nat}

/-- The parallelism degree after a reconfiguration. -/
def degree (m : Reconf N) (nw : Nat) : Nat :=
  match m.type with
  | .add => nw + m.wIds.length
  | .remove => nw - m.wIds.length
  | .noreconf => nw

/-- Which messages are sent to the emitter. -/
def sent (m : Reconf N) : List (Reconf N) :=
  match m.type with
  | .add => [m]
  | .remove => [m]
  | .noreconf => []

/-- What an emitter that receives a message does with its vector `activatedWorker`, by `addWorkers` or
`removeWorkers`. -/
def handle (active : Fin N → Bool) (m : Reconf N) : Option (Fin N → Bool) :=
  match m.type with
  | .add => Sched.activate m.wIds active
  | .remove => Sched.deactivate m.wIds active
  | .noreconf => none

end Reconf

namespace Controller

variable {N : Nat}

/-- The constructor. -/
def new (N nwPlq nwWlq : Nat) : Controller N where
  nwPlq := nwPlq
  nwWlq := nwWlq
  rPool := .new N nwPlq nwWlq

/-- The part of `get_reconfs_from_strategy` about one stage: `o` has degree `nw` and should have degree
`new`. -/
def reconf (o : Owner) (new nw : Nat) (qlens : Nat → Fin N → Nat) (p : ResourcePool N) :
    Option (Reconf N × ResourcePool N) :=
  if new = nw then some (⟨.noreconf, []⟩, p)
  else if new < nw then
    (p.releaseResources o (nw - new) qlens).map fun x => (⟨.remove, x.2⟩, x.1)
  else
    -- the pool may have fewer workers than asked for
    let (p, wIds) := p.acquireResources (new - nw) o
    if wIds.length = 0 then some (⟨.noreconf, []⟩, p) else some (⟨.add, wIds⟩, p)

/-- `get_reconfs_from_strategy`: all the workers of the PLQ are removed once its emitter is
terminated. -/
def getReconfsFromStrategy (terminated : Bool) (env : ControlEnv N) (c : Controller N) :
    Option ((Reconf N × Reconf N) × ResourcePool N) := do
  let (first, second) := FuzzyStrategy.evaluate N env.plqVar env.wlqVar c.nwPlq c.nwWlq
  -- the first stage keeps no worker after the end of the stream
  let first := if terminated then 0 else first
  let (plqReconf, p) ← reconf .plq first c.nwPlq env.plqLens c.rPool
  let (wlqReconf, p) ← reconf .wlq second c.nwWlq env.wlqLens p
  some ((plqReconf, wlqReconf), p)

/-- A control step of `svc`: the new state, and the messages for the PLQ and for the WLQ emitter. -/
def svc (terminated : Bool) (env : ControlEnv N) (c : Controller N) :
    Option (Controller N × List (Reconf N) × List (Reconf N)) := do
  let ((plqReconf, wlqReconf), p) ← c.getReconfsFromStrategy terminated env
  some (⟨plqReconf.degree c.nwPlq, wlqReconf.degree c.nwWlq, p⟩, plqReconf.sent, wlqReconf.sent)

end Controller

end ElasticPPQ
