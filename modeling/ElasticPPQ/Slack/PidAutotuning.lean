import ElasticPPQ.Lib.Checked
import ElasticPPQ.Lib.Loops
import Mathlib.Algebra.Order.Ring.Rat
import Mathlib.Algebra.Order.Group.Abs

/-! # Auto-tuning of the PID controller

The class `PIDAutotuning` (`pid.hpp`), which the adaptive K-slack algorithms call once in a sampling
interval. `tuning` looks for peaks: it compares the new input with the last `nLookBack` ones and
shifts them by one place. The counter of that loop runs downwards and is unsigned, so its condition
`i >= 0` always holds: after the iteration for entry `0` comes one for entry `2 ^ 64 - 1`.

Accesses to the arrays are checked. Doubles are rational numbers; the gains, which are only computed
where the auto-tuning completes, are read by no method modelled here. -/

namespace ElasticPPQ

/-- The fields of `PIDAutotuning`. -/
structure PIDAutotuning where
  /-- Whether the input is greater than the last ones. -/
  isMax : Bool
  /-- Whether the input is smaller than the last ones. -/
  isMin : Bool
  /-- Current input. -/
  input : ℚ
  /-- Current output. -/
  output : ℚ
  /-- The value around which the output oscillates. -/
  setpoint : ℚ
  /-- Noise band on the input. -/
  noiseBand : ℚ
  /-- Whether the tuning phase has started. -/
  running : Bool
  /-- Time of the last peak. -/
  peak1 : UInt64
  /-- Time of the peak before. -/
  peak2 : UInt64
  /-- Sampling time in ms. -/
  sampleTime : Int
  /-- How many inputs to look back at. -/
  nLookBack : Int
  /-- `1` after a maximum, `-1` after a minimum, `0` before the first peak. -/
  peakType : Int
  /-- The last inputs, newest first. -/
  lastInputs : Fin 101 → ℚ
  /-- The peaks. -/
  peaks : Fin 10 → ℚ
  /-- Number of peaks. -/
  peakCount : Int
  /-- Whether the type of the peaks has changed. -/
  justchanged : Bool
  /-- Whether `tuning` has evaluated the input. -/
  justevaled : Bool
  /-- Greatest input. -/
  absMax : ℚ
  /-- Smallest input. -/
  absMin : ℚ
  /-- Step of the output. -/
  oStep : ℚ
  /-- The output at the start. -/
  outputStart : ℚ
  /-- The ultimate gain. -/
  Ku : ℚ
  /-- The ultimate period. -/
  Pu : ℚ
  /-- Direction of the controller. -/
  isReversed : Bool

namespace PIDAutotuning

/-- The constructor. The fields that it does not initialize have the values in memory, `mem`. -/
def new (mem : PIDAutotuning) (setpoint : ℚ) (isReversed : Bool) : PIDAutotuning :=
  { mem with
    setpoint := setpoint, noiseBand := 0, sampleTime := 100, nLookBack := 4, running := false
    oStep := 0.15, isReversed := isReversed }

/-- `setLookbackSec`. -/
def setLookbackSec (value : Int) (s : PIDAutotuning) : PIDAutotuning :=
  let value := if value < 1 then 1 else value
  -- a sample each quarter of a second
  if value < 25 then { s with nLookBack := value * 4, sampleTime := 250 }
  else { s with nLookBack := 100, sampleTime := value * 10 }

/-- `setInput`. -/
def setInput (input : ℚ) (s : PIDAutotuning) : PIDAutotuning := { s with input := input }

/-- `finishUp`. -/
def finishUp (s : PIDAutotuning) : PIDAutotuning :=
  { s with
    output := s.outputStart
    Ku := 4 * (2 * s.oStep) / ((s.absMax - s.absMin) * 3.14159)
    Pu := (s.peak1 - s.peak2).toNat / 1000 }

/-- `tuning` up to its loop: the working variables are initialized the first time around, and the
output oscillates. -/
def oscillate (s : PIDAutotuning) : PIDAutotuning :=
  let refVal := s.input
  let s := { s with justevaled := true }
  let s :=
    -- the first call starts the oscillation, the later ones record the extremes
    if !s.running then
      { s with
        peakType := 0, peakCount := 0, justchanged := false, absMax := refVal, absMin := refVal
        setpoint := refVal, running := true, outputStart := s.output
        output := s.output + s.oStep }
    else
      { s with
        absMax := if s.absMax < refVal then refVal else s.absMax
        absMin := if refVal < s.absMin then refVal else s.absMin }
  let s :=
    -- the output is pushed against the error, in the direction of the action
    if !s.isReversed then
      if s.setpoint + s.noiseBand < refVal then { s with output := s.outputStart - s.oStep }
      else if refVal < s.setpoint - s.noiseBand then
        { s with output := s.outputStart + s.oStep }
      else s
    else if s.setpoint + s.noiseBand < refVal then { s with output := s.outputStart + s.oStep }
    else if refVal < s.setpoint - s.noiseBand then { s with output := s.outputStart - s.oStep }
    else s
  { s with isMax := true, isMin := true }

/-- The variables of the loop over the last inputs. -/
structure LookBack where
  /-- The counter, `size_t i`. -/
  i : UInt64
  isMax : Bool
  isMin : Bool
  lastInputs : Fin 101 → ℚ

/-- `i >= 0`. -/
def LookBack.cond (x : LookBack) : Bool := decide (0 ≤ x.i)

/-- The body of the loop, with `i--`. -/
def LookBack.body (refVal : ℚ) (x : LookBack) : Option LookBack := do
  let val ← fetch x.lastInputs x.i.toNat
  let isMax := if x.isMax then decide (val < refVal) else x.isMax
  let isMin := if x.isMin then decide (refVal < val) else x.isMin
  -- the input moves one place up
  let last ← fetch x.lastInputs x.i.toNat
  let lastInputs ← store x.lastInputs (x.i + 1).toNat last
  some ⟨x.i - 1, isMax, isMin, lastInputs⟩

/-- The branches for a maximum and a minimum. -/
def recordPeak (now : UInt64) (s : PIDAutotuning) : Option PIDAutotuning :=
  let refVal := s.input
  if s.isMax then do
    let s := if s.peakType = 0 then { s with peakType := 1 } else s
    let s := if s.peakType = -1 then
      { s with peakType := 1, justchanged := true, peak2 := s.peak1 } else s
    -- the maximum is stored without a test of the number of peaks
    let peaks ← store s.peaks s.peakCount refVal
    some { s with peak1 := now, peaks := peaks }
  else if s.isMin then do
    let s := if s.peakType = 0 then { s with peakType := -1 } else s
    let s := if s.peakType = 1 then
      { s with peakType := -1, peakCount := s.peakCount + 1, justchanged := true } else s
    if s.peakCount < 10 then do
      let peaks ← store s.peaks s.peakCount refVal
      some { s with peaks := peaks }
    else some s
  else some s

/-- `tuning` after its loop. -/
def evaluate (now : UInt64) (s : PIDAutotuning) : Option (Bool × PIDAutotuning) := do
  let lastInputs ← store s.lastInputs 0 s.input
  let s ← recordPeak now { s with lastInputs := lastInputs }
  if s.justchanged = true ∧ 2 < s.peakCount then do
    -- we've transitioned: check if we can autotune based on the last peaks
    let a ← fetch s.peaks (s.peakCount - 1)
    let b ← fetch s.peaks (s.peakCount - 2)
    let c ← fetch s.peaks (s.peakCount - 3)
    if (|a - b| + |b - c|) / 2 < 0.05 * (s.absMax - s.absMin) then
      some (true, { s.finishUp with running := false })
    else some (false, { s with justchanged := false })
  else some (false, { s with justchanged := false })

/-- What follows the loop, given how it has ended. -/
def afterLoop (now : UInt64) (s : PIDAutotuning) : Outcome LookBack → Outcome (Bool × PIDAutotuning)
  | .done x =>
      .after (evaluate now { s with
        isMax := x.isMax, isMin := x.isMin, lastInputs := x.lastInputs }) .done
  | .fault => .fault
  | .more _ => .more (false, s)

/-- `tuning`, its loop being run for `fuel` iterations at most; `now` is the time in ms. -/
def tuning (now : UInt64) (fuel : Nat) (s : PIDAutotuning) : Outcome (Bool × PIDAutotuning) :=
  -- after ten peaks the tuning phase ends in any case
  if (9 : Int) < s.peakCount ∧ s.running = true then
    .done (true, { s with justevaled := false, running := false }.finishUp)
  else
    let s := { s with justevaled := false }.oscillate
    s.afterLoop now (runWhile LookBack.cond (LookBack.body s.input) fuel
      ⟨UInt64.ofInt (s.nLookBack - 1), s.isMax, s.isMin, s.lastInputs⟩)

/-! ## The loop over the last inputs -/

namespace LookBack

/-- The counter before it has been decremented. -/
theorem toNat_of_succ {i : UInt64} {m : Nat} (h : (i + 1).toNat = m + 1) : i.toNat = m := by
  have hlt := i.toNat_lt
  rw [UInt64.toNat_add] at h
  simp only [UInt64.reduceToNat] at h
  omega

/-- The counter has wrapped around. -/
theorem toNat_of_wrapped {i : UInt64} (h : (i + 1).toNat = 0) : i.toNat = 2 ^ 64 - 1 := by
  have hlt := i.toNat_lt
  rw [UInt64.toNat_add] at h
  simp only [UInt64.reduceToNat] at h
  omega

/-- The condition `i >= 0` does not depend on the counter. -/
theorem cond_eq_true (x : LookBack) : cond x = true := by
  simp [cond]

/-- What the loop has done after `j` of the `n` iterations it is meant to make, with the entries `l`
at the start: the last `j` of the entries below `n` are compared and shifted by one place. -/
structure After (refVal : ℚ) (l : Fin 101 → ℚ) (n j : Nat) (x : LookBack) : Prop where
  counter : (x.i + 1).toNat = n - j
  isMax : x.isMax = true ↔ ∀ m : Fin 101, n - j ≤ m.val → m.val < n → l m < refVal
  isMin : x.isMin = true ↔ ∀ m : Fin 101, n - j ≤ m.val → m.val < n → refVal < l m
  front : ∀ m : Fin 101, m.val ≤ n - j → x.lastInputs m = l m
  back : ∀ m m' : Fin 101, m'.val = m.val + 1 → n - j ≤ m.val → m.val < n → x.lastInputs m' = l m

/-- The start of the loop. -/
theorem After.start (refVal : ℚ) (l : Fin 101 → ℚ) {n : Nat} (hn : n ≤ 100) :
    After refVal l n 0 ⟨UInt64.ofInt (n - 1), true, true, l⟩ where
  counter := by
    show (UInt64.ofInt (n - 1) + UInt64.ofInt 1).toNat = n
    rw [← UInt64.ofInt_add, Int.sub_add_cancel, UInt64.ofInt, UInt64.toNat_ofNat']
    omega
  isMax := iff_of_true rfl fun m hm hm' => by omega
  isMin := iff_of_true rfl fun m hm hm' => by omega
  front := fun _ _ => rfl
  back := fun m m' _ hm hm' => by omega

/-- A flag that one more entry is compared for. -/
theorem flag_iff {b : Bool} {q : Prop} [Decidable q] {n i : Nat} {Q : Fin 101 → Prop} (k : Fin 101)
    (hk : k.val = i) (hq : q ↔ Q k) (hi : i < n)
    (hb : b = true ↔ ∀ m : Fin 101, i + 1 ≤ m.val → m.val < n → Q m) :
    (if b then decide q else b) = true ↔ ∀ m : Fin 101, i ≤ m.val → m.val < n → Q m := by
  have hsplit : (if b then decide q else b) = true ↔ b = true ∧ q := by
    cases b <;> simp
  rw [hsplit, hb, hq]
  -- the inputs looked at so far, and the one of this iteration
  constructor
  · rintro ⟨hall, hone⟩ m hm hm'
    by_cases hmi : m = k
    · rwa [hmi]
    · have hne : m.val ≠ k.val := fun h => hmi (Fin.ext h)
      exact hall m (by omega) hm'
  · intro hall
    exact ⟨fun m hm hm' => hall m (by omega) hm', hall k (by omega) (by omega)⟩

/-- **One iteration**, inside the arrays. -/
theorem After.step {refVal : ℚ} {l : Fin 101 → ℚ} {n j : Nat} {x : LookBack} (hn : n ≤ 100)
    (hj : j < n) (h : After refVal l n j x) :
    ∃ x', body refVal x = some x' ∧ After refVal l n (j + 1) x' := by
  obtain ⟨i, hi⟩ : ∃ i, n - j = i + 1 := ⟨n - j - 1, by omega⟩
  have hcounter : x.i.toNat = i := toNat_of_succ (h.counter.trans hi)
  have hnext : n - (j + 1) = i := by omega
  obtain ⟨k, hk⟩ : ∃ k : Fin 101, k.val = i := ⟨⟨i, by omega⟩, rfl⟩
  obtain ⟨k', hk'⟩ : ∃ k' : Fin 101, k'.val = i + 1 := ⟨⟨i + 1, by omega⟩, rfl⟩
  -- the input at the counter is read, and written one place further
  have hval : fetch x.lastInputs x.i.toNat = some (l k) := by
    rw [hcounter, ← hk, fetch_eq, h.front k (by omega)]
  have hstore : store x.lastInputs (x.i + 1).toNat (l k)
      = some (Function.update x.lastInputs k' (l k)) := by
    rw [h.counter, hi, ← hk', store_eq]
  refine ⟨⟨x.i - 1, if x.isMax then decide (l k < refVal) else x.isMax,
    if x.isMin then decide (refVal < l k) else x.isMin,
    Function.update x.lastInputs k' (l k)⟩, ?_, ?_⟩
  · rw [body, hval, Option.bind_eq_bind, Option.bind_some, Option.bind_some, hstore]
    rfl
  · exact {
      counter := by
        show (x.i - 1 + 1).toNat = n - (j + 1)
        rw [UInt64.sub_add_cancel, hcounter, hnext]
      isMax := by
        rw [hnext]
        exact flag_iff (n := n) (Q := fun m => l m < refVal) k hk Iff.rfl (by omega)
          (by rw [h.isMax, hi])
      isMin := by
        rw [hnext]
        exact flag_iff (n := n) (Q := fun m => refVal < l m) k hk Iff.rfl (by omega)
          (by rw [h.isMin, hi])
      front := by
        intro m hm
        have hne : m ≠ k' := fun h => by rw [h] at hm; omega
        exact (Function.update_of_ne hne _ _).trans (h.front m (by omega))
      back := by
        -- the inputs behind the counter have been shifted by one place
        intro m m' hmm hm hm'
        show Function.update x.lastInputs k' (l k) m' = l m
        by_cases hmk : m' = k'
        · subst hmk
          rw [Function.update_self, show k = m from Fin.ext (by omega)]
        · have hne : m'.val ≠ k'.val := fun h => hmk (Fin.ext h)
          rw [Function.update_of_ne hmk]
          exact h.back m m' hmm (by omega) hm' }

/-- **The iterations that are meant.** After `n` of them, one for each entry to look back at, the
flags and the shifted entries are right; but the counter has wrapped around and the loop goes on. -/
theorem runWhile_lookBack (refVal : ℚ) (l : Fin 101 → ℚ) {n : Nat} (hn : n ≤ 100) :
    ∃ x, runWhile cond (body refVal) n ⟨UInt64.ofInt (n - 1), true, true, l⟩ = .more x ∧
      After refVal l n n x :=
  runWhile_more (After refVal l n)
    (fun j x hj hx => by
      obtain ⟨x', hbody, hx'⟩ := hx.step hn hj
      exact ⟨x', cond_eq_true x, hbody, hx'⟩)
    (fun x _ => cond_eq_true x) (After.start refVal l hn)

/-- **The loop goes wrong**: the iteration after these reads entry `2 ^ 64 - 1`. -/
theorem runWhile_lookBack_fault (refVal : ℚ) (l : Fin 101 → ℚ) {n fuel : Nat} (hn : n ≤ 100)
    (hfuel : n < fuel) :
    runWhile cond (body refVal) fuel ⟨UInt64.ofInt (n - 1), true, true, l⟩ = .fault := by
  obtain ⟨m, rfl⟩ : ∃ m, fuel = n + (m + 1) := ⟨fuel - n - 1, by omega⟩
  obtain ⟨x, hrun, hx⟩ := runWhile_lookBack refVal l hn
  have hcounter : x.i.toNat = 2 ^ 64 - 1 :=
    toNat_of_wrapped (hx.counter.trans (Nat.sub_self n))
  have hbody : body refVal x = none := by
    rw [body, hcounter, fetch_eq_none _ (Or.inr (by decide))]
    rfl
  rw [runWhile_add hrun, runWhile_fault (cond_eq_true x) hbody]

end LookBack

/-! ## The method -/

/-- An oscillation keeps the number of inputs to look back at. -/
theorem oscillate_nLookBack (s : PIDAutotuning) : s.oscillate.nLookBack = s.nLookBack := by
  unfold oscillate
  dsimp only
  split_ifs <;> rfl

/-- A call gets to the loop unless the tuning phase has just been completed. -/
theorem tuning_eq_afterLoop {s : PIDAutotuning} {n : Nat} (hn : s.nLookBack = n)
    (h : ¬ ((9 : Int) < s.peakCount ∧ s.running = true)) (now : UInt64) (fuel : Nat) :
    ∃ s₁ : PIDAutotuning, s.tuning now fuel =
      s₁.afterLoop now (runWhile LookBack.cond (LookBack.body s₁.input) fuel
        ⟨UInt64.ofInt (n - 1), true, true, s₁.lastInputs⟩) := by
  refine ⟨oscillate { s with justevaled := false }, ?_⟩
  have hback : (oscillate { s with justevaled := false }).nLookBack = n := by
    rw [oscillate_nLookBack]
    exact hn
  rw [← hback]
  exact if_neg h

/-- A call that gets to the loop accesses memory outside of `lastInputs`. -/
theorem tuning_fault {s : PIDAutotuning} (hlow : 1 ≤ s.nLookBack) (hhigh : s.nLookBack ≤ 100)
    (h : ¬ ((9 : Int) < s.peakCount ∧ s.running = true)) (now : UInt64) {fuel : Nat}
    (hfuel : s.nLookBack < fuel) : s.tuning now fuel = .fault := by
  obtain ⟨n, hn⟩ : ∃ n : Nat, s.nLookBack = n := ⟨s.nLookBack.toNat, by omega⟩
  obtain ⟨s₁, hrun⟩ := tuning_eq_afterLoop hn h now fuel
  rw [hrun, LookBack.runWhile_lookBack_fault s₁.input s₁.lastInputs (by omega) (by omega)]
  rfl

/-- Such a call never returns. -/
theorem tuning_ne_done {s : PIDAutotuning} (hlow : 1 ≤ s.nLookBack) (hhigh : s.nLookBack ≤ 100)
    (h : ¬ ((9 : Int) < s.peakCount ∧ s.running = true)) (now : UInt64) (fuel : Nat)
    (r : Bool × PIDAutotuning) : s.tuning now fuel ≠ .done r := by
  obtain ⟨n, hn⟩ : ∃ n : Nat, s.nLookBack = n := ⟨s.nLookBack.toNat, by omega⟩
  obtain ⟨s₁, hrun⟩ := tuning_eq_afterLoop hn h now fuel
  have hloop := not_done_of_fault (LookBack.runWhile_lookBack_fault s₁.input s₁.lastInputs
    (show n ≤ 100 by omega) (Nat.lt_succ_self n)) fuel
  rw [hrun]
  intro hdone
  cases hres : runWhile LookBack.cond (LookBack.body s₁.input) fuel
      ⟨UInt64.ofInt (n - 1), true, true, s₁.lastInputs⟩ with
  | done x => exact hloop x hres
  | fault => rw [hres] at hdone; cases hdone
  | more x => rw [hres] at hdone; cases hdone

/-- `setLookbackSec` sets a number of inputs that the array has room for. -/
theorem setLookbackSec_nLookBack (value : Int) (s : PIDAutotuning) :
    1 ≤ (s.setLookbackSec value).nLookBack ∧ (s.setLookbackSec value).nLookBack ≤ 100 := by
  unfold setLookbackSec
  dsimp only
  split_ifs <;> dsimp only <;> omega

/-- The states of an object with `n` inputs to look back at, after any calls of `setInput` and any
calls of `tuning` that have returned. -/
inductive Reachable (n : Int) : PIDAutotuning → Prop
  | new (mem : PIDAutotuning) (setpoint : ℚ) (isReversed : Bool) :
      Reachable n { new mem setpoint isReversed with nLookBack := n }
  | setInput {s : PIDAutotuning} (x : ℚ) : Reachable n s → Reachable n (s.setInput x)
  | tuning {s s' : PIDAutotuning} {now : UInt64} {fuel : Nat} {complete : Bool} :
      Reachable n s → s.tuning now fuel = .done (complete, s') → Reachable n s'

/-- In a reachable state the tuning phase has not started: the call that starts it never returns. -/
theorem Reachable.not_running {n : Int} (hlow : 1 ≤ n) (hhigh : n ≤ 100) {s : PIDAutotuning}
    (h : Reachable n s) : s.nLookBack = n ∧ s.running = false := by
  induction h with
  | new mem setpoint isReversed => exact ⟨rfl, rfl⟩
  | setInput x _ ih => exact ih
  | tuning _ hrun ih =>
      obtain ⟨hn, hrunning⟩ := ih
      have hnot := tuning_ne_done (by rwa [hn]) (by rwa [hn])
        (fun h => by rw [hrunning] at h; cases h.2) _ _ _ hrun
      exact hnot.elim

/-- What a call of `tuning` is meant to do: it returns, having accessed the arrays inside their
bounds, the flags tell whether the input is beyond all of the last `nLookBack` ones, and it stands in
front of these. -/
def LooksBack (now : UInt64) (s : PIDAutotuning) : Prop :=
  ∃ fuel complete s', s.tuning now fuel = .done (complete, s') ∧
    (s'.isMax = true ↔ ∀ i : Fin 101, (i.val : Int) < s.nLookBack → s.lastInputs i < s.input) ∧
    (s'.isMin = true ↔ ∀ i : Fin 101, (i.val : Int) < s.nLookBack → s.input < s.lastInputs i) ∧
    s'.lastInputs 0 = s.input ∧
    ∀ i j : Fin 101, j.val = i.val + 1 → (i.val : Int) < s.nLookBack →
      s'.lastInputs j = s.lastInputs i

/-- **`tuning` never looks back as it is meant to.** For every number of inputs to look back at, in
every reachable state and with every input it runs into memory outside of its arrays. -/
theorem not_looksBack {n : Int} (hlow : 1 ≤ n) (hhigh : n ≤ 100) {s : PIDAutotuning}
    (h : Reachable n s) (x : ℚ) (now : UInt64) :
    (∀ fuel : Nat, n < fuel → (s.setInput x).tuning now fuel = .fault) ∧
      ¬ LooksBack now (s.setInput x) := by
  obtain ⟨hn, hrunning⟩ := h.not_running hlow hhigh
  have hlow' : 1 ≤ (s.setInput x).nLookBack := by
    rw [← hn] at hlow
    exact hlow
  have hhigh' : (s.setInput x).nLookBack ≤ 100 := by
    rw [← hn] at hhigh
    exact hhigh
  -- the guard that ends the tuning is not met, as `running` is never set
  have hguard : ¬ ((9 : Int) < (s.setInput x).peakCount ∧ (s.setInput x).running = true) := by
    rintro ⟨-, hr⟩
    have hr : s.running = true := hr
    rw [hrunning] at hr
    cases hr
  refine ⟨fun fuel hfuel => ?_, ?_⟩
  · rw [← hn] at hfuel
    exact tuning_fault hlow' hhigh' hguard now hfuel
  · rintro ⟨fuel, complete, s', hdone, -⟩
    exact tuning_ne_done hlow' hhigh' hguard now fuel _ hdone

/-- Memory filled with zeros. -/
def zeroed : PIDAutotuning where
  isMax := false
  isMin := false
  input := 0
  output := 0
  setpoint := 0
  noiseBand := 0
  running := false
  peak1 := 0
  peak2 := 0
  sampleTime := 0
  nLookBack := 0
  peakType := 0
  lastInputs := fun _ => 0
  peaks := fun _ => 0
  peakCount := 0
  justchanged := false
  justevaled := false
  absMax := 0
  absMin := 0
  oStep := 0
  outputStart := 0
  Ku := 0
  Pu := 0
  isReversed := false

/-- An object that looks back at seven inputs, at its second input. -/
theorem not_looksBack_witness :
    (∀ fuel : Nat, (7 : Int) < fuel →
      (({ new zeroed 0.9 true with nLookBack := 7 } : PIDAutotuning).setInput 0.5
        |>.setInput 0.8).tuning 100 fuel = .fault) ∧
    ¬ LooksBack 100 (({ new zeroed 0.9 true with nLookBack := 7 } : PIDAutotuning).setInput 0.5
        |>.setInput 0.8) :=
  not_looksBack (by decide) (by decide) (.setInput 0.5 (.new zeroed 0.9 true)) 0.8 100

/-- The object that the adaptive K-slack algorithms create, at its first input. -/
theorem looksBack_fails : ¬ LooksBack 0 ((new zeroed 0.9 true).setInput 1) := by
  rintro ⟨fuel, complete, s', hdone, -⟩
  exact tuning_ne_done (by decide) (by decide) (by decide) 0 fuel _ hdone

/-- What `adapt` does in a sampling interval with auto-tuning: it reads the output after the call. -/
def sample (coverage : ℚ) (now : UInt64) (fuel : Nat) (s : PIDAutotuning) :
    Outcome (ℚ × Bool × PIDAutotuning) :=
  ((s.setInput coverage).tuning now fuel).map fun r => (r.2.output, r)

/-- The adaptive K-slack algorithms with auto-tuning do not get through their first sampling
interval. -/
theorem sample_new_ne_done (mem : PIDAutotuning) (setpoint coverage : ℚ) (isReversed : Bool)
    (now : UInt64) (fuel : Nat) (r : ℚ × Bool × PIDAutotuning) :
    (new mem setpoint isReversed).sample coverage now fuel ≠ .done r := by
  intro hdone
  have hne := tuning_ne_done (s := (new mem setpoint isReversed).setInput coverage)
    (show (1 : Int) ≤ 4 by decide) (show (4 : Int) ≤ 100 by decide) (fun h => by cases h.2) now fuel
  unfold sample at hdone
  cases hrun : tuning now fuel ((new mem setpoint isReversed).setInput coverage) with
  | done r' => exact hne r' hrun
  | fault => rw [hrun] at hdone; cases hdone
  | more r' => rw [hrun] at hdone; cases hdone

end PIDAutotuning

end ElasticPPQ
