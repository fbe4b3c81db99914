import ElasticPPQ.Lib.Extended
import ElasticPPQ.Lib.Welford
import ElasticPPQ.Plq.Sched
import Mathlib.Data.Fin.VecNotation
import Mathlib.Tactic.Positivity

/-! # The utilization factors

The functions `computePLQRho` (`sched_plq.hpp`) and `computeWLQMetrics` (`wlq.hpp`), from which the
controllers learn how busy the workers of a stage are. The statistics of the workers are those that
FastFlow keeps; doubles are rational numbers, infinity or not-a-number, none of which is negative.

Whatever has been measured, the factors are numbers. A factor is zero where a divisor of it is, and
otherwise the mean of the utilization factors of the activated workers, by what has been sent to them, so
that it is not more than that of some worker (`stage_metrics`). -/

namespace ElasticPPQ

open Extended

variable {N : Nat}

/-! ## What is measured of the workers -/

/-- The statistics of the workers from the beginning of the execution. They only grow, so that what has
been done in an interval is a natural number. -/
structure WorkerStats (N : Nat) where
  /-- The ticks passed in `svc` (`getsvcticks`). -/
  svcticks : Fin N → Nat
  /-- The number of tasks processed (`getnumtask`). -/
  numtask : Fin N → Nat

/-- What the workers have done in an interval. -/
structure Load (N : Nat) where
  /-- The time passed in processing tasks (usec). -/
  timeWorking : Fin N → ℚ
  /-- The number of tasks processed. -/
  tasks : Fin N → Nat

namespace Load

/-- From the statistics now and at the beginning of the interval; a microsecond has `freq` ticks. -/
def of (freq : Nat) (stats past : WorkerStats N) : Load N where
  timeWorking := fun i => ((stats.svcticks i - past.svcticks i : Nat) : ℚ) / freq
  tasks := fun i => stats.numtask i - past.numtask i

/-- Idle time of a worker. -/
def timeIdle (interval : Nat) (l : Load N) (i : Fin N) : ℚ := max 0 (interval - l.timeWorking i)

/-- The estimated average processing time of a task. -/
def avgTs (l : Load N) : Extended ℚ := num (∑ i, l.timeWorking i) / num (∑ i, (l.tasks i : ℚ))

/-- The ideal number of tasks that a worker can process. -/
def mus (interval : Nat) (l : Load N) (i : Fin N) : Extended ℚ :=
  num (l.tasks i : ℚ) + num (l.timeIdle interval i) / l.avgTs

/-- Some worker has processed a task, and it has taken some time. -/
def Known (l : Load N) : Prop := ∑ i, (l.tasks i : ℚ) ≠ 0 ∧ ∑ i, l.timeWorking i ≠ 0

instance decidableKnown (l : Load N) : Decidable l.Known := inferInstanceAs (Decidable (_ ∧ _))

/-- The ideal number of tasks, where the processing time of a task is known. -/
def ideal (interval : Nat) (l : Load N) (i : Fin N) : ℚ :=
  l.tasks i + l.timeIdle interval i / ((∑ i, l.timeWorking i) / ∑ i, (l.tasks i : ℚ))

variable {interval : Nat} {l : Load N}

/-- Nobody has worked for a negative time. -/
theorem of_nonneg (freq : Nat) (stats past : WorkerStats N) (i : Fin N) :
    0 ≤ (of freq stats past).timeWorking i := by
  show 0 ≤ (_ : ℚ) / _
  positivity

/-- Nobody has been idle for a negative time. -/
theorem timeIdle_nonneg (i : Fin N) : 0 ≤ l.timeIdle interval i := le_max_left _ _

/-- A service rate is not negative. -/
theorem ideal_nonneg (h : ∀ i, 0 ≤ l.timeWorking i) (i : Fin N) : 0 ≤ l.ideal interval i := by
  have hidle : 0 ≤ l.timeIdle interval i := timeIdle_nonneg i
  have hwork := Finset.sum_nonneg fun i (_ : i ∈ Finset.univ) => h i
  unfold ideal
  positivity

/-- Where every load is known the service rates are those of the workers. -/
theorem mus_of_known (h : l.Known) (i : Fin N) : l.mus interval i = num (l.ideal interval i) := by
  rw [mus, avgTs, num_div_num h.1, num_div_num (div_ne_zero h.2 h.1), num_add_num]
  rfl

/-- If the processing time is not known, a worker can process nothing, or infinitely many tasks, or nobody
knows. -/
theorem mus_of_not_known (interval : Nat) (h : ¬ l.Known) (i : Fin N) :
    l.mus interval i = num 0 ∨ l.mus interval i = inf ∨ l.mus interval i = nan := by
  -- whatever is not a number makes the sum infinite or not-a-number
  have hadd : ∀ {x : ℚ} {y : Extended ℚ}, ¬ y.IsNum → num x + y = inf ∨ num x + y = nan := by
    intro x y hy
    cases y with
    | num y => exact absurd trivial hy
    | inf => exact Or.inl rfl
    | nan => exact Or.inr rfl
  unfold mus avgTs
  by_cases htasks : ∑ i, (l.tasks i : ℚ) = 0
  · have hzero : (l.tasks i : ℚ) = 0 :=
      (Finset.sum_eq_zero_iff_of_nonneg fun _ _ => Nat.cast_nonneg _).mp htasks i (Finset.mem_univ i)
    rw [htasks, hzero]
    by_cases htime : ∑ i, l.timeWorking i = 0
    · rw [htime, zero_div_zero]
      exact Or.inr (Or.inr rfl)
    · rw [num_div_zero htime]
      exact Or.inl (congrArg num (add_zero 0))
  · have htime : ∑ i, l.timeWorking i = 0 := not_not.mp fun hne => h ⟨htasks, hne⟩
    rw [htime, num_div_num htasks, zero_div]
    exact Or.inr (hadd (not_isNum_div_zero _))

end Load

/-! ## The first stage -/

/-- The activated workers. -/
def activeWorkers (activatedWorker : Fin N → Bool) : Finset (Fin N) :=
  Finset.univ.filter fun i => activatedWorker i = true

/-- The factor `rho` is zero unless it is defined, and then the mean of the factors `r` of the activated
workers with the weights `w`. It is never negative, and some activated worker is at least as busy. -/
structure BusyBy (defined : Prop) (activatedWorker : Fin N → Bool) (w r : Fin N → ℚ) (rho : ℚ) : Prop where
  undefined : ¬ defined → rho = 0
  mean : defined → rho = ∑ i ∈ activeWorkers activatedWorker, w i * r i
  nonneg : 0 ≤ rho
  busy : rho = 0 ∨ ∃ i, activatedWorker i = true ∧ rho ≤ r i

/-- The weights are the parts of what has been sent. -/
theorem BusyBy.of_parts {defined : Prop} {activatedWorker : Fin N → Bool} {x r : Fin N → ℚ} {rho : ℚ}
    (hx : ∀ i, 0 ≤ x i) (hr : ∀ i, 0 ≤ r i) (undefined : ¬ defined → rho = 0)
    (mean : defined → rho = ∑ i ∈ activeWorkers activatedWorker, x i / (∑ i, x i) * r i) :
    BusyBy defined activatedWorker (fun i => x i / ∑ i, x i) r rho := by
  have hw : ∀ i, 0 ≤ x i / ∑ i, x i := fun i =>
    div_nonneg (hx i) (Finset.sum_nonneg fun i _ => hx i)
  by_cases h : defined
  · have hmean := mean h
    refine ⟨undefined, mean, ?_, ?_⟩
    · rw [hmean]
      exact Finset.sum_nonneg fun i _ => mul_nonneg (hw i) (hr i)
    -- no worker is activated, or one of them is at least as busy as the weighted mean
    · rcases (activeWorkers activatedWorker).eq_empty_or_nonempty with hempty | hne
      · rw [hmean, hempty]
        exact Or.inl Finset.sum_empty
      · obtain ⟨i, hi, hle⟩ := exists_ge_mean hne (fun i _ => hw i)
          (sum_parts_le_one (activeWorkers activatedWorker) hx) fun i _ => hr i
        exact Or.inr ⟨i, (Finset.mem_filter.mp hi).2, hmean ▸ hle⟩
  · exact ⟨undefined, mean, (undefined h).ge, Or.inl (undefined h)⟩

/-- The counters of the monitoring snapshot (`PLQ_Snapshot`). -/
structure PlqSnapshot (N : Nat) where
  /-- Number of punctuations generated. -/
  nPunc : Nat
  /-- Numbers of tuples scheduled to the workers. -/
  tuplesToW : Fin N → Nat
  /-- The statistics of the workers when the snapshot was made (`time_ws`, `tasks_ws`). -/
  past : WorkerStats N

namespace PlqSnapshot

/-- The constructor, and `reset`. -/
def new (stats : WorkerStats N) : PlqSnapshot N := ⟨0, fun _ => 0, stats⟩

/-- The number of tuples and punctuations sent to a worker. -/
def lambdas (s : PlqSnapshot N) (i : Fin N) : ℚ := (s.tuplesToW i + s.nPunc : Nat)

/-- `computePLQRho`, for an interval in microseconds. -/
def computePLQRho (freq interval : Nat) (activatedWorker : Fin N → Bool) (stats : WorkerStats N)
    (s : PlqSnapshot N) : ℚ :=
  let lambda := ∑ i, s.lambdas i
  let mus := (Load.of freq stats s.past).mus interval
  let rho := ∑ i ∈ activeWorkers activatedWorker,
    num (s.lambdas i * s.lambdas i) / (num lambda * mus i)
  -- zero if `rho` is infinity or not-a-number
  rho.toNum

/-- No divisor is zero. -/
def Defined (freq interval : Nat) (activatedWorker : Fin N → Bool) (stats : WorkerStats N)
    (s : PlqSnapshot N) : Prop :=
  (Load.of freq stats s.past).Known ∧ ∑ i, s.lambdas i ≠ 0 ∧
    ∀ i, activatedWorker i = true → (Load.of freq stats s.past).ideal interval i ≠ 0

/-- The utilization factor of a worker. -/
def utilization (freq interval : Nat) (stats : WorkerStats N) (s : PlqSnapshot N) (i : Fin N) : ℚ :=
  s.lambdas i / (Load.of freq stats s.past).ideal interval i

variable {freq interval : Nat} {activatedWorker : Fin N → Bool} {stats : WorkerStats N} {s : PlqSnapshot N}

/-- An arrival rate is not negative. -/
theorem lambdas_nonneg (i : Fin N) : 0 ≤ s.lambdas i := Nat.cast_nonneg _

/-- The first stage is not utilized to a negative degree. -/
theorem utilization_nonneg (s : PlqSnapshot N) (freq interval : Nat) (stats : WorkerStats N) (i : Fin N) :
    0 ≤ s.utilization freq interval stats i :=
  div_nonneg (lambdas_nonneg i) (Load.ideal_nonneg (Load.of_nonneg freq stats s.past) i)

/-- Where no divisor is zero the factor is the mean of those of the activated workers. -/
theorem computePLQRho_of_defined (h : s.Defined freq interval activatedWorker stats) :
    s.computePLQRho freq interval activatedWorker stats =
      ∑ i ∈ activeWorkers activatedWorker,
        s.lambdas i / (∑ i, s.lambdas i) * s.utilization freq interval stats i := by
  obtain ⟨hknown, hlambda, hideal⟩ := h
  have hterm : ∀ i ∈ activeWorkers activatedWorker, num (s.lambdas i * s.lambdas i) /
      (num (∑ i, s.lambdas i) * (Load.of freq stats s.past).mus interval i) =
        num (s.lambdas i / (∑ i, s.lambdas i) * s.utilization freq interval stats i) := by
    intro i hi
    have hne := hideal i (Finset.mem_filter.mp hi).2
    rw [Load.mus_of_known hknown, num_mul_num, num_div_num (mul_ne_zero hlambda hne), utilization,
      div_mul_div_comm]
  rw [computePLQRho, Finset.sum_congr rfl hterm, sum_num]
  rfl

/-- Otherwise it is zero. -/
theorem computePLQRho_of_not_defined (h : ¬ s.Defined freq interval activatedWorker stats) :
    s.computePLQRho freq interval activatedWorker stats = 0 := by
  unfold computePLQRho
  dsimp only
  by_cases hknown : (Load.of freq stats s.past).Known
  · by_cases hlambda : ∑ i, s.lambdas i = 0
    · refine toNum_sum_eq_zero fun i _ => Or.inr ?_
      rw [Load.mus_of_known hknown, num_mul_num, hlambda, zero_mul]
      exact not_isNum_div_zero _
    · -- an activated worker can process nothing
      obtain ⟨i, hi, hzero⟩ : ∃ i, activatedWorker i = true ∧
          (Load.of freq stats s.past).ideal interval i = 0 := by
        by_contra hall
        push Not at hall
        exact h ⟨hknown, hlambda, hall⟩
      refine toNum_of_not_isNum fun hnum => ?_
      have hterm := (isNum_sum _ _).mp hnum i (Finset.mem_filter.mpr ⟨Finset.mem_univ i, hi⟩)
      rw [Load.mus_of_known hknown, num_mul_num, hzero, mul_zero] at hterm
      exact not_isNum_div_zero _ hterm
  · refine toNum_sum_eq_zero fun i _ => ?_
    rcases Load.mus_of_not_known interval hknown i with hmus | hmus | hmus
    · rw [hmus, num_mul_num, mul_zero]
      exact Or.inr (not_isNum_div_zero _)
    · rw [hmus]
      by_cases hlambda : ∑ i, s.lambdas i = 0
      · rw [hlambda]
        exact Or.inr id
      · have hinf : num (∑ i, s.lambdas i) * inf = (inf : Extended ℚ) := if_neg hlambda
        rw [hinf]
        exact Or.inl rfl
    · rw [hmus]
      exact Or.inr id

/-- **The utilization factor of the first stage** is a mean by the tuples and punctuations sent. -/
theorem busyBy (freq interval : Nat) (activatedWorker : Fin N → Bool) (stats : WorkerStats N)
    (s : PlqSnapshot N) :
    BusyBy (s.Defined freq interval activatedWorker stats) activatedWorker
      (fun i => s.lambdas i / ∑ i, s.lambdas i) (s.utilization freq interval stats)
      (s.computePLQRho freq interval activatedWorker stats) :=
  .of_parts lambdas_nonneg (s.utilization_nonneg freq interval stats) computePLQRho_of_not_defined
    computePLQRho_of_defined

end PlqSnapshot

/-! ## The second stage -/

/-- What the emitter of the second stage keeps for the controller. -/
structure WlqMonitor (N : Nat) where
  /-- Numbers of tasks scheduled to the workers. -/
  tasksToW : Fin N → Nat
  /-- The last statistics of the workers (`time_ws`, `tasks_ws`). -/
  past : WorkerStats N

namespace WlqMonitor

/-- The total number of tasks scheduled. -/
def totTasksScheduled (s : WlqMonitor N) : ℚ := ∑ i, (s.tasksToW i : ℚ)

/-- The probability to schedule a task to a worker. -/
def probs (s : WlqMonitor N) (i : Fin N) : Extended ℚ := num (s.tasksToW i : ℚ) / num s.totTasksScheduled

/-- `computeWLQMetrics`: the utilization factor and the idle ratio. The last statistics are saved. -/
def computeWLQMetrics (freq interval : Nat) (activatedWorker : Fin N → Bool) (nPendingtasks : Nat)
    (stats : WorkerStats N) (s : WlqMonitor N) : (ℚ × Extended ℚ) × WlqMonitor N :=
  let l := Load.of freq stats s.past
  let rho := ∑ i ∈ activeWorkers activatedWorker,
    s.probs i * ((num (s.totTasksScheduled + nPendingtasks) * s.probs i) / l.mus interval i)
  let totTimeIdle := ∑ i ∈ activeWorkers activatedWorker, l.timeIdle interval i
  let totTime := ∑ _i ∈ activeWorkers activatedWorker, (interval : ℚ)
  ((rho.toNum, num totTimeIdle / num totTime), { s with past := stats })

/-- No divisor is zero. -/
def Defined (freq interval : Nat) (activatedWorker : Fin N → Bool) (stats : WorkerStats N)
    (s : WlqMonitor N) : Prop :=
  (Load.of freq stats s.past).Known ∧ s.totTasksScheduled ≠ 0 ∧
    ∀ i, activatedWorker i = true → (Load.of freq stats s.past).ideal interval i ≠ 0

/-- The utilization factor of a worker, with its part of the pending tasks. -/
def utilization (freq interval nPendingtasks : Nat) (stats : WorkerStats N) (s : WlqMonitor N)
    (i : Fin N) : ℚ :=
  (s.totTasksScheduled + nPendingtasks) * (s.tasksToW i / s.totTasksScheduled) /
    (Load.of freq stats s.past).ideal interval i

variable {freq interval nPendingtasks : Nat} {activatedWorker : Fin N → Bool} {stats : WorkerStats N}
  {s : WlqMonitor N}

/-- The number of tasks scheduled is not negative. -/
theorem totTasksScheduled_nonneg : 0 ≤ s.totTasksScheduled :=
  Finset.sum_nonneg fun i _ => Nat.cast_nonneg (s.tasksToW i)

/-- The second stage is not utilized to a negative degree. -/
theorem utilization_nonneg (s : WlqMonitor N) (freq interval nPendingtasks : Nat) (stats : WorkerStats N)
    (i : Fin N) : 0 ≤ s.utilization freq interval nPendingtasks stats i := by
  have htot := totTasksScheduled_nonneg (s := s)
  have hideal : 0 ≤ (Load.of freq stats s.past).ideal interval i :=
    Load.ideal_nonneg (Load.of_nonneg freq stats s.past) i
  unfold utilization
  positivity

/-- Where no divisor is zero the factor is the mean of those of the activated workers. -/
theorem rho_of_defined (h : s.Defined freq interval activatedWorker stats) :
    (s.computeWLQMetrics freq interval activatedWorker nPendingtasks stats).1.1 =
      ∑ i ∈ activeWorkers activatedWorker,
        s.tasksToW i / s.totTasksScheduled * s.utilization freq interval nPendingtasks stats i := by
  obtain ⟨hknown, htot, hideal⟩ := h
  -- with all quotients defined each term is a number
  have hterm : ∀ i ∈ activeWorkers activatedWorker, s.probs i *
      ((num (s.totTasksScheduled + nPendingtasks) * s.probs i) /
        (Load.of freq stats s.past).mus interval i) =
        num (s.tasksToW i / s.totTasksScheduled * s.utilization freq interval nPendingtasks stats i) := by
    intro i hi
    rw [Load.mus_of_known hknown, probs, num_div_num htot, num_mul_num,
      num_div_num (hideal i (Finset.mem_filter.mp hi).2), num_mul_num]
    rfl
  rw [computeWLQMetrics]
  dsimp only
  rw [Finset.sum_congr rfl hterm, sum_num]
  rfl

/-- Otherwise it is zero. -/
theorem rho_of_not_defined (h : ¬ s.Defined freq interval activatedWorker stats) :
    (s.computeWLQMetrics freq interval activatedWorker nPendingtasks stats).1.1 = 0 := by
  unfold computeWLQMetrics
  dsimp only
  by_cases htot : s.totTasksScheduled = 0
  · refine toNum_sum_eq_zero fun i _ => Or.inr (not_isNum_mul ?_ _)
    have hzero : (s.tasksToW i : ℚ) = 0 :=
      (Finset.sum_eq_zero_iff_of_nonneg fun _ _ => Nat.cast_nonneg _).mp htot i (Finset.mem_univ i)
    rw [probs, hzero, htot, zero_div_zero]
    exact id
  · have hprobs : ∀ i, s.probs i = num (s.tasksToW i / s.totTasksScheduled) := fun i =>
      num_div_num htot _
    by_cases hknown : (Load.of freq stats s.past).Known
    · -- an activated worker can process nothing
      obtain ⟨i, hi, hzero⟩ : ∃ i, activatedWorker i = true ∧
          (Load.of freq stats s.past).ideal interval i = 0 := by
        by_contra hall
        push Not at hall
        exact h ⟨hknown, htot, hall⟩
      refine toNum_of_not_isNum fun hnum => ?_
      have hterm := (isNum_sum _ _).mp hnum i (Finset.mem_filter.mpr ⟨Finset.mem_univ i, hi⟩)
      rw [Load.mus_of_known hknown, hzero] at hterm
      exact not_isNum_mul (not_isNum_div_zero _) _ hterm
    · refine toNum_sum_eq_zero fun i _ => ?_
      rcases Load.mus_of_not_known interval hknown i with hmus | hmus | hmus
      · rw [hmus]
        exact Or.inr (not_isNum_mul (not_isNum_div_zero _) _)
      · rw [hmus, hprobs, num_mul_num]
        exact Or.inl (congrArg num (mul_zero _))
      · rw [hmus, hprobs]
        exact Or.inr (not_isNum_mul id _)

/-- The idle ratio of some workers is a ratio. -/
theorem idle_ratio (hinterval : 0 < interval) (hactive : ∃ i, activatedWorker i = true) :
    ∃ q, (s.computeWLQMetrics freq interval activatedWorker nPendingtasks stats).1.2 = num q ∧
      0 ≤ q ∧ q ≤ 1 := by
  obtain ⟨l, hl⟩ : ∃ l, l = Load.of freq stats s.past := ⟨_, rfl⟩
  have hidle : ∀ i, l.timeIdle interval i ≤ interval := fun i =>
    max_le (Nat.cast_nonneg _) (sub_le_self _ (hl ▸ Load.of_nonneg freq stats s.past i))
  have hpos : 0 < ∑ _i ∈ activeWorkers activatedWorker, (interval : ℚ) := by
    obtain ⟨i, hi⟩ := hactive
    exact Finset.sum_pos (fun _ _ => Nat.cast_pos.mpr hinterval)
      ⟨i, Finset.mem_filter.mpr ⟨Finset.mem_univ i, hi⟩⟩
  refine ⟨_, num_div_num hpos.ne' _, div_nonneg ?_ hpos.le, div_le_one_of_le₀ ?_ hpos.le⟩
  · exact Finset.sum_nonneg fun i _ => Load.timeIdle_nonneg i
  · exact Finset.sum_le_sum fun i _ => hl ▸ hidle i

/-- **The utilization factor of the second stage** is a mean by the tasks scheduled. -/
theorem busyBy (freq interval : Nat) (activatedWorker : Fin N → Bool) (nPendingtasks : Nat)
    (stats : WorkerStats N) (s : WlqMonitor N) :
    BusyBy (s.Defined freq interval activatedWorker stats) activatedWorker
      (fun i => s.tasksToW i / s.totTasksScheduled) (s.utilization freq interval nPendingtasks stats)
      (s.computeWLQMetrics freq interval activatedWorker nPendingtasks stats).1.1 :=
  .of_parts (fun i => Nat.cast_nonneg (s.tasksToW i))
    (s.utilization_nonneg freq interval nPendingtasks stats) rho_of_not_defined rho_of_defined

end WlqMonitor

end ElasticPPQ
