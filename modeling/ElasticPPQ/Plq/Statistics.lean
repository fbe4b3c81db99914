import ElasticPPQ.Lib.Run
import ElasticPPQ.Plq.AdaptivePanes
import ElasticPPQ.Plq.OutOfOrder

/-! # The statistics of adaptive scheduling

The scheduler keeps the number, the average and the squared deviations of the partitions of the panes
that are closed. Beside it, a run records the sizes of the partitions of each pane at its closing
(`AdaptiveSched.Recorded`); the statistics are those of the record (`AdaptiveSched.statistics_exact`).
The threshold that they give is a number after the warmup exactly in the runs that do not end the
warmup before a partition is accounted (`AdaptiveSched.threshold_defined_iff`). -/

namespace ElasticPPQ

variable {N DIM : Nat}

namespace AdaptiveSched

/-- A scheduler, and the `i_sizes` of each pane at its closing, in the order of the panes. -/
structure Recorded (N : Nat) where
  sched : AdaptiveSched N
  closed : List (Fin N → Nat)

namespace Recorded

/-- Before the first call. -/
def new (N nw : Nat) : Recorded N := ⟨AdaptiveSched.new N nw, []⟩

/-- A call of the scheduler, which closes the panes below the new `next_pane_id`. -/
def exec (iop : Bool) (r : Recorded N) (e : (strategy N DIM).Call) : Except Unit (Recorded N) :=
  match (strategy N DIM).call iop r.sched e with
  | none => .error ()
  | some (s, _) => .ok ⟨s, r.closed ++
      (List.range' r.sched.nextPaneId (s.nextPaneId - r.sched.nextPaneId)).map
        fun p => (s.des p).iSizes⟩

/-- The positive entries of the record. -/
def partitions (r : Recorded N) : List Nat :=
  r.closed.flatMap fun sizes => ((List.finRange N).map sizes).filter fun n => 0 < n

/-- The same as exact numbers. -/
def sizes (r : Recorded N) : List ℚ := r.partitions.map fun n : Nat => (n : ℚ)

/-- Each closed pane is recorded once, its entries are those it has now, and the statistics are those
of the record. -/
structure Inv (DIM : Nat) (r : Recorded N) : Prop where
  settled : (refinement N DIM).Settled r.sched
  closed : r.closed = (List.range r.sched.nextPaneId).map fun p => (r.sched.des p).iSizes
  running : r.sched.running = Running.of r.sizes

/-- The strategy as constructed, with nothing recorded. -/
theorem new_inv {nw : Nat} (hpos : 0 < nw) (hle : nw ≤ N) : (new N nw).Inv DIM where
  settled := (refinement N DIM).settled_new hpos hle
  closed := rfl
  running := Running.of_nil.symm

/-- What a call leaves of the descriptors of the closed panes: everything. -/
theorem des_closed {s s' : AdaptiveSched N} {e : (strategy N DIM).Call} {out : Sends N DIM}
    (he : (strategy N DIM).Allowed s e) (heff : Effect s s' out e) {p : Nat}
    (hp : p < s.nextPaneId) : s'.des p = s.des p := by
  cases heff with
  | tuple env t w pd hto done =>
      have hle : s.nextPaneId ≤ t.paneId := he.2
      rw [done.des, if_neg (by omega)]
  | progress env ts pId done => exact done.des p
  | add ws done hout => exact done.des p
  | remove env ws done => exact done.others p (Or.inl hp)

/-- The next pane to be closed does not go back. -/
theorem nextPaneId_le {s s' : AdaptiveSched N} {e : (strategy N DIM).Call} {out : Sends N DIM}
    (heff : Effect s s' out e) : s.nextPaneId ≤ s'.nextPaneId := by
  cases heff with
  | tuple env t w pd hto done => exact done.nextPaneId.ge
  | progress env ts pId done =>
      rw [done.nextPaneId]
      exact le_max_left _ _
  | add ws done hout => exact done.nextPaneId.ge
  | remove env ws done => exact done.nextPaneId.ge

/-- The statistics follow the panes that a call closes. -/
theorem running_effect {s s' : AdaptiveSched N} {e : (strategy N DIM).Call} {out : Sends N DIM}
    (heff : Effect s s' out e) :
    s'.running = (((List.range' s.nextPaneId (s'.nextPaneId - s.nextPaneId)).flatMap
      s'.partitions).map fun n : Nat => (n : ℚ)).foldl Running.push s.running := by
  -- a call that closes no pane leaves the statistics as they are
  have hsame : ∀ {c : AdaptiveSched N}, SameStats s c → c.nextPaneId = s.nextPaneId →
      c.running = (((List.range' s.nextPaneId (c.nextPaneId - s.nextPaneId)).flatMap
        c.partitions).map fun n : Nat => (n : ℚ)).foldl Running.push s.running := by
    intro c hstats hnext
    rw [hnext, Nat.sub_self]
    exact Running.ext hstats.totInstances hstats.avgSize hstats.snSize
  -- only the progress closes panes, and it accounts for the sizes of each of their partitions
  cases heff with
  | tuple env t w pd hto done => exact hsame done.stats done.nextPaneId
  | progress env ts pId done =>
      have hlen : s'.nextPaneId - s.nextPaneId = pId - s.nextPaneId := by
        rw [done.nextPaneId]
        omega
      have hparts : ∀ p, s'.partitions p = s.partitions p := by
        intro p
        rw [AdaptiveSched.partitions, done.des]
        rfl
      rw [hlen, List.flatMap_congr fun p _ => hparts p]
      exact done.running
  | add ws done hout => exact hsame done.stats done.nextPaneId
  | remove env ws done => exact hsame done.stats done.nextPaneId

/-- **The step.** -/
theorem Inv.step {r : Recorded N} (h : r.Inv DIM) (iop : Bool) {e : (strategy N DIM).Call}
    (he : (strategy N DIM).Allowed r.sched e) : ∃ r', r.exec iop e = .ok r' ∧ r'.Inv DIM := by
  obtain ⟨s, out, hcall, hsettled, heff⟩ := call_step h.settled iop he
  have hnext : r.sched.nextPaneId ≤ s.nextPaneId := nextPaneId_le heff
  refine ⟨_, by rw [Recorded.exec, hcall], hsettled, ?_, ?_⟩
  · -- the panes closed before, and the new ones
    show r.closed ++ _ = (List.range s.nextPaneId).map fun p => (s.des p).iSizes
    rw [h.closed]
    refine map_range_append hnext fun p hp => ?_
    rw [des_closed he heff hp]
  · show s.running = _
    rw [running_effect heff, h.running, Running.foldl_push, sizes, ← List.map_append, sizes,
      Recorded.partitions, Recorded.partitions, List.flatMap_append, List.flatMap_map]
    rfl

end Recorded

/-- What the statistics are meant to be, `xs` being the sizes of the partitions accounted so far: the
mean and the sum of the squared deviations from it, so that the argument of `sqrt` is the variance. -/
structure Exact (s : AdaptiveSched N) (xs : List ℚ) : Prop where
  totInstances : s.totInstances = xs.length
  avgSize : s.avgSize = xs.sum / xs.length
  snSize : s.snSize = (xs.map fun x => (x - s.avgSize) ^ 2).sum
  nonneg : 0 ≤ s.snSize
  variance : s.snSize / s.totInstances =
    (xs.map fun x => (x - xs.sum / xs.length) ^ 2).sum / xs.length

/-- **The statistics are exact.** In every reachable state the closed panes are recorded once each, with
the entries of their closing, which they still have; and if a partition has been accounted, the
statistics are those of the positive entries of the record. -/
theorem statistics_exact {nw : Nat} (hpos : 0 < nw) (hle : nw ≤ N) (iop : Bool)
    (es : List (strategy N DIM).Call)
    (hes : Run.Valid (Recorded.exec iop) (fun r e => (strategy N DIM).Allowed r.sched e) es
      (Recorded.new N nw)) :
    ∃ r, Run.run (Recorded.exec iop) es (Recorded.new N nw) = .ok r ∧
      r.closed = ((List.range r.sched.nextPaneId).map fun p => (r.sched.des p).iSizes) ∧
      (0 < r.sched.totInstances → r.sched.Exact r.sizes) := by
  obtain ⟨r, hrun, hinv⟩ := hes.induction
    (fun r e h he => @Recorded.Inv.step N DIM _ h iop _ he) (Recorded.new_inv hpos hle)
  -- the three fields are the running mean and deviation over the sizes accounted so far
  have htot : r.sched.totInstances = r.sizes.length := congrArg Running.count hinv.running
  have havg : r.sched.avgSize = mean r.sizes := congrArg Running.avg hinv.running
  have hsn : r.sched.snSize = deviation r.sizes (mean r.sizes) := congrArg Running.sn hinv.running
  refine ⟨r, hrun, hinv.closed, fun _ => ⟨htot, havg, ?_, ?_, ?_⟩⟩
  · rw [hsn, havg]
    rfl
  · rw [hsn]
    exact deviation_nonneg r.sizes _
  · rw [hsn, htot]
    rfl

/-- Whether a recorded scheduler allows a call. -/
instance Recorded.decidableAllowed (r : Recorded N) (e : (strategy N DIM).Call) :
    Decidable ((strategy N DIM).Allowed r.sched e) :=
  Strategy.decidableAllowed (strategy N DIM) r.sched e

/-- Two panes of two and of one tuple are closed. -/
def twoPanesRun : List (strategy 2 1).Call :=
  [.schedToWorker (idleEnv 2) (tupleOf 0), .schedToWorker (idleEnv 2) (tupleOf 0),
    .schedToWorker (idleEnv 2) (tupleOf 1), .executeStreamProgress (idleEnv 2) 0 2]

/-- The average of the sizes `2` and `1` is `3 / 2`, and their variance `1 / 4`. -/
theorem statistics_exact_witness :
    ∃ r, Run.run (Recorded.exec false) twoPanesRun (Recorded.new 2 2) = .ok r ∧
      r.closed = ((List.range r.sched.nextPaneId).map fun p => (r.sched.des p).iSizes) ∧
      (0 < r.sched.totInstances → r.sched.Exact r.sizes) :=
  @statistics_exact 2 1 2 (by decide) (by decide) false twoPanesRun (by decide +kernel)

/-! ## The threshold -/

/-- After the warmup a partition has been accounted, and the threshold is a number. -/
def ThresholdDefined (s : AdaptiveSched N) : Prop :=
  s.warmup = false → 0 < s.totInstances ∧ s.stdSize ≠ none

/-- If the call is a progress that ends the warmup, a pane that it leaves closed has a partition with
tuples. -/
def EndsWarmupLate (s : AdaptiveSched N) : (strategy N DIM).Call → Prop
  | .executeStreamProgress _ _ pId =>
      s.nextPaneId ≤ pId → 5 < pId → ∃ p, p < pId ∧ s.partitions p ≠ []
  | _ => True

/-- A partition is accounted if and only if it is in a closed pane. -/
theorem Recorded.Inv.totInstances_pos {r : Recorded N} (h : r.Inv DIM) :
    0 < r.sched.totInstances ↔ ∃ p, p < r.sched.nextPaneId ∧ r.sched.partitions p ≠ [] := by
  have htot : r.sched.totInstances = r.sizes.length := congrArg Running.count h.running
  have hmem : 0 < r.sizes.length ↔ ∃ p, p < r.sched.nextPaneId ∧ r.sched.partitions p ≠ [] := by
    rw [Recorded.sizes, List.length_map, List.length_pos_iff, Recorded.partitions, h.closed,
      List.flatMap_map, Ne, List.flatMap_eq_nil_iff]
    push Not
    constructor
    · rintro ⟨p, hp, hne⟩
      exact ⟨p, List.mem_range.mp hp, hne⟩
    · rintro ⟨p, hp, hne⟩
      exact ⟨p, List.mem_range.mpr hp, hne⟩
  rw [htot, Nat.cast_pos]
  exact hmem

/-- The threshold is defined by the statistics. -/
theorem ThresholdDefined.of_stats {s s' : AdaptiveSched N} (h : s.ThresholdDefined)
    (hstats : SameStats s s') : s'.ThresholdDefined := by
  intro hwarm
  rw [hstats.warmup] at hwarm
  rw [hstats.totInstances, hstats.stdSize]
  exact h hwarm

/-- The panes that have a partition with tuples are the same after a progress. -/
theorem ProgressDone.partitions {s s' : AdaptiveSched N} {env : AdaptiveEnv N} {pId : Nat}
    {out : Sends N DIM} (h : ProgressDone env pId s s' out) (p : Nat) :
    s'.partitions p = s.partitions p := by
  rw [AdaptiveSched.partitions, h.des]
  rfl

/-- A progress that goes back changes nothing. -/
theorem ProgressDone.stats {s s' : AdaptiveSched N} {env : AdaptiveEnv N} {pId : Nat}
    {out : Sends N DIM} (h : ProgressDone env pId s s' out) (hlt : pId < s.nextPaneId) :
    SameStats s s' := by
  have hzero : pId - s.nextPaneId = 0 := by omega
  have hrun := h.running
  rw [hzero] at hrun
  refine ⟨congrArg Running.avg hrun, congrArg Running.sn hrun, ?_, congrArg Running.count hrun, ?_⟩
  · rw [h.stdSize, if_pos hlt]
  · rw [h.warmup, decide_eq_false fun hle => by omega]
    simp

/-- The step, where the warmup does not end too early. -/
theorem ThresholdDefined.step {r r' : Recorded N} (hinv : r.Inv DIM) (hinv' : r'.Inv DIM)
    (h : r.sched.ThresholdDefined) {e : (strategy N DIM).Call} {out : Sends N DIM}
    (heff : Effect r.sched r'.sched out e) (hlate : r.sched.EndsWarmupLate e) :
    r'.sched.ThresholdDefined := by
  cases heff with
  | tuple env t w pd hto done => exact h.of_stats done.stats
  | add ws done hout => exact h.of_stats done.stats
  | remove env ws done => exact h.of_stats done.stats
  | progress env ts pId done =>
      by_cases hlt : pId < r.sched.nextPaneId
      · exact h.of_stats (done.stats hlt)
      intro hwarm
      have hnext : r'.sched.nextPaneId = pId := by
        rw [done.nextPaneId]
        omega
      have hpos : 0 < r'.sched.totInstances := by
        rw [hinv'.totInstances_pos, hnext]
        have hsome : ∃ p, p < pId ∧ r.sched.partitions p ≠ [] := by
          by_cases h5 : 5 < pId
          · exact hlate (by omega) h5
          · -- the warmup had ended before
            rw [done.warmup, decide_eq_false fun hle => h5 hle.2] at hwarm
            obtain ⟨p, hp, hne⟩ := hinv.totInstances_pos.mp (h (by simpa using hwarm)).1
            exact ⟨p, by omega, hne⟩
        obtain ⟨p, hp, hne⟩ := hsome
        exact ⟨p, hp, by rwa [done.partitions]⟩
      refine ⟨hpos, ?_⟩
      rw [done.stdSize, if_neg hlt, if_neg hpos.ne']
      exact Option.some_ne_none _

/-- The step, where it does. -/
theorem not_thresholdDefined {r r' : Recorded N} (hinv' : r'.Inv DIM)
    {e : (strategy N DIM).Call} {out : Sends N DIM} (heff : Effect r.sched r'.sched out e)
    (hearly : ¬ r.sched.EndsWarmupLate e) : ¬ r'.sched.ThresholdDefined := by
  intro h
  cases heff with
  | tuple env t w pd hto done => exact hearly trivial
  | add ws done hout => exact hearly trivial
  | remove env ws done => exact hearly trivial
  | progress env ts pId done =>
      -- only a progress that ends the warmup can leave the threshold undefined
      refine hearly fun hle h5 => ?_
      have hwarm : r'.sched.warmup = false := by
        rw [done.warmup, decide_eq_true ⟨hle, h5⟩]
        simp
      obtain ⟨p, hp, hne⟩ := hinv'.totInstances_pos.mp (h hwarm).1
      rw [done.nextPaneId, max_eq_right hle] at hp
      rw [done.partitions] at hne
      exact ⟨p, hp, hne⟩

/-- **When the threshold is defined where it is used.** In the states of a run that are past the warmup
a partition has been accounted, and the threshold is a number, if and only if no progress of the run
ends the warmup before there is a partition with tuples in the panes that it leaves closed. -/
theorem threshold_defined_iff {nw : Nat} (hpos : 0 < nw) (hle : nw ≤ N) (iop : Bool)
    (es : List (strategy N DIM).Call)
    (hes : Run.Valid (Recorded.exec iop) (fun r e => (strategy N DIM).Allowed r.sched e) es
      (Recorded.new N nw)) :
    (∀ es', es' <+: es → ∃ r, Run.run (Recorded.exec iop) es' (Recorded.new N nw) = .ok r ∧
        r.sched.ThresholdDefined) ↔
      Run.Valid (Recorded.exec iop) (fun r e => r.sched.EndsWarmupLate e) es
        (Recorded.new N nw) := by
  -- every allowed call succeeds and has one of the effects
  have hexec : ∀ (r : Recorded N) (e : (strategy N DIM).Call), r.Inv DIM →
      (strategy N DIM).Allowed r.sched e →
      ∃ r' out, r.exec iop e = .ok r' ∧ r'.Inv DIM ∧ Effect r.sched r'.sched out e := by
    intro r e hinv he
    obtain ⟨r', hr', hinv'⟩ := hinv.step iop he
    obtain ⟨s, out, hcall, -, heff⟩ := call_step hinv.settled iop he
    have hs : r'.sched = s := by
      rw [Recorded.exec, hcall] at hr'
      rw [← Except.ok.inj hr']
    exact ⟨r', out, hr', hinv', hs ▸ heff⟩
  refine Run.Valid.sound_iff (P := fun r : Recorded N => r.Inv DIM ∧ r.sched.ThresholdDefined)
    (fun r h => h.2) ?_ ?_ hes ⟨Recorded.new_inv hpos hle, fun h => nomatch h⟩
  -- from a state where the threshold is defined, the next one is as well unless the warmup ends
  -- early
  · rintro r e ⟨hinv, hdef⟩ he hlate
    obtain ⟨r', out, hr', hinv', heff⟩ := hexec r e hinv he
    exact ⟨r', hr', hinv', hdef.step hinv hinv' heff hlate⟩
  · rintro r e r₁ ⟨hinv, hdef⟩ he hearly hr₁
    obtain ⟨r', out, hr', hinv', heff⟩ := hexec r e hinv he
    obtain rfl := Except.ok.inj (hr'.symm.trans hr₁)
    exact not_thresholdDefined hinv' heff hearly

instance decidableEndsWarmupLate (s : AdaptiveSched N) :
    (e : (strategy N DIM).Call) → Decidable (s.EndsWarmupLate e)
  | .executeStreamProgress _ _ pId => inferInstanceAs
      (Decidable (s.nextPaneId ≤ pId → 5 < pId → ∃ p, p < pId ∧ s.partitions p ≠ []))
  | .schedToWorker _ _ | .addWorkers _ | .removeWorkers _ _ => isTrue trivial

/-- A pane of two tuples is closed before the warmup ends. -/
def onePaneRun : List (strategy 2 1).Call :=
  [.schedToWorker (idleEnv 2) (tupleOf 0), .schedToWorker (idleEnv 2) (tupleOf 0),
    .executeStreamProgress (idleEnv 2) 0 1, .executeStreamProgress (idleEnv 2) 0 6]

/-- A run with one pane that has tuples. -/
theorem threshold_defined_iff_witness :
    Run.Valid (Recorded.exec false) (fun r e => r.sched.EndsWarmupLate e) onePaneRun
        (Recorded.new 2 2) ∧
      ∀ es', es' <+: onePaneRun → ∃ r, Run.run (Recorded.exec false) es' (Recorded.new 2 2) = .ok r ∧
        r.sched.ThresholdDefined := by
  rw [threshold_defined_iff (by decide) (by decide) false _ (by decide +kernel), and_self]
  decide +kernel

/-- The stream starts with pane 6: the panes before it are closed before its first tuple. -/
def lateStartRun : List (strategy 2 1).Call :=
  [.executeStreamProgress (idleEnv 2) 6000 6, .schedToWorker (idleEnv 2) (tupleOf 6)]

/-- The state after that run. -/
def lateStartEnd : Recorded 2 :=
  Run.result (Run.run (Recorded.exec false) lateStartRun (Recorded.new 2 2)) (by decide +kernel)

/-- The warmup is over, no partition has been accounted, and the standard deviation is not a number. -/
theorem threshold_defined_fails :
    ¬ ∀ es : List (strategy 2 1).Call,
      Run.Valid (Recorded.exec false) (fun r e => (strategy 2 1).Allowed r.sched e) es
          (Recorded.new 2 2) →
        ∀ r, Run.run (Recorded.exec false) es (Recorded.new 2 2) = .ok r →
          r.sched.ThresholdDefined := by
  intro h
  have hdef := h lateStartRun (by decide +kernel) lateStartEnd (Run.eq_ok_result _ _)
    (by decide +kernel)
  exact absurd hdef.1 (by decide +kernel)

end AdaptiveSched

end ElasticPPQ
