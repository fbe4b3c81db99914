import ElasticPPQ.Lib.Run
import ElasticPPQ.Plq.OutOfOrder
import ElasticPPQ.Plq.Reports
import Mathlib.Algebra.BigOperators.Ring.Finset

/-! # The splitting factor given to the controller

At every micro-step the controller takes the splitting factors of the panes completed since the last
one; at the end of a control step it averages those of the whole step. The scheduler and this part of
the controller run together (`Monitored`). No factor is lost or counted twice, and the average is a
number not below one exactly if some pane was completed during each control step
(`Monitored.splitting_iff`). -/

namespace ElasticPPQ

variable {N DIM : Nat}

namespace Sched

/-- `getMonitoredData`, as far as the splitting factors go: those of the current snapshot, which is
replaced by an empty one. -/
def getMonitoredData (s : Sched N) : List Nat × Sched N :=
  (s.cmPanesSplit, { s with cmPanesSplit := [] })

end Sched

/-- What the controller computes at the end of a control step. -/
structure ControlStep where
  /-- Splitting factors of the panes completed during the control step. -/
  completedPanesSplit : List Nat
  /-- Their average (`none` for not-a-number). -/
  plqSigma : Option ℚ
  deriving DecidableEq

/-- The average: the sum is divided by the size of the vector. -/
def plqSigma (completedPanesSplit : List Nat) : Option ℚ :=
  if completedPanesSplit.length = 0 then none
  else some (((completedPanesSplit.map fun s : Nat => (s : ℚ)).sum) / completedPanesSplit.length)

/-- The scheduler, the variables of the controller, and the control steps so far. -/
structure Monitored (S : Strategy N DIM) where
  /-- The scheduler of the PLQ stage. -/
  sched : S.State
  /-- Microseconds waited during the control step. -/
  waitedusec : Nat
  /-- Splitting factors of the panes completed during the control step. -/
  completedPanesSplit : List Nat
  /-- The control steps that have ended. -/
  steps : List ControlStep

/-- What may happen next. -/
inductive MonitorEvent (S : Strategy N DIM)
  /-- The emitter calls the scheduler. -/
  | call (e : S.Call)
  /-- A micro-step of the controller. -/
  | microStep

namespace Monitored

variable {S : Strategy N DIM}

/-- Everything as constructed. -/
def new (S : Strategy N DIM) (nw : Nat) : Monitored S := ⟨S.new nw, 0, [], []⟩

/-- The body of the loop of `Controller::svc`: a micro-step lasts `sampling` microseconds, and a control
step ends after `controlStep` of them. -/
def microStep (sampling controlStep : Nat) (m : Monitored S) : Monitored S :=
  let (splitVect, base) := (S.base m.sched).getMonitoredData
  let completedPanesSplit := m.completedPanesSplit ++ splitVect
  let waitedusec := m.waitedusec + sampling
  -- the control step ends, and another one begins
  if controlStep ≤ waitedusec then
    ⟨S.setBase base m.sched, 0, [], m.steps ++ [⟨completedPanesSplit, plqSigma completedPanesSplit⟩]⟩
  else ⟨S.setBase base m.sched, waitedusec, completedPanesSplit, m.steps⟩

/-- The effect of an event. -/
def exec (iop : Bool) (sampling controlStep : Nat) (m : Monitored S) :
    MonitorEvent S → Except Unit (Monitored S)
  | .call e =>
      match S.call iop m.sched e with
      | none => .error ()
      | some (s, _) => .ok { m with sched := s }
  | .microStep => .ok (m.microStep sampling controlStep)

/-- When an event may happen. -/
def Enabled (m : Monitored S) : MonitorEvent S → Prop
  | .call e => S.Allowed m.sched e
  | .microStep => True

instance decidableEnabled (m : Monitored S) : (e : MonitorEvent S) → Decidable (m.Enabled e)
  | .call e => Strategy.decidableAllowed S m.sched e
  | .microStep => isTrue trivial

/-- The splitting factors that have been reported, in order: those of the control steps that have ended,
of the current one, and of the current snapshot. -/
def reported (m : Monitored S) : List Nat :=
  m.steps.flatMap ControlStep.completedPanesSplit ++ m.completedPanesSplit ++
    (S.base m.sched).cmPanesSplit

/-- Each completed pane is reported once, with its number of partitions; a control step that ends takes
all the panes completed until then; and each control step was given an average that is a number not below
one. -/
structure WellSplit (sampling controlStep : Nat) (m : Monitored S) : Prop where
  once : m.reported =
    (List.range (S.base m.sched).nextPaneId).map (S.base m.sched).instances
  ended : controlStep ≤ m.waitedusec + sampling →
    (m.microStep sampling controlStep).steps.flatMap ControlStep.completedPanesSplit =
      (List.range (S.base m.sched).nextPaneId).map (S.base m.sched).instances
  defined : ∀ x ∈ m.steps, ∃ σ, x.plqSigma = some σ ∧ 1 ≤ σ

/-- A control step that ends here has completed panes. -/
def SomePane (sampling controlStep : Nat) (m : Monitored S) : MonitorEvent S → Prop
  | .call _ => True
  | .microStep => controlStep ≤ m.waitedusec + sampling →
      m.completedPanesSplit ≠ [] ∨ (S.base m.sched).cmPanesSplit ≠ []

instance decidableSomePane (sampling controlStep : Nat) (m : Monitored S) :
    (e : MonitorEvent S) → Decidable (m.SomePane sampling controlStep e)
  | .call _ => isTrue trivial
  | .microStep => inferInstanceAs (Decidable (controlStep ≤ m.waitedusec + sampling →
      m.completedPanesSplit ≠ [] ∨ (S.base m.sched).cmPanesSplit ≠ []))

/-! ## The average -/

/-- A sum of positive numbers is not less than how many they are. -/
theorem length_le_sum {l : List Nat} (h : ∀ n ∈ l, n ≠ 0) : l.length ≤ l.sum := by
  induction l with
  | nil => exact le_rfl
  | cons n l ih =>
      have hn := Nat.one_le_iff_ne_zero.mpr (h n List.mem_cons_self)
      have hl := ih fun m hm => h m (List.mem_cons_of_mem n hm)
      rw [List.length_cons, List.sum_cons]
      omega

/-- The average of positive numbers. -/
theorem plqSigma_ge {l : List Nat} (hne : l ≠ []) (h : ∀ n ∈ l, n ≠ 0) :
    ∃ σ, plqSigma l = some σ ∧ 1 ≤ σ := by
  have hlen : l.length ≠ 0 := fun hz => hne (List.length_eq_zero_iff.mp hz)
  refine ⟨_, if_neg hlen, ?_⟩
  have hpos : (0 : ℚ) < l.length := Nat.cast_pos.mpr (Nat.pos_of_ne_zero hlen)
  have hsum : ((l.map fun s : Nat => (s : ℚ)).sum) = (l.sum : ℚ) := (Nat.cast_list_sum l).symm
  rw [hsum, le_div_iff₀ hpos, one_mul, Nat.cast_le]
  exact length_le_sum h

/-! ## A run -/

/-- What every run keeps of the scheduler and of the reports. -/
structure Inv (Rf : S.Refinement) (m : Monitored S) : Prop where
  settled : Rf.Settled m.sched
  once : m.reported =
    (List.range (S.base m.sched).nextPaneId).map (S.base m.sched).instances
  positive : ∀ p, p < (S.base m.sched).nextPaneId → (S.base m.sched).instances p ≠ 0

variable {Rf : S.Refinement}

/-- The monitored stage as constructed. -/
theorem new_inv {nw : Nat} (hpos : 0 < nw) (hle : nw ≤ N) : (new S nw).Inv Rf := by
  have hbase : S.base (new S nw).sched = Sched.new N nw := Rf.base_new nw
  refine ⟨Rf.settled_new hpos hle, ?_, fun p hp => ?_⟩
  · rw [reported, hbase]
    rfl
  · rw [hbase] at hp
    exact absurd hp (Nat.not_lt_zero p)

/-- What has been reported is positive. -/
theorem Inv.reported_pos {m : Monitored S} (h : m.Inv Rf) : ∀ n ∈ m.reported, n ≠ 0 := by
  intro n hn
  rw [h.once] at hn
  obtain ⟨p, hp, rfl⟩ := List.mem_map.mp hn
  exact h.positive p (List.mem_range.mp hp)

/-- A call. -/
theorem Inv.call (hr : Strategy.Reporting Rf) {m : Monitored S} (h : m.Inv Rf) (iop : Bool)
    {e : S.Call} (he : S.Allowed m.sched e) :
    ∃ s out, S.call iop m.sched e = some (s, out) ∧ Inv Rf { m with sched := s } := by
  obtain ⟨s, out, hcall, hsettled⟩ := h.settled.call iop he
  have hrep := hr.call h.settled he hcall
  refine ⟨s, out, hcall, hsettled, ?_, fun p hp => ?_⟩
  -- what has been reported before, and the panes that this call completes
  · have hold := h.once
    rw [reported] at hold
    show m.steps.flatMap ControlStep.completedPanesSplit ++ m.completedPanesSplit ++
      (S.base s).cmPanesSplit = (List.range (S.base s).nextPaneId).map (S.base s).instances
    rw [hrep.cmPanesSplit, ← List.append_assoc, hold]
    exact map_range_append hrep.nextPaneId fun p hp => (hrep.instances p hp).symm
  · show (S.base s).instances p ≠ 0
    have hp : p < (S.base s).nextPaneId := hp
    -- a pane completed before keeps its number; one completed now has a partition
    by_cases hlt : p < (S.base m.sched).nextPaneId
    · rw [hrep.instances p hlt]
      exact h.positive p hlt
    · exact hrep.positive p (Nat.not_lt.mp hlt) hp

/-- A micro-step moves the factors of the snapshot on. -/
theorem reported_microStep (Rf : S.Refinement) (sampling controlStep : Nat) (m : Monitored S) :
    (m.microStep sampling controlStep).reported = m.reported := by
  unfold microStep
  dsimp only [Sched.getMonitoredData]
  split
  · rw [reported, Rf.base_setBase, reported, List.flatMap_append, List.flatMap_singleton,
      List.append_nil, List.append_nil, List.append_assoc]
  · rw [reported, Rf.base_setBase, reported, List.append_nil]
    exact (List.append_assoc _ _ _).symm

/-- A reading of the monitored data empties the list of panes split, and changes nothing else. -/
theorem base_microStep (sampling controlStep : Nat) (m : Monitored S) :
    (m.microStep sampling controlStep).sched =
      S.setBase { S.base m.sched with cmPanesSplit := [] } m.sched := by
  unfold microStep
  dsimp only [Sched.getMonitoredData]
  split <;> rfl

/-- A reading of the monitored data keeps the invariant of the strategy. -/
theorem Inv.microStep {m : Monitored S} (h : m.Inv Rf) (sampling controlStep : Nat) :
    (m.microStep sampling controlStep).Inv Rf := by
  obtain ⟨b, hb⟩ : ∃ b : Sched N, b = { S.base m.sched with cmPanesSplit := [] } := ⟨_, rfl⟩
  have hsched : (m.microStep sampling controlStep).sched = S.setBase b m.sched := by
    rw [hb]
    exact base_microStep sampling controlStep m
  have hbase : S.base (m.microStep sampling controlStep).sched = b := by
    rw [hsched, Rf.base_setBase]
  -- only the list of panes split is emptied: the strategy, the panes reported and their numbers
  -- stay
  refine ⟨?_, ?_, ?_⟩
  · rw [hsched]
    refine ⟨?_, ?_, fun p hp w hw => ?_⟩
    · refine Rf.inv_setBase h.settled.inv ?_ ?_ ?_ <;> rw [hb]
    · rw [Rf.base_setBase, hb]
      exact h.settled.hasActive
    · have hp : (S.base (S.setBase b m.sched)).nextPaneId ≤ p := hp
      have hw : w ∈ (Rf.held (S.setBase b m.sched) p).toFinset := hw
      rw [Rf.base_setBase, hb] at hp
      rw [Rf.held_setBase] at hw
      show (S.base (S.setBase b m.sched)).activatedWorker w = true
      rw [Rf.base_setBase, hb]
      exact h.settled.heldActive p hp w hw
  · rw [reported_microStep Rf, h.once, hbase, hb]
  · rw [hbase, hb]
    exact h.positive

/-- The control steps after a micro-step. -/
theorem steps_microStep (sampling controlStep : Nat) (m : Monitored S) :
    (m.microStep sampling controlStep).steps =
      if controlStep ≤ m.waitedusec + sampling then
        m.steps ++ [⟨m.completedPanesSplit ++ (S.base m.sched).cmPanesSplit,
          plqSigma (m.completedPanesSplit ++ (S.base m.sched).cmPanesSplit)⟩]
      else m.steps := by
  unfold microStep
  dsimp only [Sched.getMonitoredData]
  split <;> rfl

/-- What a run keeps, with the averages that are defined so far. -/
theorem Inv.wellSplit {m : Monitored S} (h : m.Inv Rf) (sampling controlStep : Nat)
    (hdef : ∀ x ∈ m.steps, ∃ σ, x.plqSigma = some σ ∧ 1 ≤ σ) :
    m.WellSplit sampling controlStep := by
  refine ⟨h.once, fun hend => ?_, hdef⟩
  rw [steps_microStep, if_pos hend, List.flatMap_append, List.flatMap_singleton, ← h.once,
    reported, List.append_assoc]

/-- A control step that ends with completed panes. -/
theorem Inv.defined_microStep {m : Monitored S} (h : m.Inv Rf) {sampling controlStep : Nat}
    (hdef : ∀ x ∈ m.steps, ∃ σ, x.plqSigma = some σ ∧ 1 ≤ σ)
    (hsome : m.SomePane sampling controlStep .microStep) :
    ∀ x ∈ (m.microStep sampling controlStep).steps, ∃ σ, x.plqSigma = some σ ∧ 1 ≤ σ := by
  rw [steps_microStep]
  -- either the reading ends the control step, or it is one of several within it
  by_cases hend : controlStep ≤ m.waitedusec + sampling
  · rw [if_pos hend]
    intro x hx
    rcases List.mem_append.mp hx with hx | hx
    · exact hdef x hx
    rw [List.mem_singleton.mp hx]
    refine plqSigma_ge ?_ fun n hn => h.reported_pos n ?_
    · intro hnil
      obtain ⟨h₁, h₂⟩ := List.append_eq_nil_iff.mp hnil
      exact (hsome hend).elim (fun hne => hne h₁) fun hne => hne h₂
    · rw [reported, List.append_assoc]
      exact List.mem_append_right _ hn
  · rw [if_neg hend]
    exact hdef

/-- **When the splitting factor is an average.** The states of a run of the scheduler and the controller
are as they should if and only if some pane is completed during each control step that ends. -/
theorem splitting_iff (hr : Strategy.Reporting Rf) {nw : Nat} (hpos : 0 < nw) (hle : nw ≤ N)
    (iop : Bool) (sampling controlStep : Nat) (es : List (MonitorEvent S))
    (hes : Run.Valid (exec iop sampling controlStep) Enabled es (new S nw)) :
    (∀ es', es' <+: es → ∃ m, Run.run (exec iop sampling controlStep) es' (new S nw) = .ok m ∧
        m.WellSplit sampling controlStep) ↔
      Run.Valid (exec iop sampling controlStep) (SomePane sampling controlStep) es (new S nw) := by
  refine Run.Valid.sound_iff (P := fun m : Monitored S =>
    m.Inv Rf ∧ ∀ x ∈ m.steps, ∃ σ, x.plqSigma = some σ ∧ 1 ≤ σ)
    (fun m h => h.1.wellSplit sampling controlStep h.2) ?_ ?_ hes
    ⟨new_inv hpos hle, fun x hx => absurd hx List.not_mem_nil⟩
  · rintro m e ⟨hinv, hdef⟩ he hsome
    cases e with
    | call e =>
        obtain ⟨s, out, hcall, hinv'⟩ := hinv.call hr iop he
        exact ⟨_, by rw [exec, hcall], hinv', hdef⟩
    | microStep =>
        exact ⟨_, rfl, hinv.microStep sampling controlStep, hinv.defined_microStep hdef hsome⟩
  · rintro m e m' ⟨hinv, hdef⟩ he hnone hexec hgood
    cases e with
    | call e => exact hnone trivial
    | microStep =>
        obtain rfl := Except.ok.inj hexec
        -- the average of the last control step has no summands
        refine hnone fun hend => ?_
        by_contra hno
        push Not at hno
        have hmem := steps_microStep sampling controlStep m
        rw [if_pos hend, hno.1, hno.2] at hmem
        obtain ⟨σ, hσ, -⟩ := hgood.defined ⟨[], plqSigma []⟩ (by rw [hmem]; simp)
        exact nomatch hσ

/-- The property for one strategy and one pair of intervals. -/
def SplitsWell (S : Strategy N DIM) (nw : Nat) (iop : Bool) (sampling controlStep : Nat) : Prop :=
  ∀ es, Run.Valid (exec iop sampling controlStep) Enabled es (new S nw) →
    ((∀ es', es' <+: es → ∃ m, Run.run (exec iop sampling controlStep) es' (new S nw) = .ok m ∧
        m.WellSplit sampling controlStep) ↔
      Run.Valid (exec iop sampling controlStep) (SomePane sampling controlStep) es (new S nw))

end Monitored

open Monitored

/-- **The splitting factor of every strategy.** -/
theorem plq_sigma_defined_iff {nw : Nat} (hpos : 0 < nw) (hle : nw ≤ N) (iop : Bool)
    (sampling controlStep : Nat) :
    SplitsWell (PbRrSched.strategy N DIM) nw iop sampling controlStep ∧
      SplitsWell (TbRrSched.strategy N DIM) nw iop sampling controlStep ∧
      SplitsWell (AdaptiveSched.strategy N DIM) nw iop sampling controlStep :=
  ⟨fun es hes => splitting_iff PbRrSched.reporting hpos hle iop sampling controlStep es hes,
    fun es hes => splitting_iff TbRrSched.reporting hpos hle iop sampling controlStep es hes,
    fun es hes => splitting_iff AdaptiveSched.reporting hpos hle iop sampling controlStep es hes⟩

/-- A pane of two partitions and one without tuples are completed in the first control step. -/
def busyRun : List (MonitorEvent (TbRrSched.strategy 2 1)) :=
  [.call (.schedToWorker () (tupleOf 0)), .call (.schedToWorker () (tupleOf 0)), .microStep,
    .call (.executeStreamProgress () 0 2), .microStep]

/-- A run with a pane split over two workers, completed in the control step that ends it. -/
theorem plq_sigma_defined_iff_witness :
    Run.Valid (exec false 1 2) (SomePane 1 2) busyRun (new _ 2) ∧
      ∀ es', es' <+: busyRun → ∃ m, Run.run (exec false 1 2) es' (new _ 2) = .ok m ∧
        m.WellSplit 1 2 := by
  rw [(plq_sigma_defined_iff (by decide) (by decide) false 1 2).2.1 busyRun (by decide +kernel),
    and_self]
  decide +kernel

/-- An idle stream: the ten micro-steps of a control step, and no pane. -/
def idleRun : List (MonitorEvent (PbRrSched.strategy 2 1)) := List.replicate 10 .microStep

/-- The state after that run. -/
def idleEnd : Monitored (PbRrSched.strategy 2 1) :=
  Run.result (Run.run (exec false 250000 2500000) idleRun (new _ 2)) (by decide +kernel)

/-- The average of an idle control step is not a number. -/
theorem plq_sigma_defined_fails :
    ¬ ∀ es : List (MonitorEvent (PbRrSched.strategy 2 1)),
      Run.Valid (exec false 250000 2500000) Enabled es (new _ 2) →
        ∀ m, Run.run (exec false 250000 2500000) es (new _ 2) = .ok m →
          ∀ x ∈ m.steps, ∃ σ, x.plqSigma = some σ ∧ 1 ≤ σ := by
  intro h
  have hall := h idleRun (by decide +kernel) idleEnd (Run.eq_ok_result _ _)
  have hstep : idleEnd.steps = [⟨[], none⟩] := by decide +kernel
  obtain ⟨σ, hσ, -⟩ := hall ⟨[], none⟩ (by rw [hstep]; exact List.mem_singleton_self _)
  exact nomatch hσ

end ElasticPPQ
