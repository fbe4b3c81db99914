import ElasticPPQ.Pattern.Results

/-! # The pattern with out-of-order workers

The client gets the windows in order, each final, wherever the strategy finds what it needs on the way:
pane-based round-robin always does, the other two as long as no removal touches a pane before its first
tuple. At the end no window is missing before the first one with a pane that has never been. -/

namespace ElasticPPQ

open FifoNet PlqState

variable {N DIM : Nat}

/-! ## What a strategy needs -/

namespace PlqState

/-- What the out-of-order pipeline asks of a call of the strategy: a first tuple of a pane finds it as
the strategy needs it, and no pane that is closed without tuples has a partition. -/
def CallOk {S : Strategy N DIM} (Rf : S.Refinement) (s : S.State) : PlqEvent S → Prop
  | .tuple env t => Rf.FirstOk env t.paneId s
  | .progress _ _ pId => (S.base s).NoGap pId
  | _ => True

instance decidableCallOk {S : Strategy N DIM} (Rf : S.Refinement)
    [∀ env p s, Decidable (Rf.FirstOk env p s)] (s : S.State) :
    (e : PlqEvent S) → Decidable (CallOk Rf s e)
  | .tuple env t => inferInstanceAs (Decidable (Rf.FirstOk env t.paneId s))
  | .progress _ _ pId => inferInstanceAs (Decidable ((S.base s).NoGap pId))
  | .add _ | .remove _ _ | .finish | .worker _ => isTrue trivial

/-- A condition on the calls is one on the events. -/
theorem stepOk_of_callOk {S : Strategy N DIM} {R : Type} {Rf : S.Refinement} {σ : PlqState S R}
    {e : PlqEvent S} (h : CallOk Rf σ.sched e) : σ.StepOk Rf e := by
  cases e <;> exact h

end PlqState

namespace PfState

instance decidableMeets {S : Strategy N DIM} {R : Type} (C : S.State → PlqEvent S → Prop)
    [∀ s e, Decidable (C s e)] (σ : PfState S R) : (e : PfEvent S R) → Decidable (σ.Meets C e)
  | .plq e => inferInstanceAs (Decidable (C σ.plq.sched e))
  | .arrive _ | .eos _ | .wlq _ => isTrue trivial

/-- No window is missing at the end before the first one with a pane that is neither closed nor has a
partition. -/
def OutOfOrderComplete {S : Strategy N DIM} {R : Type} (wp sp : Nat) (σ : PfState S R) : Prop :=
  ∀ k, k < σ.results.length ↔ ∀ j, j ≤ k → ∀ p, InWindow wp sp j p →
    p < σ.plq.nextPaneId ∨ σ.plq.pInstances p ≠ 0

/-- No run of the pattern with out-of-order workers aborts in which all that is asked of the strategy is
as it needs it. The client always has the skylines of the first windows, and at the termination no
window is missing. -/
def OutOfOrderResults {k : Nat} {S : Strategy N (k + 2)} (Rf : S.Refinement)
    (wp sp paneLength nwPlq nwWlq : Nat) : Prop :=
  ∀ es : List (PfEvent S (SkySet ℚ k)),
    Run.Valid (exec (oop wp sp paneLength))
      (fun σ e => σ.Enabled (oop wp sp paneLength) e ∧ σ.Meets (CallOk Rf) e) es
      (init _ _ nwPlq nwWlq) →
    ∃ σ, Run.run (exec (oop wp sp paneLength)) es (init _ _ nwPlq nwWlq) = .ok σ ∧
      σ.Skylines wp sp ∧ (σ.Terminated → OutOfOrderComplete wp sp σ)

/-- Which panes have been emitted, in terms of the stream: those closed, and those with a partition. -/
theorem outOfOrderComplete_of_complete {S : Strategy N DIM} {R : Type} [PrefQuery (Row ℚ DIM) R]
    {c : PlqParams} {Rf : S.Refinement} {σ : PfState S R} {β : PlqState S (Build (Row ℚ DIM))}
    (hβ : β.Tracked c Rf) (hplq : σ.plq = β.eval R) (h : Complete c.wp c.sp σ β) :
    OutOfOrderComplete c.wp c.sp σ := by
  intro k
  rw [h.results k, hplq]
  simp only [hβ.good.mem_emissions_iff hβ.handled.untouched h.ended h.drained]
  exact Iff.rfl

end PfState

open PfState

/-- What is known beforehand of the first stage where the strategy finds what it needs. -/
theorem Strategy.Refinement.forecast {S : Strategy N DIM} (Rf : S.Refinement)
    (wp sp paneLength : Nat) :
    Forecast (oop wp sp paneLength) (CallOk Rf) (Tracked (oop wp sp paneLength) Rf) :=
  Tracked.forecast Rf rfl (fun _ _ _ h => stepOk_of_callOk h) (fun _ => trivial) fun _ _ => trivial

/-- **Every strategy that refines the ledger yields the skylines**, in the runs where the strategy finds
what it needs. -/
theorem Strategy.Refinement.outOfOrderResults {k : Nat} {S : Strategy N (k + 2)} (Rf : S.Refinement)
    (wp sp paneLength : Nat) (hsp : 1 ≤ sp) (hle : sp ≤ wp) {nwPlq nwWlq : Nat} (hplq : 0 < nwPlq)
    (hplqN : nwPlq ≤ N) (hwlq : 0 < nwWlq) (hwlqN : nwWlq ≤ N) :
    OutOfOrderResults Rf wp sp paneLength nwPlq nwWlq := by
  intro es hes
  have hF := Rf.forecast wp sp paneLength
  obtain ⟨σ, β, D, hrun, h, hcomplete⟩ :=
    run_keptBy hF hsp hle (init_tracked _ Rf hplq hplqN) hwlq hwlqN hes
  exact ⟨σ, hrun, h.skylines hF, fun ht =>
    outOfOrderComplete_of_complete h.tracked h.plq (hcomplete ht)⟩

instance decidableFirstOkTbRr (env : (TbRrSched.strategy N DIM).Env) (p : Nat)
    (s : (TbRrSched.strategy N DIM).State) :
    Decidable ((TbRrSched.refinement N DIM).FirstOk env p s) := isTrue trivial

/-- A run with two workers: pane 0 is split, a worker of the first stage is removed, pane 0 is closed
and the stream ends in pane 1. -/
def closedPaneRun : List (PfEvent (TbRrSched.strategy 2 2) (SkySet ℚ 0)) :=
  [.plq (.tuple () (pointAt 0 1 3)), .plq (.tuple () (pointAt 0 2 4)), .plq (.remove () [0]),
    .plq (.tuple () (pointAt 1 3 1)), .plq (.progress () 0 1), .plq .finish, .plq (.worker 0),
    .plq (.worker 0), .plq (.worker 0), .plq (.worker 0), .plq (.worker 1), .plq (.worker 1),
    .plq (.worker 1), .plq (.worker 1), .arrive 0, .arrive 1, .arrive 1, .eos 0,
    .wlq (.exec 0), .wlq (.exec 1), .wlq (.feedback 0), .wlq (.exec 0), .wlq (.feedback 0),
    .wlq (.feedback 1), .wlq (.exec 1), .wlq (.feedback 1), .eos 1, .wlq (.collect 1)]

/-- The state after that run. -/
def closedPaneEnd : PfState (TbRrSched.strategy 2 2) (SkySet ℚ 0) :=
  Run.result (Run.run (exec (oop 2 1 1)) closedPaneRun (init _ _ 2 2)) (by decide +kernel)

/-- **No window is missing at the end** with pane-based round-robin, whatever the query: when the second
stage has terminated, the client has got exactly the windows before the first one with a pane that is
neither closed nor has had a tuple. -/
theorem pbRr_complete {R : Type} [PrefQuery (Row ℚ DIM) R] (wp sp paneLength : Nat) (hsp : 1 ≤ sp)
    (hle : sp ≤ wp) {nwPlq nwWlq : Nat} (hplq : 0 < nwPlq) (hplqN : nwPlq ≤ N) (hwlq : 0 < nwWlq)
    (hwlqN : nwWlq ≤ N) (es : List (PfEvent (PbRrSched.strategy N DIM) R))
    (hes : Run.Valid (exec (oop wp sp paneLength)) (Enabled (oop wp sp paneLength)) es
      (init _ R nwPlq nwWlq)) :
    ∃ σ, Run.run (exec (oop wp sp paneLength)) es (init _ R nwPlq nwWlq) = .ok σ ∧
      (σ.Terminated → ∀ k, k < σ.results.length ↔ ∀ j, j ≤ k → ∀ p, InWindow wp sp j p →
        p < σ.plq.nextPaneId ∨ ∃ t ∈ σ.plq.scheduled, t.paneId = p) := by
  have hF : Forecast (oop wp sp paneLength) (fun _ _ => True)
      (Tracked (oop wp sp paneLength) (PbRrSched.refinement N DIM)) :=
    Tracked.forecast _ rfl (fun β e h _ => stepOk_pbRr β e h) (fun _ => trivial) fun _ _ => trivial
  obtain ⟨σ, β, D, hrun, h, hcomplete⟩ := run_keptBy hF hsp hle (init_tracked _ _ hplq hplqN) hwlq
    hwlqN (hes.mono fun σ e he => ⟨he, meets_true σ e⟩)
  refine ⟨σ, hrun, fun ht k => ?_⟩
  have hgood := h.tracked.good
  -- a pane gets its first partition with its first tuple
  have hfilled : ∀ p, β.nextPaneId ≤ p →
      ((PbRrSched.strategy N DIM).base β.sched).size p = 0 → β.pInstances p = 0 := by
    intro p hp hz
    by_contra hne
    exact PbRrSched.Inv.filled hgood.inv p hp hne hz
  rw [outOfOrderComplete_of_complete h.tracked h.plq (hcomplete ht) k, h.scheduled, h.plq]
  have htouched := hgood.touched_iff h.tracked.sized hfilled
  exact forall₄_congr fun j _ p _ => htouched p

/-- A run with two workers in which pane 1 is closed without tuples and pane 2 never comes. -/
def missingPaneRun : List (PfEvent (PbRrSched.strategy 2 2) (SkySet ℚ 0)) :=
  [.plq (.tuple () (pointAt 0 1 3)), .plq (.tuple () (pointAt 3 2 4)), .plq (.progress () 0 2),
    .plq (.tuple () (pointAt 4 3 1)), .plq .finish, .plq (.worker 0), .plq (.worker 0),
    .plq (.worker 0), .plq (.worker 0), .plq (.worker 1), .plq (.worker 1), .plq (.worker 1),
    .plq (.worker 1), .arrive 0, .arrive 0, .arrive 1, .arrive 1, .eos 0, .wlq (.exec 0),
    .wlq (.exec 1), .wlq (.feedback 0), .wlq (.exec 0), .wlq (.feedback 0), .wlq (.exec 0),
    .wlq (.feedback 0), .wlq (.exec 0), .wlq (.feedback 0), .wlq (.exec 0), .wlq (.feedback 0),
    .wlq (.feedback 1), .wlq (.exec 1), .wlq (.feedback 1), .eos 1, .wlq (.collect 0),
    .wlq (.collect 1)]

/-- The state after that run. -/
def missingPaneEnd : PfState (PbRrSched.strategy 2 2) (SkySet ℚ 0) :=
  Run.result (Run.run (exec (oop 2 1 1)) missingPaneRun (init _ _ 2 2)) (by decide +kernel)

/-- Of the windows of two panes each, window 0 is the only one before the missing pane. -/
theorem pbRr_complete_witness :
    missingPaneEnd.results.map Rset.id = [0] ∧ missingPaneEnd.wlq.executed = [3, 0] ∧
      ∀ k, k < missingPaneEnd.results.length ↔ ∀ j, j ≤ k → ∀ p, InWindow 2 1 j p →
        p < missingPaneEnd.plq.nextPaneId ∨ ∃ t ∈ missingPaneEnd.plq.scheduled, t.paneId = p := by
  have htwo : 0 < 2 := by decide
  obtain ⟨σ, hrun, hcomplete⟩ := pbRr_complete (N := 2) 2 1 1 (by decide) (by decide) htwo le_rfl
    htwo le_rfl missingPaneRun (by decide +kernel)
  have hend : σ = missingPaneEnd := Except.ok.inj (hrun.symm.trans (Run.eq_ok_result _ _))
  rw [hend] at hcomplete
  exact ⟨by decide +kernel, by decide +kernel, hcomplete ⟨by decide +kernel, by decide +kernel⟩⟩

end ElasticPPQ
