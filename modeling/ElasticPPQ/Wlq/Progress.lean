import ElasticPPQ.Wlq.Activation
import ElasticPPQ.Wlq.Finalization

/-! # Does the second stage get stuck?

Tasks are scheduled when a results set arrives and when a worker that is still activated sends its
feedback. If the last task in flight comes back from a worker that has been de-activated in the
meantime, and no results set is to arrive any more, nothing schedules what is pending. Unless that
happens the stage terminates once all the end-of-stream messages have come; if it happens the stage
never does. -/

namespace ElasticPPQ

open Channels WlqEmitter

variable {N : Nat} {τ R : Type} [PrefQuery τ R]

namespace WlqState

/-- With all the end-of-stream messages received and no task in flight nothing is pending, and the
end of the stream has been broadcast. -/
def NotStuck (σ : WlqState N R) : Prop :=
  σ.emitter.eosReceived = N → σ.inFlight = 0 →
    σ.emitter.nPendingtasks = 0 ∧ σ.emitter.wlqTerminated = true

/-- The last task in flight does not come back from a de-activated worker while something is pending
and no results set is to arrive any more. -/
def LastFeedbackOk (plan : Multiset Nat) (σ : WlqState N R) : WlqEvent N R → Prop
  | .feedback w => σ.inFlight.card = 1 → σ.emitter.activatedWorker w = false →
      σ.emitter.nPendingtasks = 0 ∨ (σ.deliveredIds : Multiset Nat) ≠ plan
  | _ => True

omit [PrefQuery τ R] in
instance decidableLastFeedbackOk (plan : Multiset Nat) (σ : WlqState N R) :
    (e : WlqEvent N R) → Decidable (LastFeedbackOk plan σ e)
  | .feedback w => inferInstanceAs (Decidable (σ.inFlight.card = 1 →
      σ.emitter.activatedWorker w = false →
        σ.emitter.nPendingtasks = 0 ∨ (σ.deliveredIds : Multiset Nat) ≠ plan))
  | .arrive _ | .exec _ | .eos | .add _ | .remove _ | .collect _ => isTrue trivial

/-- What keeps the stage going: a worker is activated, and if something is pending then a task is in flight
or a results set is to arrive. -/
structure Going (plan : Multiset Nat) (σ : WlqState N R) : Prop where
  hasActive : ∃ w, σ.emitter.activatedWorker w = true
  pending : σ.emitter.nPendingtasks ≠ 0 → σ.inFlight ≠ 0 ∨ (σ.deliveredIds : Multiset Nat) ≠ plan
  arrived : σ.emitter.eosReceived = N → (σ.deliveredIds : Multiset Nat) = plan
  terminated : σ.emitter.eosReceived = N → σ.emitter.nPendingtasks = 0 → σ.inFlight = 0 →
    σ.emitter.wlqTerminated = true

variable {c : WlqParams} {plan : Multiset Nat} {σ σ' : WlqState N R}

/-- A stage that keeps going is not stuck. -/
theorem Going.notStuck (h : Going plan σ) : NotStuck σ := by
  intro heos hzero
  have hpend : σ.emitter.nPendingtasks = 0 := by
    by_contra hne
    rcases h.pending hne with hflight | hplan
    · exact hflight hzero
    · exact hplan (h.arrived heos)
  exact ⟨hpend, h.terminated heos hpend hzero⟩

/-- The stage as constructed, with an activated worker. -/
theorem going_init (plan : Multiset Nat) {nw : Nat} (hpos : 0 < nw) (hnw : nw ≤ N) :
    Going plan (init N R nw) where
  hasActive := ⟨⟨N - 1, by omega⟩, decide_eq_true (by show N - nw ≤ N - 1; omega)⟩
  pending := fun h => absurd rfl h
  arrived := fun h => absurd h (Nat.ne_of_lt (hpos.trans_le hnw))
  terminated := fun h => absurd h (Nat.ne_of_lt (hpos.trans_le hnw))

/-- With no task in flight all the workers are ready. -/
theorem Inv.nReadyWorkers (h : σ.Inv c plan) (hzero : σ.inFlight = 0) :
    σ.emitter.nReadyWorkers = N := by
  rw [h.comm.nReady, Finset.filter_true_of_mem fun w _ => h.comm.ready_of_contents hzero w,
    Finset.card_univ, Fintype.card_fin]

/-- The check for termination succeeds when it should. -/
theorem Inv.terminated_of_check (h : σ.Inv c plan) {s : WlqEmitter N}
    (hs : Checked s σ.emitter) (heos : σ.emitter.eosReceived = N)
    (hpend : σ.emitter.nPendingtasks = 0) (hzero : σ.inFlight = 0) :
    σ.emitter.wlqTerminated = true := by
  have hterm : σ.emitter.terminates = true := decide_eq_true ⟨heos, hpend, h.nReadyWorkers hzero⟩
  rw [hs.wlqTerminated, ← hs.terminates, hterm, Bool.or_true]

/-- **One event.** -/
theorem Going.step (hg : Going plan σ) (h : σ.Inv c plan) (hsp : 1 ≤ c.sp) (hle : c.sp ≤ c.wp)
    {e : WlqEvent N R} (he : σ.Possible plan e) (hleaves : σ.LeavesWorker e)
    (hok : LastFeedbackOk plan σ e) :
    ∃ σ', exec c σ e = .ok σ' ∧ σ'.Inv c plan ∧ Going plan σ' := by
  have hactive : ∀ {σ' : WlqState N R}, exec c σ e = .ok σ' →
      ∃ w, σ'.emitter.activatedWorker w = true := hasActive_exec hg.hasActive he hleaves
  -- events that touch neither the tasks nor the end of the stream
  have hcongr : ∀ {σ' : WlqState N R}, exec c σ e = .ok σ' → σ'.inFlight = σ.inFlight →
      σ'.delivered = σ.delivered →
      σ'.emitter.eosReceived = σ.emitter.eosReceived →
      σ'.emitter.nPendingtasks = σ.emitter.nPendingtasks →
      σ'.emitter.wlqTerminated = σ.emitter.wlqTerminated → Going plan σ' := by
    intro σ' hrun hflight hdel heos hpend hterm
    refine ⟨hactive hrun, ?_, ?_, ?_⟩
    · rw [hpend, hflight, deliveredIds, hdel]
      exact hg.pending
    · rw [heos, deliveredIds, hdel]
      exact hg.arrived
    · rw [heos, hpend, hflight, hterm]
      exact hg.terminated
  cases e with
  | arrive r =>
      obtain ⟨σ', hrun, hinv, hflight, heos, -⟩ := h.arrive hsp hle he
      have hlt : σ'.emitter.eosReceived ≠ N := by
        rw [heos]
        exact Nat.ne_of_lt he.1
      exact ⟨σ', hrun, hinv, hactive hrun, fun _ => Or.inl (hflight hg.hasActive),
        fun h => absurd h hlt, fun h => absurd h hlt⟩
  | exec w =>
      obtain ⟨σ', hrun, hinv, hcard, hemit, hdel⟩ := h.exec he
      have hzero : σ'.inFlight = 0 ↔ σ.inFlight = 0 := by
        rw [← Multiset.card_eq_zero, hcard, Multiset.card_eq_zero]
      refine ⟨σ', hrun, hinv, hactive hrun, ?_, ?_, ?_⟩
      · rw [hemit, Ne, Ne, hzero, deliveredIds, hdel]
        exact hg.pending
      · rw [hemit, deliveredIds, hdel]
        exact hg.arrived
      · rw [hemit, hzero]
        exact hg.terminated
  | feedback w =>
      obtain ⟨σ', s, hrun, hinv, hs, heos, hdel, hpend, hcard, hact, -⟩ := h.feedback he
      refine ⟨σ', hrun, hinv, hactive hrun, fun hne => ?_, ?_, hinv.terminated_of_check hs⟩
      · -- only the last feedback in flight may leave the emitter with nothing to wait for
        by_cases hone : σ.inFlight.card = 1
        · cases hw : σ.emitter.activatedWorker w with
          | true => exact Or.inl (hact hw hne)
          | false =>
              -- the worker of the last feedback has been removed
              rcases hok hone hw with hz | hplan
              · omega
              · rw [deliveredIds, hdel]
                exact Or.inr hplan
        · exact Or.inl (hcard hone)
      · rw [heos, deliveredIds, hdel]
        exact hg.arrived
  | eos =>
      obtain ⟨σ', s, hrun, hinv, hs, hflight, hdel, heos, hpend, -⟩ := h.eos
      refine ⟨σ', hrun, hinv, hactive hrun, ?_, ?_, hinv.terminated_of_check hs⟩
      · rw [hpend, hflight, deliveredIds, hdel]
        exact hg.pending
      · rw [heos, deliveredIds, hdel]
        exact he.2
  | add ws =>
      obtain ⟨σ', hrun, hinv, hsame⟩ := h.add he
      exact ⟨σ', hrun, hinv, hcongr hrun hsame.inFlight hsame.delivered hsame.eosReceived
        hsame.nPendingtasks hsame.wlqTerminated⟩
  | remove ws =>
      obtain ⟨σ', hrun, hinv, hsame⟩ := h.remove he
      exact ⟨σ', hrun, hinv, hcongr hrun hsame.inFlight hsame.delivered hsame.eosReceived
        hsame.nPendingtasks hsame.wlqTerminated⟩
  | collect w =>
      obtain ⟨σ', hrun, hinv, hflight, hdel, hemit⟩ := h.collect he
      exact ⟨σ', hrun, hinv, hcongr hrun hflight hdel (by rw [hemit]) (by rw [hemit])
        (by rw [hemit])⟩

/-! ## Stuck for ever -/

/-- Something is pending, nothing is in flight and nothing is to arrive. -/
structure Lost (plan : Multiset Nat) (σ : WlqState N R) : Prop where
  pending : σ.emitter.nPendingtasks ≠ 0
  inFlight : σ.inFlight = 0
  arrived : (σ.deliveredIds : Multiset Nat) = plan

/-- An event that violates the condition leads there. -/
theorem Inv.lost (h : σ.Inv c plan) {e : WlqEvent N R} (he : σ.Possible plan e)
    (hno : ¬ LastFeedbackOk plan σ e) :
    ∃ σ', WlqState.exec c σ e = .ok σ' ∧ σ'.Inv c plan ∧ Lost plan σ' := by
  cases e with
  | feedback w =>
      -- the last feedback comes from a de-activated worker while sets are pending
      have hall : σ.inFlight.card = 1 ∧ σ.emitter.activatedWorker w = false ∧
          σ.emitter.nPendingtasks ≠ 0 ∧ (σ.deliveredIds : Multiset Nat) = plan := by
        simpa only [LastFeedbackOk, Classical.not_imp, not_or, ne_eq, not_not] using hno
      obtain ⟨hone, hact, hpend, hplan⟩ := hall
      obtain ⟨σ', s, hrun, hinv, -, -, hdel, -, -, -, hdeact, -⟩ := h.feedback he
      obtain ⟨hcard, hsame⟩ := hdeact hact
      refine ⟨σ', hrun, hinv, hsame ▸ hpend, Multiset.card_eq_zero.mp (by omega), ?_⟩
      rw [deliveredIds, hdel]
      exact hplan
  | arrive r => exact absurd trivial hno
  | exec w => exact absurd trivial hno
  | eos => exact absurd trivial hno
  | add ws => exact absurd trivial hno
  | remove ws => exact absurd trivial hno
  | collect w => exact absurd trivial hno

/-- No event leads out again. -/
theorem Lost.step (hl : Lost plan σ) (h : σ.Inv c plan) {e : WlqEvent N R} (he : σ.Possible plan e) :
    ∃ σ', exec c σ e = .ok σ' ∧ σ'.Inv c plan ∧ Lost plan σ' := by
  -- nothing is in flight, so no worker has a task and no feedback is on its way
  have hempty : ∀ {q : Fin N → List WTask} {w : Fin N}, contents q ≤ σ.inFlight → q w = [] := by
    intro q w hq
    rw [hl.inFlight, Multiset.le_zero] at hq
    rw [List.eq_nil_iff_forall_not_mem]
    intro t ht
    exact Multiset.notMem_zero t (hq ▸ mem_contents.mpr ⟨w, ht⟩)
  have hcongr : ∀ {σ' : WlqState N R}, σ'.emitter.nPendingtasks = σ.emitter.nPendingtasks →
      σ'.inFlight = σ.inFlight → σ'.delivered = σ.delivered → Lost plan σ' := by
    intro σ' hpend hflight hdel
    refine ⟨hpend ▸ hl.pending, hflight.trans hl.inFlight, ?_⟩
    rw [deliveredIds, hdel]
    exact hl.arrived
  cases e with
  | arrive r =>
      -- all the sets of the plan have arrived already
      obtain ⟨-, hlt, -⟩ := he
      rw [← hl.arrived, Multiset.coe_count] at hlt
      exact absurd hlt (lt_irrefl _)
  | exec w => exact absurd (hempty (Multiset.le_add_right _ _)) he
  | feedback w => exact absurd (hempty (Multiset.le_add_left _ _)) he
  | eos =>
      obtain ⟨σ', s, hrun, hinv, -, hflight, hdel, -, hpend, -⟩ := h.eos
      exact ⟨σ', hrun, hinv, hcongr hpend hflight hdel⟩
  | add ws =>
      obtain ⟨σ', hrun, hinv, hsame⟩ := h.add he
      exact ⟨σ', hrun, hinv, hcongr hsame.nPendingtasks hsame.inFlight hsame.delivered⟩
  | remove ws =>
      obtain ⟨σ', hrun, hinv, hsame⟩ := h.remove he
      exact ⟨σ', hrun, hinv, hcongr hsame.nPendingtasks hsame.inFlight hsame.delivered⟩
  | collect w =>
      obtain ⟨σ', hrun, hinv, hflight, hdel, hemit⟩ := h.collect he
      exact ⟨σ', hrun, hinv, hcongr (by rw [hemit]) hflight hdel⟩

/-- A run either meets the condition at every step, and keeps going, or ends stuck. -/
theorem Going.run (hg : Going plan σ) (h : σ.Inv c plan) (hsp : 1 ≤ c.sp) (hle : c.sp ≤ c.wp)
    {es : List (WlqEvent N R)}
    (hes : Run.Valid (exec c) (fun σ e => σ.Enabled plan e ∧ σ.LeavesWorker e) es σ) :
    ∃ σ', Run.run (exec c) es σ = .ok σ' ∧
      ((Run.Valid (exec c) (fun σ e => σ.Enabled plan e ∧ LastFeedbackOk plan σ e) es σ ∧
          Going plan σ') ∨
        (¬ Run.Valid (exec c) (fun σ e => σ.Enabled plan e ∧ LastFeedbackOk plan σ e) es σ ∧
          Lost plan σ')) := by
  -- induction on the events, split at the first feedback that loses the pending tasks
  induction es generalizing σ with
  | nil => exact ⟨σ, rfl, Or.inl ⟨trivial, hg⟩⟩
  | cons e es ih =>
      obtain ⟨he, hleaves⟩ := hes.1
      by_cases hok : LastFeedbackOk plan σ e
      · obtain ⟨σ₁, hσ₁, hinv₁, hg₁⟩ := hg.step h hsp hle he.2 hleaves hok
        obtain ⟨σ', hrun, hcases⟩ := ih hg₁ hinv₁ ((Run.valid_cons hσ₁).mp hes).2
        refine ⟨σ', (Run.run_cons hσ₁).trans hrun, ?_⟩
        rw [Run.valid_cons hσ₁]
        exact hcases.imp (fun h => ⟨⟨⟨he, hok⟩, h.1⟩, h.2⟩) fun h => ⟨fun hv => h.1 hv.2, h.2⟩
      · obtain ⟨σ₁, hσ₁, hinv₁, hl₁⟩ := h.lost he.2 hok
        -- from there on no event sends a task any more
        obtain ⟨σ', hrun, -, hl⟩ := Run.Valid.induction
          (P := fun σ => σ.Inv c plan ∧ Lost plan σ) (fun _ _ h he => h.2.step h.1 he.1.2)
          ((Run.valid_cons hσ₁).mp hes).2 ⟨hinv₁, hl₁⟩
        exact ⟨σ', (Run.run_cons hσ₁).trans hrun, Or.inr ⟨fun hv => hok hv.1.2, hl⟩⟩

/-- **When the stage gets stuck.** Each removal leaves an activated worker. The stage does not get stuck in
a run in which the last task in flight never comes back from a de-activated worker while something is
pending and no results set is to arrive any more; and in every other run it is stuck once the
end-of-stream messages have been received. -/
theorem not_stuck_iff (wp sp : Nat) (hsp : 1 ≤ sp) (hle : sp ≤ wp) (plan : Multiset Nat) {nw : Nat}
    (hpos : 0 < nw) (hnw : nw ≤ N) (es : List (WlqEvent N R))
    (hes : Run.Valid (exec ⟨wp, sp⟩) (fun σ e => σ.Enabled plan e ∧ σ.LeavesWorker e) es
      (init N R nw)) :
    ∃ σ, Run.run (exec ⟨wp, sp⟩) es (init N R nw) = .ok σ ∧
      (Run.Valid (exec ⟨wp, sp⟩) (fun σ e => σ.Enabled plan e ∧ LastFeedbackOk plan σ e) es
        (init N R nw) → NotStuck σ) ∧
      (σ.emitter.eosReceived = N → σ.inFlight = 0 → NotStuck σ →
        Run.Valid (exec ⟨wp, sp⟩) (fun σ e => σ.Enabled plan e ∧ LastFeedbackOk plan σ e) es
          (init N R nw)) := by
  have hinv : (init N R nw).Inv ⟨wp, sp⟩ plan := inv_init _ plan nw
  -- the run keeps the condition and goes on, or it does not and is lost
  obtain ⟨σ, hrun, ⟨hv, hg⟩ | ⟨hno, hl⟩⟩ :=
    (going_init plan hpos hnw).run hinv hsp hle hes
  · exact ⟨σ, hrun, fun _ => hg.notStuck, fun _ _ _ => hv⟩
  · exact ⟨σ, hrun, fun hv => absurd hv hno, fun heos hzero hns =>
      absurd (hns heos hzero).1 hl.pending⟩

/-- A run that does not: a worker is removed while it has a task, but another task is in flight when
that one comes back. -/
def goingRun : List (WlqEvent 2 (Build (Row ℚ 1))) :=
  [.arrive (resultsOf 0 0 1), .exec 1, .remove [1], .arrive (resultsOf 1 1 1), .exec 0, .feedback 1,
    .feedback 0, .exec 0, .feedback 0, .eos, .eos]

/-- All the windows of that run are computed. -/
theorem not_stuck_iff_witness :
    ∃ σ, Run.run (exec ⟨2, 1⟩) goingRun (init 2 _ 2) = .ok σ ∧ NotStuck σ :=
  (not_stuck_iff 2 1 (by decide) (by decide) {0, 1} (by decide) (by decide) goingRun
    (by decide +kernel)).imp fun _ h => ⟨h.1, h.2.1 (by decide +kernel)⟩

/-- The run that gets stuck: pane 0 has two partitions, the second of which arrives while the window
is busy; the worker of its task is removed before the feedback, which is the last one. -/
def stuckRun : List (WlqEvent 2 (Build (Row ℚ 1))) :=
  [.arrive (resultsOf 0 0 0), .remove [1], .arrive (resultsOf 1 0 2), .exec 1, .feedback 1, .eos, .eos]

/-- The state after that run. -/
def stuckEnd : WlqState 2 (Build (Row ℚ 1)) :=
  Run.result (Run.run (exec ⟨2, 1⟩) stuckRun (init 2 _ 2)) (by decide +kernel)

/-- A results set is left pending for ever. -/
theorem not_stuck_fails :
    ¬ ∀ es : List (WlqEvent 2 (Build (Row ℚ 1))),
      Run.Valid (exec ⟨2, 1⟩) (fun σ e => σ.Enabled {0, 0} e ∧ σ.LeavesWorker e) es
          (init 2 (Build (Row ℚ 1)) 2) →
        ∀ σ, Run.run (exec ⟨2, 1⟩) es (init 2 _ 2) = .ok σ → NotStuck σ := by
  intro h
  have hstuck := h stuckRun (by decide +kernel) stuckEnd (Run.eq_ok_result _ _) (by decide +kernel)
    (by decide +kernel)
  exact absurd hstuck.1 (by decide +kernel)

end WlqState

end ElasticPPQ
