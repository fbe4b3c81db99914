import ElasticPPQ.Wlq.Activation
import ElasticPPQ.Wlq.Progress

/-! # The second stage comes to its end

Once nothing comes from outside any more, each message that the stage takes from one of its channels
decreases what is left to do (`WlqState.work`): every task is paid for by a pending one. With no removal
of workers each task in flight is at a worker that is activated (`WlqState.Staffed`), whose feedback keeps
the stage going. -/

namespace ElasticPPQ

open Channels

variable {N : Nat}

/-! ## What is sent -/

/-- A window of which a task is found has a results set pending. -/
theorem DispatchMove.pending {slot slot' : WinSlot} {ts : List WTask} (h : DispatchMove slot ts slot')
    (hts : ts ≠ []) : slot.pending ≠ [] := by
  obtain ⟨us, slot₁, ms, hu, hm, rfl⟩ := h
  cases hu with
  | update hb hq =>
      rw [WinSlot.pending, hq]
      exact List.cons_ne_nil _ _
  | stay =>
      cases hm with
      | stay => exact absurd rfl hts
      | merge hq =>
          rw [WinSlot.pending, hq]
          exact List.cons_ne_nil _ _

namespace WlqEmitter

variable {s s' : WlqEmitter N} {sent : List (Fin N × WTask)}

/-- A feedback is answered by one task at most, to the same worker, if that one is activated. -/
theorem feedback_sent {w : Fin N} {fb : WTask} (h : s.feedback w fb = .ok (s', sent)) :
    sent = [] ∨ ∃ t, sent = [(w, t)] ∧ s.activatedWorker w = true := by
  unfold feedback at h
  obtain ⟨s₁, h₁, h⟩ := Run.exists_of_bind_eq_ok h
  -- a de-activated worker is sent nothing, an activated one a task at most
  by_cases hw : s₁.activatedWorker w = true
  · rw [if_pos hw] at h
    cases htasks : s₁.getWTasksToSchedule 1 with
    | mk ts s₂ =>
        rw [htasks] at h
        rcases ts with _ | ⟨t, _ | ⟨t', ts⟩⟩
        · cases h
          exact Or.inl rfl
        · obtain ⟨s₃, -, h⟩ := Run.exists_of_bind_eq_ok h
          cases h
          exact Or.inr ⟨t, rfl, (complete_same h₁).activatedWorker ▸ hw⟩
        · cases h
          exact Or.inl rfl
  · rw [if_neg hw] at h
    cases h
    exact Or.inl rfl

/-- Tasks go to workers that are activated. -/
theorem scheduleAll_activated {ts : List WTask} (h : scheduleAll ts s = .ok (s', sent)) :
    ∀ x ∈ sent, s.activatedWorker x.1 = true := by
  -- induction on the tasks: the worker selected is idle, hence activated
  induction ts generalizing s s' sent with
  | nil =>
      cases h
      exact fun x hx => absurd hx List.not_mem_nil
  | cons t ts ih =>
      rw [scheduleAll] at h
      cases hw : s.selectIdleWorker with
      | none =>
          rw [hw] at h
          cases h
      | some x =>
          rw [hw] at h
          obtain ⟨w, s₀⟩ := x
          obtain ⟨v, hv, hx⟩ := Option.map_eq_some_iff.mp hw
          obtain ⟨rfl, rfl⟩ := Prod.mk.inj hx
          obtain ⟨s₁, h₁, h₂⟩ := Run.exists_of_bind_eq_ok h
          obtain ⟨⟨s₂, sent₂⟩, h₃, h₄⟩ := Run.exists_of_bind_eq_ok h₂
          cases h₄
          intro x hx
          rcases List.mem_cons.mp hx with rfl | hx
          · have hidle : s.isIdle v = true := List.find?_some hv
            exact (Bool.and_eq_true_iff.mp hidle).1
          · have hact := ih h₃ x hx
            rwa [(schedule_same h₁).activatedWorker] at hact

/-- So do those scheduled when a results set arrives. -/
theorem arrive_activated {wp sp : Nat} {p : Addr} {paneId noInstances : Nat}
    (h : s.arrive wp sp p paneId noInstances = .ok (s', sent)) :
    ∀ x ∈ sent, s.activatedWorker x.1 = true := by
  have hsame := arrive_same h
  unfold arrive at h
  obtain ⟨s₁, h₁, h⟩ := Run.exists_of_bind_eq_ok h
  obtain ⟨s₂, h₂, h⟩ := Run.exists_of_bind_eq_ok h
  obtain ⟨⟨s₃, sent₃⟩, h₃, h⟩ := Run.exists_of_bind_eq_ok h
  cases h
  intro x hx
  have hact := scheduleAll_activated h₃ x hx
  rw [← (scheduleAll_same h₃).activatedWorker] at hact
  rw [← hsame.activatedWorker]
  exact hact

variable {R : Type} {c : WlqParams} {plan : Multiset Nat} {delivered : List (Rset R)}
  {T : Nat → Multiset WTask}

/-- **A task sent for a feedback is paid for** by one that is pending. -/
theorem Core.feedback_paid {t : WTask} (h : Core c plan delivered s (withTask T t)) (hp2 : t.p2 = none)
    (hplan : Planned plan delivered) {w : Fin N} (hrun : s.feedback w t = .ok (s', sent)) :
    s'.nPendingtasks + sent.length = s.nPendingtasks := by
  obtain ⟨s₀, sent₀, hrun₀, -, -, -, -, -, hpend⟩ := h.feedback hp2 hplan w
  obtain ⟨hs, rfl⟩ := Prod.mk.inj (Except.ok.inj (hrun₀.symm.trans hrun))
  rw [← hs, (checked_endFeedback s₀).nPendingtasks, hpend]
  -- where a task is found, one is pending
  rcases feedback_sent hrun with rfl | ⟨u, rfl, hact⟩
  · rfl
  · obtain ⟨ds, hrun₁, hcore, -⟩ := h.complete hp2 w
    obtain ⟨s₁, hs₁⟩ : ∃ s₁ : WlqEmitter N, s₁ = { s with
        descrSet := ds
        workerReady := Function.update s.workerReady w true
        nReadyWorkers := s.nReadyWorkers + 1 } := ⟨_, rfl⟩
    rw [← hs₁] at hrun₁ hcore
    obtain ⟨ts, ds', hfind, -, -, -, hmv, -⟩ := getWTasksToSchedule_spec hcore.labelled
      (fun k => (hcore.control k).lastPending hplan) 1
    have hpos : s₁.nPendingtasks ≠ 0 := by
      rcases ts with _ | ⟨v, ts⟩
      · have hact₁ : s₁.activatedWorker w = true := by
          rw [hs₁]
          exact hact
        simp [WlqEmitter.feedback, hrun₁, bind, Except.bind, hact₁, hfind] at hrun
      · have hmove := (hmv v.winId).pending (by simp)
        obtain ⟨K, hK⟩ : ∃ K, K = s₁.firstWinId + s₁.descrSet.length + v.winId + 1 := ⟨_, rfl⟩
        rw [hcore.pend K (by omega)]
        have hle := Finset.single_le_sum (f := fun k => npend (s₁.slot k) (T k))
          (fun _ _ => Nat.zero_le _) (Finset.mem_range.mpr (show v.winId < K by omega))
        have hone : 0 < npend (s₁.slot v.winId) (T v.winId) :=
          Nat.add_pos_left (List.length_pos_iff.mpr hmove) _
        exact Nat.ne_of_gt (hone.trans_le hle)
    have hsame : s₁.nPendingtasks = s.nPendingtasks := by rw [hs₁]
    rw [hsame] at hpos
    simp only [List.length_singleton]
    omega

end WlqEmitter

/-! ## What is left to do -/

namespace WlqState

open WlqEmitter

variable {τ R : Type} [PrefQuery τ R] {c : WlqParams} {plan : Multiset Nat} {σ σ' : WlqState N R}

omit [PrefQuery τ R] in
/-- What is left to do when nothing comes from outside: a pending task is sent, executed and fed back,
and may lead to a window for the collector. -/
def work (σ : WlqState N R) : Nat :=
  3 * σ.emitter.nPendingtasks + 6 * (contents σ.toWorker).card + 4 * (contents σ.toEmitter).card +
    (contents σ.toCollector).card

/-- A task executed leaves less to do. -/
theorem work_exec {w : Fin N} (hq : σ.toWorker w ≠ []) (h : exec c σ (.exec w) = .ok σ') :
    σ'.work < σ.work := by
  obtain ⟨t, ts, hq⟩ := List.exists_cons_of_ne_nil hq
  simp only [exec, hq] at h
  obtain ⟨⟨m', t'⟩, -, h⟩ := Run.exists_of_bind_eq_ok h
  have hpop := congrArg Multiset.card (contents_pop hq)
  have hpush := congrArg Multiset.card (contents_push σ.toEmitter w t')
  rw [Multiset.card_add, Multiset.card_singleton] at hpop hpush
  dsimp only at h
  -- the task of a worker counts more than its feedback and a window for the collector together
  split at h
  · cases h
    have hout := congrArg Multiset.card (contents_push σ.toCollector w t'.p1)
    rw [Multiset.card_add, Multiset.card_singleton] at hout
    unfold work
    dsimp only
    omega
  · cases h
    unfold work
    dsimp only
    omega

/-- A feedback received leaves less to do. -/
theorem Inv.work_feedback (h : σ.Inv c plan) {w : Fin N} (hq : σ.toEmitter w ≠ [])
    (hσ' : σ.exec c (.feedback w) = .ok σ') : σ'.work < σ.work := by
  obtain ⟨t, ts, hq⟩ := List.exists_cons_of_ne_nil hq
  simp only [WlqState.exec, hq] at hσ'
  obtain ⟨⟨s', sent⟩, hrun, rfl⟩ := Run.exists_of_map_eq_ok hσ'
  have htasks : σ.tasksOf =
      withTask (windowOf (contents (Function.update σ.toEmitter w ts) + contents σ.toWorker)) t := by
    rw [← contents_withTask hq, add_comm]
    rfl
  have hcore := h.core
  rw [htasks] at hcore
  -- the feedback is paid for by the task it answers
  have hpaid := hcore.feedback_paid (h.comm.done w t (by rw [hq]; exact List.mem_cons_self)) h.planned
    hrun
  have hsent : sent.length ≤ 1 := by
    rcases feedback_sent hrun with rfl | ⟨u, rfl, -⟩
    · exact Nat.zero_le 1
    · exact le_rfl
  have hpop := congrArg Multiset.card (contents_pop hq)
  have hpush := congrArg Multiset.card (contents_pushAll σ.toWorker sent)
  rw [Multiset.card_add, Multiset.card_singleton] at hpop
  rw [Multiset.card_add, Multiset.coe_card, List.length_map] at hpush
  unfold work WlqState.sent
  dsimp only
  omega

/-- A window collected leaves less to do. -/
theorem work_collect {w : Fin N} (hq : σ.toCollector w ≠ []) (h : exec c σ (.collect w) = .ok σ') :
    σ'.work < σ.work := by
  obtain ⟨a, as, hq⟩ := List.exists_cons_of_ne_nil hq
  simp only [exec, hq] at h
  obtain ⟨x, -, rfl⟩ := Run.exists_of_map_eq_ok h
  have hpop := congrArg Multiset.card (contents_pop hq)
  rw [Multiset.card_add, Multiset.card_singleton] at hpop
  unfold work
  dsimp only
  omega

/-! ## No worker is removed -/

/-- The event removes workers. -/
def Retires : WlqEvent N R → Prop
  | .remove _ => True
  | _ => False

/-- The tasks in flight are at workers that are activated. -/
def Staffed (σ : WlqState N R) : Prop :=
  ∀ w, σ.toWorker w ≠ [] ∨ σ.toEmitter w ≠ [] → σ.emitter.activatedWorker w = true

/-- Nothing is in flight yet. -/
theorem staffed_init (nw : Nat) : (init N R nw).Staffed :=
  fun _ h => h.elim (fun h => absurd rfl h) fun h => absurd rfl h

omit [PrefQuery τ R] in
/-- The emitter sends tasks to activated workers only, and de-activates none. -/
theorem Staffed.sent {x : WlqEmitter N × List (Fin N × WTask)} (h : σ.Staffed)
    (hx : ∀ y ∈ x.2, σ.emitter.activatedWorker y.1 = true)
    (hmono : ∀ w, σ.emitter.activatedWorker w = true → x.1.activatedWorker w = true) :
    (σ.sent x).Staffed := by
  intro w hw
  apply hmono
  by_cases hmem : w ∈ x.2.map Prod.fst
  · obtain ⟨y, hy, rfl⟩ := List.mem_map.mp hmem
    exact hx y hy
  · refine h w (hw.imp_left fun hne hnil => hne ?_)
    -- nothing has been sent to this worker
    have hlength := length_pushAll σ.toWorker x.2 w
    rw [hnil, List.count_eq_zero_of_not_mem hmem] at hlength
    exact List.length_eq_zero_iff.mp hlength

omit [PrefQuery τ R] in
/-- Fewer tasks in flight, and no fewer workers. -/
theorem Staffed.mono (h : σ.Staffed)
    (hflight : ∀ w, σ'.toWorker w ≠ [] ∨ σ'.toEmitter w ≠ [] → σ.toWorker w ≠ [] ∨ σ.toEmitter w ≠ [])
    (hmono : ∀ w, σ.emitter.activatedWorker w = true → σ'.emitter.activatedWorker w = true) :
    σ'.Staffed :=
  fun w hw => hmono w (h w (hflight w hw))

/-- **Without removals the tasks in flight stay at activated workers.** -/
theorem Staffed.step (h : σ.Staffed) {e : WlqEvent N R} (he : σ.Possible plan e) (hno : ¬ Retires e)
    (hσ' : exec c σ e = .ok σ') : σ'.Staffed := by
  -- a worker with a task in flight stays activated, as nobody is removed
  cases effect_of_exec hσ' with
  | idle => exact h
  | arrive r x hx =>
      refine Staffed.sent (σ := { σ with
        mem := σ.mem.write (.pane σ.delivered.length) r
        delivered := σ.delivered ++ [r] }) h (arrive_activated hx) fun w hw => ?_
      rw [(arrive_same hx).activatedWorker]
      exact hw
  | exec w t ts m' t' q l hq =>
      refine h.mono (fun v hv => ?_) fun _ hv => hv
      -- the worker's task is on its way back, the other queues are as before
      by_cases hvw : v = w
      · subst hvw
        exact Or.inl (hq ▸ List.cons_ne_nil _ _)
      · have hqueues : (σ.afterTask w m' ts t' q l).toWorker v = σ.toWorker v ∧
            (σ.afterTask w m' ts t' q l).toEmitter v = σ.toEmitter v :=
          ⟨Function.update_of_ne hvw .., push_of_ne _ hvw _⟩
        rwa [hqueues.1, hqueues.2] at hv
  | feedback w t ts x hq hx =>
      have hrest : ({ σ with toEmitter := Function.update σ.toEmitter w ts } : WlqState N R).Staffed := by
        refine h.mono (fun v hv => hv.imp_right fun hne => ?_) fun _ hv => hv
        by_cases hvw : v = w
        · subst hvw
          exact hq ▸ List.cons_ne_nil _ _
        · have hqueue : Function.update σ.toEmitter w ts v = σ.toEmitter v :=
            Function.update_of_ne hvw ..
          exact hqueue ▸ hne
      refine hrest.sent (fun y hy => ?_) fun v hv => ?_
      -- a new task goes to the worker of the feedback if it is activated
      · rcases feedback_sent hx with hnil | ⟨u, hone, hact⟩
        · rw [hnil] at hy
          exact absurd hy List.not_mem_nil
        · rw [hone] at hy
          rw [List.mem_singleton.mp hy]
          exact hact
      · obtain ⟨s₁, hsame, hs⟩ := feedback_before hx
        rw [hs]
        apply (checked_endFeedback s₁).activatedWorker
        rw [hsame.activatedWorker]
        exact hv
  | eos =>
      refine h.mono (fun _ hv => hv) fun v hv => ?_
      exact (checked_checkTermination { σ.emitter with
        eosReceived := σ.emitter.eosReceived + 1 }).activatedWorker v hv
  | add ws s hs =>
      refine h.mono (fun _ hv => hv) fun v hv => ?_
      rw [WlqEmitter.addWorkers, Sched.activate_spec he.1 he.2] at hs
      obtain rfl := Except.ok.inj hs
      show (σ.emitter.activatedWorker v || _) = true
      rw [hv, Bool.true_or]
  | remove => exact absurd trivial hno
  | collect => exact h.mono (fun _ hv => hv) fun _ hv => hv

/-- A feedback comes from a worker that is activated. -/
theorem Staffed.lastFeedbackOk (h : σ.Staffed) {e : WlqEvent N R} (he : σ.Possible plan e) :
    LastFeedbackOk plan σ e := by
  cases e with
  | feedback w =>
      intro _ hw
      exact absurd (hw.symm.trans (h w (Or.inr he))) Bool.false_ne_true
  | _ => exact trivial

/-- **Without removals the stage keeps going.** -/
theorem Staffed.valid (h : σ.Staffed) {es : List (WlqEvent N R)}
    (hes : Run.Valid (exec c) (Enabled plan) es σ) (hno : ∀ e ∈ es, ¬ Retires e) :
    Run.Valid (exec c) (fun σ e => σ.Enabled plan e ∧ LastFeedbackOk plan σ e) es σ := by
  induction es generalizing σ with
  | nil => exact trivial
  | cons e es ih =>
      refine .cons ⟨hes.1, h.lastFeedbackOk hes.1.2⟩ fun σ₁ hx => ?_
      obtain ⟨he, hrest⟩ := (Run.valid_cons hx).mp hes
      exact ih (h.step he.2 (hno e List.mem_cons_self) hx) hrest fun e' he' =>
        hno e' (List.mem_cons_of_mem _ he')

end WlqState

end ElasticPPQ
