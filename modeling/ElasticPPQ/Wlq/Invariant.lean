import ElasticPPQ.Wlq.CollectorSpec
import ElasticPPQ.Wlq.EmitterSpec
import ElasticPPQ.Wlq.Memory

/-! # The invariant of the window-level query stage

The invariants of the emitter, of the channels to and from the workers and of the results sets hold
together in every state a run reaches (`WlqInv`); no event of the run fails. One lemma per event says
what it does. -/

namespace ElasticPPQ

open Channels WlqEmitter

variable {N : Nat} {τ R : Type}

/-- The tasks of window `k` among those of a multiset. -/
def windowOf (X : Multiset WTask) (k : Nat) : Multiset WTask := X.filter fun t => t.winId = k

/-- One task more in flight. -/
theorem windowOf_add_singleton (X : Multiset WTask) (t : WTask) (k : Nat) :
    windowOf (X + {t}) k = withTask (windowOf X) t k := by
  rw [windowOf, Multiset.filter_add, Multiset.filter_singleton, withTask]
  rfl

/-- The tasks just sent are in flight, each with its window. -/
theorem windowOf_add_sent (X : Multiset WTask) (sent : List (Fin N × WTask)) (k : Nat) :
    windowOf (X + (sent.map Prod.snd : List WTask)) k = windowOf X k + tasksFor sent k := by
  rw [windowOf, Multiset.filter_add, Multiset.filter_coe]
  rfl

/-- **The channels between the emitter and the workers**: a worker that is ready has no task, and one
that is not has exactly one. -/
structure Comm (s : WlqEmitter N) (toWorker toEmitter : Fin N → List WTask) : Prop where
  load : ∀ w, (toWorker w).length + (toEmitter w).length = if s.workerReady w then 0 else 1
  fresh : ∀ w, ∀ t ∈ toWorker w, t.p2 ≠ none
  done : ∀ w, ∀ t ∈ toEmitter w, t.p2 = none
  nReady : s.nReadyWorkers = (Finset.univ.filter fun w => s.workerReady w = true).card

namespace Comm

variable {s s' : WlqEmitter N} {toWorker toEmitter : Fin N → List WTask} {w : Fin N}
  {t t' : WTask} {ts : List WTask}

/-- With no task in flight all the workers are ready. -/
theorem ready_of_contents (h : Comm s toWorker toEmitter)
    (hzero : contents toWorker + contents toEmitter = 0) (w : Fin N) : s.workerReady w = true := by
  obtain ⟨htw, hte⟩ := add_eq_zero.mp hzero
  have hnil : ∀ {q : Fin N → List WTask}, contents q = 0 → (q w).length = 0 := by
    intro q hq
    rw [List.length_eq_zero_iff, List.eq_nil_iff_forall_not_mem]
    intro t ht
    exact Multiset.notMem_zero t (hq ▸ mem_contents.mpr ⟨w, ht⟩)
  have := h.load w
  rw [hnil htw, hnil hte] at this
  by_contra hw
  rw [if_neg hw] at this
  cases this

/-- Tasks are sent to idle workers. -/
theorem sent (h : Comm s toWorker toEmitter) {sent : List (Fin N × WTask)}
    (hs : Assigned s s' sent) (hp2 : ∀ t ∈ sent.map Prod.snd, t.p2 ≠ none) :
    Comm s' (pushAll toWorker sent) toEmitter := by
  -- tasks are sent to idle workers, and those were ready
  have hidle : ∀ w ∈ sent.map Prod.fst, s.workerReady w = true := by
    intro w hw
    have := hs.idle w hw
    rw [isIdle, Bool.and_eq_true] at this
    exact this.2
  refine ⟨fun w => ?_, fun w t ht => ?_, h.done, ?_⟩
  · rw [length_pushAll, Nat.add_right_comm, h.load w]
    -- a worker given a task is no longer ready, any other keeps its load
    by_cases hw : w ∈ sent.map Prod.fst
    · rw [hs.nodup.count, if_pos hw, hs.notReady w hw, hidle w hw]
      rfl
    · rw [List.count_eq_zero_of_not_mem hw, hs.ready w hw, Nat.add_zero]
  · rcases mem_pushAll ht with ht | ht
    · exact h.fresh w t ht
    · exact hp2 t ht
  -- the workers ready now are those before without the ones given a task
  · have hfilter : (Finset.univ.filter fun w => s'.workerReady w = true)
        = (Finset.univ.filter fun w => s.workerReady w = true) \ (sent.map Prod.fst).toFinset := by
      ext w
      rw [Finset.mem_sdiff, Finset.mem_filter, Finset.mem_filter, List.mem_toFinset]
      by_cases hw : w ∈ sent.map Prod.fst
      · simp [hs.notReady w hw, hw]
      · rw [hs.ready w hw]
        simp [hw]
    have hsub : (sent.map Prod.fst).toFinset
        ⊆ Finset.univ.filter fun w => s.workerReady w = true := by
      intro w hw
      exact Finset.mem_filter.mpr ⟨Finset.mem_univ w, hidle w (List.mem_toFinset.mp hw)⟩
    rw [hs.nReadyWorkers, h.nReady, hfilter, Finset.card_sdiff_of_subset hsub,
      List.toFinset_card_of_nodup hs.nodup, List.length_map]

/-- A worker executes a task. -/
theorem exec (h : Comm s toWorker toEmitter) (hq : toWorker w = t :: ts) (hp2 : t'.p2 = none) :
    Comm s (Function.update toWorker w ts) (push toEmitter w t') := by
  -- the task passes from one queue of the worker to the other
  refine ⟨fun v => ?_, fun v t₁ ht₁ => ?_, fun v t₁ ht₁ => ?_, h.nReady⟩
  · rw [← h.load v]
    by_cases hv : v = w
    · subst hv
      rw [Function.update_self, push_self, hq, List.length_append, List.length_singleton,
        List.length_cons]
      omega
    · rw [Function.update_of_ne hv, push_of_ne _ hv]
  · by_cases hv : v = w
    · subst hv
      rw [Function.update_self] at ht₁
      exact h.fresh v t₁ (by rw [hq]; exact List.mem_cons_of_mem _ ht₁)
    · rw [Function.update_of_ne hv] at ht₁
      exact h.fresh v t₁ ht₁
  · by_cases hv : v = w
    · subst hv
      rw [push_self] at ht₁
      rcases List.mem_append.mp ht₁ with ht₁ | ht₁
      · exact h.done v t₁ ht₁
      · rw [List.mem_singleton.mp ht₁]
        exact hp2
    · rw [push_of_ne _ hv] at ht₁
      exact h.done v t₁ ht₁

/-- A task comes back: its worker is ready. -/
theorem complete (h : Comm s toWorker toEmitter) (hq : toEmitter w = t :: ts) :
    Comm { s with
      workerReady := Function.update s.workerReady w true
      nReadyWorkers := s.nReadyWorkers + 1 } toWorker (Function.update toEmitter w ts) := by
  have hload := h.load w
  rw [hq, List.length_cons] at hload
  -- a worker whose feedback is on its way was not ready
  have hnot : s.workerReady w = false := by
    by_contra hw
    rw [if_pos (by simpa using hw)] at hload
    omega
  rw [hnot, if_neg Bool.false_ne_true] at hload
  refine ⟨fun v => ?_, h.fresh, fun v t₁ ht₁ => ?_, ?_⟩
  · show _ = if Function.update s.workerReady w true v then 0 else 1
    by_cases hv : v = w
    · subst hv
      rw [Function.update_self, Function.update_self, if_pos rfl]
      omega
    · rw [Function.update_of_ne hv, Function.update_of_ne hv]
      exact h.load v
  · by_cases hv : v = w
    · subst hv
      rw [Function.update_self] at ht₁
      exact h.done v t₁ (by rw [hq]; exact List.mem_cons_of_mem _ ht₁)
    · rw [Function.update_of_ne hv] at ht₁
      exact h.done v t₁ ht₁
  · show s.nReadyWorkers + 1
      = (Finset.univ.filter fun v => Function.update s.workerReady w true v = true).card
    -- the workers ready now are those before and this one
    have hfilter : (Finset.univ.filter fun v => Function.update s.workerReady w true v = true)
        = insert w (Finset.univ.filter fun v => s.workerReady v = true) := by
      ext v
      rw [Finset.mem_insert, Finset.mem_filter, Finset.mem_filter]
      by_cases hv : v = w
      · simp [hv]
      · rw [Function.update_of_ne hv]
        simp [hv]
    rw [hfilter, Finset.card_insert_of_notMem (by simp [hnot]), h.nReady]

end Comm

/-- **The channels to the collector**: of each window of which the finalizing task has been executed
the results set is on its way, or it has been received. -/
structure Collected (executed : List Nat) (toCollector : Fin N → List Addr)
    (collector : WlqCollector Addr) (client : List Addr) : Prop where
  ordered : collector.Ordered client
  wins : ∀ w, ∀ a ∈ toCollector w, ∃ k, a = .win k
  received : ∀ k, executed.count k
    = (contents toCollector).count (.win k) + if collector.received k then 1 else 0

/-- A worker sends a window to the collector. -/
theorem Collected.push {executed : List Nat} {toCollector : Fin N → List Addr}
    {collector : WlqCollector Addr} {client : List Addr}
    (h : Collected executed toCollector collector client) (w : Fin N) (k : Nat) :
    Collected (executed ++ [k]) (push toCollector w (.win k)) collector client := by
  refine ⟨h.ordered, fun v a ha => ?_, fun j => ?_⟩
  · by_cases hv : v = w
    · subst hv
      rw [push_self] at ha
      rcases List.mem_append.mp ha with ha | ha
      · exact h.wins v a ha
      · exact ⟨k, List.mem_singleton.mp ha⟩
    · rw [push_of_ne _ hv] at ha
      exact h.wins v a ha
  · rw [List.count_append, h.received, contents_push, Multiset.count_add, Multiset.count_singleton,
      List.count_singleton]
    -- the window has been executed and now waits for the collector
    by_cases hj : k = j
    · subst hj
      simp
      omega
    · have hwin : Addr.win j ≠ .win k := fun h => hj (Addr.win.inj h).symm
      rw [beq_false_of_ne hj, if_neg hwin, if_neg Bool.false_ne_true]
      omega

/-- The collector receives a window. -/
theorem Collected.pop {executed : List Nat} {toCollector : Fin N → List Addr}
    {collector collector' : WlqCollector Addr} {client client' : List Addr}
    (h : Collected executed toCollector collector client) {w : Fin N} {k : Nat} {as : List Addr}
    (hq : toCollector w = .win k :: as) (hnew : collector.received k = false)
    (hordered : collector'.Ordered client')
    (hreceived : ∀ j, collector'.received j = (collector.received j || decide (j = k))) :
    Collected executed (Function.update toCollector w as) collector' client' := by
  refine ⟨hordered, fun v a ha => ?_, fun j => ?_⟩
  · by_cases hv : v = w
    · subst hv
      rw [Function.update_self] at ha
      exact h.wins v a (by rw [hq]; exact List.mem_cons_of_mem _ ha)
    · rw [Function.update_of_ne hv] at ha
      exact h.wins v a ha
  · rw [h.received j, contents_pop hq, Multiset.count_add, Multiset.count_singleton, hreceived]
    -- the window leaves the queue for the collector
    by_cases hj : j = k
    · subst hj
      rw [if_pos rfl, hnew]
      simp
      omega
    · rw [if_neg fun h => hj (Addr.win.inj h), decide_eq_false hj, Bool.or_false]
      omega

namespace WlqState

/-- The results sets that window `k` holds. -/
def heldBy (σ : WlqState N R) (k : Nat) : Multiset Addr := held (σ.emitter.slot k) (σ.tasksOf k)

variable [PrefQuery τ R]

/-- **The invariant of the stage.** -/
structure Inv (c : WlqParams) (plan : Multiset Nat) (σ : WlqState N R) : Prop where
  planned : Planned plan σ.delivered
  core : Core c plan σ.delivered σ.emitter σ.tasksOf
  comm : Comm σ.emitter σ.toWorker σ.toEmitter
  created : ∀ k, σ.created.count k = (σ.emitter.slot k).done
  executed : ∀ k, σ.executed.count k + awaited (σ.tasksOf k) = (σ.emitter.slot k).done
  folded : Folded c σ.delivered σ.mem σ.heldBy
  collected : Collected σ.executed σ.toCollector σ.collector σ.client

variable {c : WlqParams} {plan : Multiset Nat} {σ σ' : WlqState N R}

/-- The invariant holds initially. -/
theorem inv_init (c : WlqParams) (plan : Multiset Nat) (nw : Nat) : (init N R nw).Inv c plan := by
  -- nothing is in flight and no window is opened at the start
  have hflight : (init N R nw).inFlight = 0 := by
    show contents (fun _ => []) + contents (fun _ => []) = 0
    simp [contents]
  have htasks : ∀ k, (init N R nw).tasksOf k = 0 := by
    intro k
    rw [tasksOf, hflight]
    rfl
  have hslot : ∀ k, (init N R nw).emitter.slot k = .unopened := fun k => slotAt_of_le (Nat.zero_le k)
  have hheld : ∀ k, (init N R nw).heldBy k = 0 := by
    intro k
    rw [heldBy, hslot, htasks]
    rfl
  refine ⟨fun p => Nat.zero_le _, ⟨fun k => ?_, fun K _ => ?_⟩, ⟨fun w => rfl,
    fun w t ht => absurd ht List.not_mem_nil, fun w t ht => absurd ht List.not_mem_nil, ?_⟩,
    fun k => ?_, fun k => ?_, ?_, ?_⟩
  · rw [hslot, htasks]
    exact ⟨rfl, rfl⟩
  · simp only [hslot, htasks]
    exact (Finset.sum_eq_zero fun k _ => rfl).symm
  · show N = _
    simp [init, WlqEmitter.new]
  · rw [hslot]
    rfl
  · rw [hslot, htasks]
    rfl
  · refine ⟨⟨fun _ => .new, fun a => ?_, fun i hi => absurd hi (Nat.not_lt_zero i),
      fun a i hi => absurd hi (Multiset.notMem_zero i), fun k => ?_, fun k a ha => ?_⟩,
      fun k a ha => ?_, fun k i => ?_, fun k => rfl⟩
    · cases a <;> rfl
    · rw [hheld]
      rfl
    · rw [hheld] at ha
      exact absurd ha (Multiset.notMem_zero a)
    · rw [hheld] at ha
      exact absurd ha (Multiset.notMem_zero a)
    · rw [hheld]
      rfl
  · refine ⟨WlqCollector.ordered_new, fun w a ha => absurd ha List.not_mem_nil, fun k => ?_⟩
    show 0 = (contents fun _ => []).count _ + _
    simp [contents, init, WlqCollector.new, WlqCollector.received]

/-! ## Tasks are sent -/

omit [PrefQuery τ R] in
/-- What is sent is in flight. -/
theorem inFlight_sent (σ : WlqState N R) (s : WlqEmitter N) (sent : List (Fin N × WTask)) :
    (σ.sent (s, sent)).inFlight = σ.inFlight + (sent.map Prod.snd : List WTask) := by
  show contents (pushAll σ.toWorker sent) + contents σ.toEmitter = _
  rw [contents_pushAll, inFlight, add_right_comm]

omit [PrefQuery τ R] in
/-- What is sent is in flight, window by window. -/
theorem tasksOf_sent (σ : WlqState N R) (s : WlqEmitter N) (sent : List (Fin N × WTask)) (k : Nat) :
    (σ.sent (s, sent)).tasksOf k = σ.tasksOf k + tasksFor sent k := by
  rw [tasksOf, inFlight_sent]
  exact windowOf_add_sent _ _ _

omit [PrefQuery τ R] in
/-- The finalizing tasks sent, by window. -/
theorem count_finalizing (sent : List (Fin N × WTask)) (k : Nat) :
    ((sent.filter fun p => p.2.finalize).map fun p => p.2.winId).count k
      = (tasksFor sent k).countP fun t => t.finalize := by
  rw [tasksFor, List.count, List.countP_map, List.countP_filter, List.countP_filter, List.countP_map]
  refine List.countP_congr fun p _ => ?_
  simp [and_comm]

/-- **Tasks are sent** by an emitter that has reacted to a message. -/
theorem inv_sent {σ₀ : WlqState N R} {s s' : WlqEmitter N} {T : Nat → Multiset WTask}
    {new : Nat → Multiset Addr} {sent : List (Fin N × WTask)} (hplan : Planned plan σ₀.delivered)
    (hcomm : Comm σ₀.emitter σ₀.toWorker σ₀.toEmitter) (hs : Assigned σ₀.emitter s' sent)
    (hcore : Core c plan σ₀.delivered s' fun k => σ₀.tasksOf k + tasksFor sent k)
    (hr : Reacted s T s' (fun k => σ₀.tasksOf k + tasksFor sent k) new sent)
    (hcreated : ∀ k, σ₀.created.count k = (s.slot k).done)
    (hexecuted : ∀ k, σ₀.executed.count k + awaited (T k) = (s.slot k).done)
    (hfolded : Folded c σ₀.delivered σ₀.mem fun k => held (s.slot k) (T k) + new k)
    (hcollected : Collected σ₀.executed σ₀.toCollector σ₀.collector σ₀.client) :
    (σ₀.sent (s', sent)).Inv c plan := by
  -- the tasks sent are in flight as well
  have htasks : (σ₀.sent (s', sent)).tasksOf = fun k => σ₀.tasksOf k + tasksFor sent k :=
    funext fun k => tasksOf_sent σ₀ s' sent k
  have hheld : (σ₀.sent (s', sent)).heldBy = fun k => held (s.slot k) (T k) + new k := by
    funext k
    rw [heldBy, htasks]
    exact hr.held k
  refine ⟨hplan, ?_, hcomm.sent hs hr.fresh, fun k => ?_, fun k => ?_, ?_, hcollected⟩
  · rw [htasks]
    exact hcore
  -- a window is created when its finalizing task is sent
  · show (σ₀.created ++ _).count k = (s'.slot k).done
    rw [List.count_append, count_finalizing, hcreated, hr.done]
  · rw [htasks]
    show σ₀.executed.count k + awaited _ = (s'.slot k).done
    rw [hr.awaited, hr.done, ← hexecuted, Nat.add_assoc]
  · rw [hheld]
    exact hfolded

/-- The emitter changes in nothing that the invariant speaks of. -/
theorem Inv.setEmitter (h : σ.Inv c plan) {s : WlqEmitter N}
    (hfirst : s.firstWinId = σ.emitter.firstWinId) (hdescr : s.descrSet = σ.emitter.descrSet)
    (hpend : s.nPendingtasks = σ.emitter.nPendingtasks)
    (hready : s.workerReady = σ.emitter.workerReady)
    (hnready : s.nReadyWorkers = σ.emitter.nReadyWorkers) :
    ({ σ with emitter := s } : WlqState N R).Inv c plan := by
  -- the windows do not depend on the other fields of the emitter
  have hslot : ∀ k, s.slot k = σ.emitter.slot k := by
    intro k
    rw [slot, slot, hfirst, hdescr]
  refine ⟨h.planned, h.core.congr hslot (by rw [hfirst, hdescr]) hpend,
    ⟨fun w => ?_, h.comm.fresh, h.comm.done, ?_⟩, fun k => ?_, fun k => ?_, ?_, h.collected⟩
  · rw [hready]
    exact h.comm.load w
  · rw [hnready, hready]
    exact h.comm.nReady
  · show _ = (s.slot k).done
    rw [hslot]
    exact h.created k
  · show _ = (s.slot k).done
    rw [hslot]
    exact h.executed k
  · have hheld : ({ σ with emitter := s } : WlqState N R).heldBy = σ.heldBy := by
      funext k
      show held (s.slot k) _ = _
      rw [hslot]
      rfl
    rw [hheld]
    exact h.folded

/-- The emitter checks whether the stage has terminated. -/
theorem Inv.checked (h : σ.Inv c plan) {s : WlqEmitter N} (hs : Checked σ.emitter s) :
    ({ σ with emitter := s } : WlqState N R).Inv c plan :=
  h.setEmitter hs.firstWinId hs.descrSet hs.nPendingtasks hs.workerReady hs.nReadyWorkers

/-! ## The events -/

/-- **A results set arrives.** If a worker is activated, some task is in flight afterwards. -/
theorem Inv.arrive (h : σ.Inv c plan) (hsp : 1 ≤ c.sp) (hle : c.sp ≤ c.wp) {r : Rset R}
    (he : σ.Possible plan (.arrive r)) :
    ∃ σ', σ.exec c (.arrive r) = .ok σ' ∧ σ'.Inv c plan ∧
      ((∃ w, σ.emitter.activatedWorker w = true) → σ'.inFlight ≠ 0) ∧
      σ'.emitter.eosReceived = σ.emitter.eosReceived ∧ σ'.delivered = σ.delivered ++ [r] ∧
      σ'.emitter.wlqTerminated = σ.emitter.wlqTerminated := by
  obtain ⟨-, hlt, hn, -⟩ := he
  obtain ⟨s', sent, hrun, hcore, hs, hr, hne⟩ :=
    h.core.arrive hsp hle h.planned hlt hn (.pane σ.delivered.length)
  -- the state with the set delivered, before the emitter sends anything
  obtain ⟨σ₀, hσ₀⟩ : ∃ σ₀ : WlqState N R, σ₀ = { σ with
    mem := σ.mem.write (.pane σ.delivered.length) r
    delivered := σ.delivered ++ [r] } := ⟨_, rfl⟩
  have htasks : σ₀.tasksOf = σ.tasksOf := by rw [hσ₀]; rfl
  refine ⟨σ₀.sent (s', sent), ?_, ?_, fun hactive hzero => ?_, hs.eosReceived, by rw [hσ₀]; rfl,
    hs.wlqTerminated⟩
  · rw [hσ₀, exec]
    simp only [hrun]
    rfl
  · rw [hσ₀] at htasks ⊢
    refine inv_sent (s := σ.emitter) (T := σ.tasksOf) (h.planned.concat hlt) h.comm
      hs ?_ ?_ h.created
      h.executed (h.folded.receive r) h.collected
    · rw [htasks]
      exact hcore
    · rw [htasks]
      exact hr
  -- with an activated worker idle, the set just received gives it a task
  · rw [inFlight_sent, add_eq_zero] at hzero
    obtain ⟨hflight, hsent⟩ := hzero
    have hflight : σ.inFlight = 0 := by rw [← hflight, hσ₀]; rfl
    refine hne ?_ (fun k => by rw [tasksOf, hflight]; rfl)
      (List.map_eq_nil_iff.mp (Multiset.coe_eq_zero _ |>.mp hsent))
    obtain ⟨w, hw⟩ := hactive
    rw [getNumIdleWorkers_eq, Finset.card_pos]
    refine ⟨w, Finset.mem_filter.mpr ⟨Finset.mem_univ w, ?_⟩⟩
    rw [isIdle, hw, h.comm.ready_of_contents hflight w]
    rfl

omit [PrefQuery τ R] in
/-- A message leaves a channel. -/
theorem contents_withTask {q : Fin N → List WTask} {w : Fin N} {t : WTask} {ts : List WTask}
    (hq : q w = t :: ts) (X : Multiset WTask) :
    windowOf (contents q + X)
      = withTask (windowOf (contents (Function.update q w ts) + X)) t := by
  funext k
  rw [contents_pop hq, add_comm ({t} : Multiset WTask), add_right_comm, windowOf_add_singleton]

/-- What a task awaits is its execution. -/
theorem awaited_withTask (T : Nat → Multiset WTask) (t : WTask) (k : Nat) :
    awaited (withTask T t k)
      = awaited (T k) + if t.winId = k ∧ t.finalize = true ∧ t.p2 ≠ none then 1 else 0 := by
  rw [withTask, awaited, awaited]
  by_cases hk : t.winId = k
  · rw [if_pos hk, Multiset.countP_add, ← Multiset.cons_zero, Multiset.countP_cons,
      Multiset.countP_zero, Nat.zero_add]
    simp only [hk, true_and]
  · rw [if_neg hk, add_zero, if_neg fun h => hk h.1, Nat.add_zero]

/-- The worker's part in the execution of a task: the task comes back without operands to fold, or
with the result of the merge, and the results sets stay as they have to be. -/
theorem Inv.svc (h : σ.Inv c plan) {t : WTask} {T : Nat → Multiset WTask}
    (hT : σ.tasksOf = withTask T t) (hp2 : t.p2 ≠ none) :
    ∃ m' t', σ.mem.svc t = .ok (m', t') ∧ t'.type = t.type ∧ t'.winId = t.winId ∧
      t'.finalize = t.finalize ∧ (t.type = .winUpdate → t'.p1 = t.p1) ∧ t'.p2 = none ∧
      Folded c σ.delivered m' fun k => held (σ.emitter.slot k) (withTask T t' k) := by
  obtain ⟨p2, hp2⟩ := Option.ne_none_iff_exists'.mp hp2
  have hown := h.core.control t.winId
  have hfolded := h.folded
  -- the operands of the task are held until it is executed
  have hheld : σ.heldBy = fun k =>
      held (σ.emitter.slot k) (T k) + if t.winId = k then t.operands else 0 := by
    funext k
    rw [heldBy, hT, held_withTask]
  rw [hT, withTask, if_pos rfl] at hown
  rw [hheld] at hfolded
  have hmem : t ∈ T t.winId + {t} := Multiset.mem_add.mpr (Or.inr (Multiset.mem_singleton_self t))
  -- an update consumes its pane set into the window, a merge two sets into a new one
  cases hty : t.type with
  | winUpdate =>
      refine ⟨_, _, σ.mem.svc_winUpdate hty ((hown.winUpdate hmem).1 hty) rfl hp2, hty, rfl, rfl,
        fun _ => rfl, rfl, ?_⟩
      have hops : t.operands = {p2} := by simp [WTask.operands, hty, hp2]
      rw [hops] at hfolded
      have hnil : ∀ k, held (σ.emitter.slot k) (withTask T { t with p2 := none } k)
          = held (σ.emitter.slot k) (T k) := by
        intro k
        rw [held_withTask]
        simp [WTask.operands, hty]
      simp only [hnil]
      exact hfolded.updated
  | merge =>
      refine ⟨_, _, σ.mem.svc_merge hty hp2, hty, rfl, rfl, (fun hc => by cases hc),
        rfl, ?_⟩
      have hops : t.operands = {t.p1} + {p2} := by simp [WTask.operands, hty, hp2]
      rw [hops] at hfolded
      have hone : ∀ k, held (σ.emitter.slot k)
          (withTask T { t with p1 := .merged σ.mem.merges, p2 := none } k)
            = held (σ.emitter.slot k) (T k)
              + if t.winId = k then {.merged σ.mem.merges} else 0 := by
        intro k
        rw [held_withTask]
        simp [WTask.operands, hty]
      simp only [hone]
      exact hfolded.mergedInto

omit [PrefQuery τ R] in
/-- A task that has been executed is on its way back. -/
theorem inFlight_afterTask (w : Fin N) (m' : WlqMemory R) (ts : List WTask) (t' : WTask)
    (q : Fin N → List Addr) (l : List Nat) : (σ.afterTask w m' ts t' q l).inFlight
      = contents (Function.update σ.toWorker w ts) + contents σ.toEmitter + {t'} := by
  rw [afterTask, inFlight, contents_push, add_assoc]

omit [PrefQuery τ R] in
/-- As many tasks are in flight as before. -/
theorem card_inFlight_afterTask {w : Fin N} {t : WTask} {ts : List WTask}
    (hq : σ.toWorker w = t :: ts) (m' : WlqMemory R) (t' : WTask) (q : Fin N → List Addr)
    (l : List Nat) : (σ.afterTask w m' ts t' q l).inFlight.card = σ.inFlight.card := by
  rw [inFlight_afterTask, inFlight, contents_pop hq]
  simp only [Multiset.card_add, Multiset.card_singleton]
  omega

/-- The invariant after a task, whatever is sent to the collector. -/
theorem Inv.afterTask (h : σ.Inv c plan) {w : Fin N} {t t' : WTask} {ts : List WTask}
    {m' : WlqMemory R} (hq : σ.toWorker w = t :: ts)
    {T : Nat → Multiset WTask} (hT : T = windowOf (contents (Function.update σ.toWorker w ts)
      + contents σ.toEmitter))
    (hty : t'.type = t.type) (hwin : t'.winId = t.winId) (hfin : t'.finalize = t.finalize)
    (hp1 : t.type = .winUpdate → t'.p1 = t.p1) (hnone : t'.p2 = none)
    (hfolded : Folded c σ.delivered m' fun k => held (σ.emitter.slot k) (withTask T t' k))
    {q : Fin N → List Addr} {l : List Nat} (hl : ∀ k, l.count k
      = σ.executed.count k + if t.winId = k ∧ t.finalize = true then 1 else 0)
    (hcol : Collected l q σ.collector σ.client) : (σ.afterTask w m' ts t' q l).Inv c plan := by
  have hp2 := h.comm.fresh w t (by rw [hq]; exact List.mem_cons_self)
  -- the worker's task is in flight before and after, with its operands consumed
  have htasks : σ.tasksOf = withTask T t := by
    rw [hT]
    exact contents_withTask hq _
  have htasks' : (σ.afterTask w m' ts t' q l).tasksOf = withTask T t' := by
    funext k
    rw [tasksOf, inFlight_afterTask, hT]
    exact windowOf_add_singleton _ _ k
  have hstep : ∀ k, Control c plan σ.delivered k (σ.emitter.slot k) (withTask T t' k) ∧
      npend (σ.emitter.slot k) (withTask T t' k) = npend (σ.emitter.slot k) (σ.tasksOf k) := by
    intro k
    have hk := h.core.control k
    rw [htasks] at hk ⊢
    rw [withTask, hwin]
    rw [withTask] at hk ⊢
    -- the control of the window only looks at the kind of the task
    by_cases hkt : t.winId = k
    · simp only [if_pos hkt] at hk ⊢
      exact hk.exec hty hfin hp1
    · simp only [if_neg hkt] at hk ⊢
      exact ⟨hk, trivial⟩
  refine ⟨h.planned, ⟨fun k => ?_, fun K hK => ?_⟩, h.comm.exec hq hnone, h.created, fun k => ?_, ?_,
    hcol⟩
  · rw [htasks']
    exact (hstep k).1
  · rw [htasks']
    exact (h.core.pend K hK).trans (Finset.sum_congr rfl fun k _ => (hstep k).2.symm)
  -- the finalizing task executed is the one its window was waiting for
  · have hold := h.executed k
    rw [htasks, awaited_withTask] at hold
    rw [htasks', awaited_withTask, hwin, hnone]
    show l.count k + _ = (σ.emitter.slot k).done
    rw [← hold, hl]
    simp [hp2]
    omega
  · show Folded c σ.delivered m' fun k => held (σ.emitter.slot k) _
    rw [htasks']
    exact hfolded

/-- **A worker executes a task.** -/
theorem Inv.exec (h : σ.Inv c plan) {w : Fin N} (he : σ.Possible plan (.exec w)) :
    ∃ σ', σ.exec c (.exec w) = .ok σ' ∧ σ'.Inv c plan ∧ σ'.inFlight.card = σ.inFlight.card ∧
      σ'.emitter = σ.emitter ∧ σ'.delivered = σ.delivered := by
  cases hq : σ.toWorker w with
  | nil => exact absurd hq he
  | cons t ts =>
      have hp2 := h.comm.fresh w t (by rw [hq]; exact List.mem_cons_self)
      obtain ⟨T, hT⟩ : ∃ T, T = windowOf (contents (Function.update σ.toWorker w ts)
        + contents σ.toEmitter) := ⟨_, rfl⟩
      have htasks : σ.tasksOf = withTask T t := by
        rw [hT]
        exact contents_withTask hq _
      obtain ⟨m', t', hsvc, hty, hwin, hfin, hp1, hnone, hfolded⟩ := h.svc htasks hp2
      have hown := h.core.control t.winId
      rw [htasks, withTask, if_pos rfl] at hown
      have hmem : t ∈ T t.winId + {t} :=
        Multiset.mem_add.mpr (Or.inr (Multiset.mem_singleton_self t))
      by_cases hc : t.type = .winUpdate ∧ t.finalize = true
      · -- the window is complete, and goes to the collector
        refine ⟨σ.afterTask w m' ts t' (push σ.toCollector w t'.p1) (σ.executed ++ [t.winId]), ?_,
          h.afterTask hq hT hty hwin hfin hp1 hnone hfolded (fun k => ?_) ?_,
          card_inFlight_afterTask hq .., rfl, rfl⟩
        · simp only [WlqState.exec, hq, hsvc, bind, Except.bind]
          rw [if_pos hc]
          rfl
        · rw [List.count_append, List.count_singleton]
          simp [hc.2]
        · rw [hp1 hc.1, (hown.winUpdate hmem).1 hc.1]
          exact h.collected.push w t.winId
      · have hnf : t.finalize ≠ true := fun hf => hc ⟨(hown.winUpdate hmem).2 hf, hf⟩
        refine ⟨σ.afterTask w m' ts t' σ.toCollector σ.executed, ?_,
          h.afterTask hq hT hty hwin hfin hp1 hnone hfolded (fun k => ?_) h.collected,
          card_inFlight_afterTask hq .., rfl, rfl⟩
        · simp only [WlqState.exec, hq, hsvc, bind, Except.bind]
          rw [if_neg hc]
          rfl
        · rw [if_neg fun hk => hnf hk.2, Nat.add_zero]

/-- **A feedback is received.** -/
theorem Inv.feedback (h : σ.Inv c plan) {w : Fin N} (he : σ.Possible plan (.feedback w)) :
    ∃ σ' s, σ.exec c (.feedback w) = .ok σ' ∧ σ'.Inv c plan ∧ Checked s σ'.emitter ∧
      σ'.emitter.eosReceived = σ.emitter.eosReceived ∧ σ'.delivered = σ.delivered ∧
      σ'.emitter.nPendingtasks ≤ σ.emitter.nPendingtasks ∧
      (σ.inFlight.card ≠ 1 → σ'.inFlight ≠ 0) ∧
      (σ.emitter.activatedWorker w = true → σ'.emitter.nPendingtasks ≠ 0 → σ'.inFlight ≠ 0) ∧
      (σ.emitter.activatedWorker w = false → σ'.inFlight.card + 1 = σ.inFlight.card ∧
        σ'.emitter.nPendingtasks = σ.emitter.nPendingtasks) ∧
      s.wlqTerminated = σ.emitter.wlqTerminated := by
  cases hq : σ.toEmitter w with
  | nil => exact absurd hq he
  | cons t ts =>
      -- the state once the feedback has been taken and the worker is ready
      obtain ⟨σ₀, hσ₀⟩ : ∃ σ₀ : WlqState N R, σ₀ = { σ with
        emitter := { σ.emitter with
          workerReady := Function.update σ.emitter.workerReady w true
          nReadyWorkers := σ.emitter.nReadyWorkers + 1 }
        toEmitter := Function.update σ.toEmitter w ts } := ⟨_, rfl⟩
      have hflight : σ.inFlight = σ₀.inFlight + {t} := by
        rw [hσ₀, inFlight, contents_pop hq, add_comm ({t} : Multiset WTask), ← add_assoc]
        rfl
      have htasks : σ.tasksOf = withTask σ₀.tasksOf t := by
        funext k
        rw [tasksOf, hflight]
        exact windowOf_add_singleton _ _ k
      have hp2 := h.comm.done w t (by rw [hq]; exact List.mem_cons_self)
      have hcore := h.core
      rw [htasks] at hcore
      obtain ⟨s', sent, hrun, hcore', hs, hr, hne, hnone, hpend⟩ := hcore.feedback hp2 h.planned w
      have hcomm := h.comm.complete hq
      have hinv : (σ₀.sent (s', sent)).Inv c plan := by
        refine inv_sent ?_ ?_ ?_ ?_ hr ?_ ?_ ?_ ?_
        · rw [hσ₀]
          exact h.planned
        · rw [hσ₀]
          exact hcomm
        · rw [hσ₀]
          exact hs
        · rw [hσ₀] at hcore' ⊢
          exact hcore'
        · rw [hσ₀]
          exact h.created
        · intro k
          rw [← htasks, hσ₀]
          exact h.executed k
        · have hfolded := h.folded
          simp only [add_zero, ← htasks]
          rw [hσ₀]
          exact hfolded
        · rw [hσ₀]
          exact h.collected
      have hcheck := checked_endFeedback s'
      have hzero : (σ₀.sent (s'.endFeedback, sent)).inFlight = 0 →
          σ₀.inFlight = 0 ∧ sent = [] := by
        intro hz
        rw [inFlight_sent, add_eq_zero] at hz
        exact ⟨hz.1, List.map_eq_nil_iff.mp (Multiset.coe_eq_zero _ |>.mp hz.2)⟩
      refine ⟨σ₀.sent (s'.endFeedback, sent), s', ?_, hinv.checked hcheck, hcheck,
        hcheck.eosReceived.trans hs.eosReceived, by rw [hσ₀]; rfl, ?_, fun hcard hz => ?_,
        fun hact hpos hz => ?_, fun hact => ⟨?_, ?_⟩, hs.wlqTerminated⟩
      · rw [WlqState.exec]
        simp only [hq, hrun]
        rw [hσ₀]
        rfl
      · show (WlqEmitter.endFeedback s').nPendingtasks ≤ _
        rw [hcheck.nPendingtasks, hpend]
        exact Nat.sub_le _ _
      · rw [hflight, (hzero hz).1, zero_add, Multiset.card_singleton] at hcard
        exact hcard rfl
      · obtain ⟨hz₀, hnil⟩ := hzero hz
        refine hne hact (fun k => by rw [tasksOf, hz₀]; rfl) ?_ hnil
        replace hpos : (WlqEmitter.endFeedback s').nPendingtasks ≠ 0 := hpos
        rw [hcheck.nPendingtasks, hpend] at hpos
        omega
      · rw [inFlight_sent, hnone hact, hflight]
        simp
      · show (WlqEmitter.endFeedback s').nPendingtasks = _
        rw [hcheck.nPendingtasks, hpend, hnone hact]
        rfl

/-- An end-of-stream message of the first stage is received. -/
theorem Inv.eos (h : σ.Inv c plan) :
    ∃ σ' s, σ.exec c .eos = .ok σ' ∧ σ'.Inv c plan ∧ Checked s σ'.emitter ∧
      σ'.inFlight = σ.inFlight ∧ σ'.delivered = σ.delivered ∧
      σ'.emitter.eosReceived = σ.emitter.eosReceived + 1 ∧
      σ'.emitter.nPendingtasks = σ.emitter.nPendingtasks ∧
      s.wlqTerminated = σ.emitter.wlqTerminated := by
  have hcheck := checked_checkTermination { σ.emitter with
    eosReceived := σ.emitter.eosReceived + 1 }
  refine ⟨_, _, rfl, ?_, hcheck, rfl, rfl, hcheck.eosReceived, hcheck.nPendingtasks, rfl⟩
  exact h.setEmitter hcheck.firstWinId hcheck.descrSet hcheck.nPendingtasks hcheck.workerReady
    hcheck.nReadyWorkers

/-- What a reconfiguration leaves as it is. -/
structure Reconfigured (σ σ' : WlqState N R) : Prop where
  inFlight : σ'.inFlight = σ.inFlight
  delivered : σ'.delivered = σ.delivered
  eosReceived : σ'.emitter.eosReceived = σ.emitter.eosReceived
  nPendingtasks : σ'.emitter.nPendingtasks = σ.emitter.nPendingtasks
  wlqTerminated : σ'.emitter.wlqTerminated = σ.emitter.wlqTerminated

/-- Workers are activated. -/
theorem Inv.add (h : σ.Inv c plan) {ws : List (Fin N)} (he : σ.Possible plan (.add ws)) :
    ∃ σ', σ.exec c (.add ws) = .ok σ' ∧ σ'.Inv c plan ∧ Reconfigured σ σ' := by
  obtain ⟨hnodup, hws⟩ := he
  refine ⟨_, ?_, h.setEmitter (s := { σ.emitter with
    nwWlq := σ.emitter.nwWlq + ws.length
    activatedWorker := fun v => σ.emitter.activatedWorker v || decide (v ∈ ws) }) rfl rfl rfl rfl rfl,
    rfl, rfl, rfl, rfl, rfl⟩
  rw [WlqState.exec, addWorkers, Sched.activate_spec hnodup hws]
  rfl

/-- Workers are de-activated. -/
theorem Inv.remove (h : σ.Inv c plan) {ws : List (Fin N)} (he : σ.Possible plan (.remove ws)) :
    ∃ σ', σ.exec c (.remove ws) = .ok σ' ∧ σ'.Inv c plan ∧ Reconfigured σ σ' := by
  obtain ⟨hnodup, hws⟩ := he
  refine ⟨_, ?_, h.setEmitter (s := { σ.emitter with
    nwWlq := σ.emitter.nwWlq - ws.length
    activatedWorker := fun v => σ.emitter.activatedWorker v && !decide (v ∈ ws) }) rfl rfl rfl rfl rfl,
    rfl, rfl, rfl, rfl, rfl⟩
  rw [WlqState.exec, removeWorkers, Sched.deactivate_spec hnodup hws]
  rfl

/-- **The collector receives a window.** -/
theorem Inv.collect (h : σ.Inv c plan) {w : Fin N} (he : σ.Possible plan (.collect w)) :
    ∃ σ', σ.exec c (.collect w) = .ok σ' ∧ σ'.Inv c plan ∧ σ'.inFlight = σ.inFlight ∧
      σ'.delivered = σ.delivered ∧ σ'.emitter = σ.emitter := by
  cases hq : σ.toCollector w with
  | nil => exact absurd hq he
  | cons a as =>
      obtain ⟨k, rfl⟩ := h.collected.wins w a (by rw [hq]; exact List.mem_cons_self)
      have hpop := contents_pop hq
      -- a window is executed once, so the one in the queue has not been received
      have hnew : σ.collector.received k = false := by
        have hcount := h.collected.received k
        have hdone := h.executed k
        rw [hpop, Multiset.count_add, Multiset.count_singleton_self] at hcount
        have hle : (σ.emitter.slot k).done ≤ 1 := by
          cases σ.emitter.slot k <;> simp [WinSlot.done]
        by_contra hrec
        rw [if_pos (by simpa using hrec)] at hcount
        omega
      obtain ⟨c', out, hsvc, hordered, hreceived⟩ := h.collected.ordered.receive hnew
      refine ⟨{ σ with
        toCollector := Function.update σ.toCollector w as
        collector := c'
        client := σ.client ++ out }, ?_, ⟨h.planned, h.core, h.comm, h.created, h.executed, h.folded,
        h.collected.pop hq hnew hordered hreceived⟩, rfl, rfl, rfl⟩
      rw [WlqState.exec]
      simp only [hq]
      rw [h.folded.id, hsvc]
      rfl

/-- **No event fails, and every event keeps the invariant.** -/
theorem Inv.step (h : σ.Inv c plan) (hsp : 1 ≤ c.sp) (hle : c.sp ≤ c.wp) {e : WlqEvent N R}
    (he : σ.Possible plan e) : ∃ σ', WlqState.exec c σ e = .ok σ' ∧ σ'.Inv c plan := by
  -- each event has its own specification above
  cases e with
  | arrive r =>
      obtain ⟨σ', hrun, hinv, -⟩ := h.arrive hsp hle he
      exact ⟨σ', hrun, hinv⟩
  | exec w =>
      obtain ⟨σ', hrun, hinv, -⟩ := h.exec he
      exact ⟨σ', hrun, hinv⟩
  | feedback w =>
      obtain ⟨σ', s, hrun, hinv, -⟩ := h.feedback he
      exact ⟨σ', hrun, hinv⟩
  | eos =>
      obtain ⟨σ', s, hrun, hinv, -⟩ := h.eos
      exact ⟨σ', hrun, hinv⟩
  | add ws =>
      obtain ⟨σ', hrun, hinv, -⟩ := h.add he
      exact ⟨σ', hrun, hinv⟩
  | remove ws =>
      obtain ⟨σ', hrun, hinv, -⟩ := h.remove he
      exact ⟨σ', hrun, hinv⟩
  | collect w =>
      obtain ⟨σ', hrun, hinv, -⟩ := h.collect he
      exact ⟨σ', hrun, hinv⟩

end WlqState

end ElasticPPQ
