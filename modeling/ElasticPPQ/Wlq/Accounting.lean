import ElasticPPQ.Wlq.Activation
import ElasticPPQ.Wlq.Finalization

/-! # The books of the WLQ emitter

The emitter counts its pending tasks and its ready workers in several places, and marks the windows
that are busy. In every state a run reaches the counters say what they should, a results set is never
in two places at once, and the end of the stream is broadcast once at most, when nothing is left. -/

namespace ElasticPPQ

open Channels WlqEmitter

variable {N : Nat} {τ R : Type}

/-! ## What a task uses -/

/-- The results sets that a task uses. -/
def WTask.addrs (t : WTask) : Multiset Addr := {t.p1} + t.p2.elim 0 fun a => {a}

/-- They are its operands and, for a `WIN_UPDATE` task, the results set of the window. -/
theorem WTask.addrs_eq (t : WTask) :
    t.addrs = t.operands + if t.type = .winUpdate then {t.p1} else 0 := by
  rw [addrs, operands]
  cases t.type with
  | winUpdate => simp [add_comm]
  | merge => simp

/-- The results sets that the tasks of window `k` use. -/
theorem bind_addrs {k : Nat} {T : Multiset WTask}
    (h : ∀ t ∈ T, t.type = .winUpdate → t.p1 = .win k) :
    T.bind WTask.addrs = T.bind WTask.operands + Multiset.replicate (updates T) (.win k) := by
  induction T using Multiset.induction with
  | empty => rfl
  | cons t T ih =>
      have hT := ih fun u hu => h u (Multiset.mem_cons_of_mem hu)
      rw [Multiset.cons_bind, Multiset.cons_bind, hT, t.addrs_eq, ← Multiset.singleton_add t T,
        updates_add, updates_singleton]
      by_cases hty : t.type = .winUpdate
      · rw [if_pos hty, if_pos hty, h t (Multiset.mem_cons_self t T) hty, Nat.add_comm,
          Multiset.replicate_succ, ← Multiset.singleton_add (Addr.win k)]
        abel
      · rw [if_neg hty, if_neg hty, add_zero, Nat.zero_add, add_assoc]

/-! ## Termination -/

namespace WlqState

/-- An event after which the emitter calls `checkTermination`. -/
def Checks : WlqEvent N R → Bool
  | .feedback _ => true
  | .eos => true
  | _ => false

variable [PrefQuery τ R]

/-- How often the end of the stream is broadcast to the workers during a run. -/
def broadcasts (c : WlqParams) : List (WlqEvent N R) → WlqState N R → Nat
  | [], _ => 0
  | e :: es, σ =>
      match exec c σ e with
      | .error _ => 0
      | .ok σ' => (if Checks e && σ'.emitter.terminates then 1 else 0) + broadcasts c es σ'

/-! ## The books -/

omit [PrefQuery τ R] in
/-- **The books are right.** -/
structure Accounted (σ : WlqState N R) : Prop where
  /-- The pending tasks: what the pending queues hold, and the `MERGE` tasks in flight. -/
  nPendingtasks : σ.emitter.nPendingtasks
    = (σ.emitter.descrSet.map fun d => d.elim 0 fun wd => wd.pendingQueue.length).sum
      + merges σ.inFlight
  /-- The ready workers, as marked. -/
  marked : σ.emitter.nReadyWorkers = (List.finRange N).countP σ.emitter.workerReady
  /-- A worker is ready unless it has a task. -/
  nReadyWorkers : σ.emitter.nReadyWorkers + σ.inFlight.card = N
  /-- A window is busy if and only if one `WIN_UPDATE` task of it is in flight. -/
  isBusy : ∀ wd, some wd ∈ σ.emitter.descrSet →
    (wd.isBusy = true ↔ updates (σ.tasksOf wd.id) = 1)
  /-- The results set of a window is given to one worker at most. -/
  alone : ∀ k, (σ.inFlight.bind WTask.addrs).count (.win k) ≤ 1
  /-- No results set is in two places of a window, pending or in a task in flight. -/
  apart : ∀ wd, some wd ∈ σ.emitter.descrSet →
    ((wd.pendingQueue : Multiset Addr) + (σ.tasksOf wd.id).bind WTask.addrs).Nodup

variable {c : WlqParams} {plan : Multiset Nat} {σ : WlqState N R}

/-- No window holds a results set twice: what it has been folded from would have arrived twice. -/
theorem Inv.nodup_heldBy (h : σ.Inv c plan) (k : Nat) : (σ.heldBy k).Nodup := by
  obtain ⟨F, hF⟩ := h.folded.trace
  have harr : (arrivals c (σ.delivered.map Rset.id) k).Nodup := List.nodup_range.filter _
  rw [Multiset.nodup_iff_count_le_one]
  intro a
  -- an address held twice would be a set with an arrival that is folded twice
  by_contra htwo
  have ha : a ∈ σ.heldBy k := Multiset.count_pos.mp (by omega)
  obtain ⟨i, hi⟩ := Multiset.exists_mem_of_ne_zero (hF.nonempty k a ha)
  obtain ⟨X, hX⟩ := Multiset.le_iff_exists_add.mp
    (Multiset.le_count_iff_replicate_le.mp (by omega : 2 ≤ (σ.heldBy k).count a))
  have hone := List.nodup_iff_count_le_one.mp harr i
  have hpos := Multiset.count_pos.mpr hi
  rw [← Multiset.coe_count, ← hF.law k, hX, Multiset.add_bind, Multiset.replicate_succ,
    Multiset.cons_bind, Multiset.replicate_one, Multiset.singleton_bind] at hone
  simp only [Multiset.count_add] at hone
  omega

/-- The windows of the tasks in flight are below the end of the deque of descriptors. -/
theorem Inv.winId_lt (h : σ.Inv c plan) {t : WTask} (ht : t ∈ σ.inFlight) :
    t.winId < σ.emitter.firstWinId + σ.emitter.descrSet.length := by
  by_contra hge
  have hk := h.core.control t.winId
  rw [slot, slotAt_of_le (Nat.not_lt.mp hge)] at hk
  have hmem : t ∈ σ.tasksOf t.winId := Multiset.mem_filter.mpr ⟨ht, rfl⟩
  rw [hk.1] at hmem
  exact Multiset.notMem_zero t hmem

/-- As many tasks are in flight as workers are not ready. -/
theorem Inv.card_inFlight (h : σ.Inv c plan) : σ.emitter.nReadyWorkers + σ.inFlight.card = N := by
  have hcard : σ.inFlight.card = ∑ w, if σ.emitter.workerReady w then 0 else 1 := by
    rw [inFlight, contents, contents, ← Finset.sum_add_distrib, Multiset.card_sum]
    refine Finset.sum_congr rfl fun w _ => ?_
    rw [Multiset.card_add, Multiset.coe_card, Multiset.coe_card]
    exact h.comm.load w
  rw [h.comm.nReady, hcard, Finset.card_filter, ← Finset.sum_add_distrib]
  calc ∑ w, ((if σ.emitter.workerReady w = true then 1 else 0)
        + if σ.emitter.workerReady w = true then 0 else 1)
      = ∑ _w : Fin N, 1 := Finset.sum_congr rfl fun w _ => by split <;> rfl
    _ = N := by simp

/-- The pending queues of the open windows, one after the other. -/
theorem sum_pending (first : Nat) (ds : List (Option WinDescr)) :
    ∑ k ∈ Finset.range (first + ds.length), (slotAt first ds k).pending.length
      = (ds.map fun d => d.elim 0 fun wd => wd.pendingQueue.length).sum := by
  -- induction on the descriptors, numbered from the first window on
  induction ds generalizing first with
  | nil =>
      refine Finset.sum_eq_zero fun k hk => ?_
      have hlt : k < first := Finset.mem_range.mp hk
      rw [slotAt, if_pos hlt]
      rfl
  | cons d ds ih =>
      have hone : ∀ k, (slotAt first (d :: ds) k).pending.length
          = (if k = first then d.elim 0 fun wd => wd.pendingQueue.length else 0)
            + (slotAt (first + 1) ds k).pending.length := by
        intro k
        rw [slotAt_cons]
        by_cases hk : k = first
        · subst hk
          rw [if_pos rfl, if_pos rfl, slotAt, if_pos (Nat.lt_succ_self k)]
          cases d <;> rfl
        · rw [if_neg hk, if_neg hk, Nat.zero_add]
      simp only [hone, Finset.sum_add_distrib]
      rw [List.length_cons, Nat.add_comm ds.length, ← Nat.add_assoc, ih, List.map_cons, List.sum_cons,
        Finset.sum_ite_eq', if_pos (Finset.mem_range.mpr (by omega))]

/-- The `MERGE` tasks, by window. -/
theorem sum_merges {X : Multiset WTask} {K : Nat} (h : ∀ t ∈ X, t.winId < K) :
    ∑ k ∈ Finset.range K, merges (windowOf X k) = merges X := by
  induction X using Multiset.induction with
  | empty => exact Finset.sum_eq_zero fun k _ => rfl
  | cons t X ih =>
      have hone : ∀ k, merges (windowOf (X + {t}) k)
          = merges (windowOf X k) + if t.winId = k then merges {t} else 0 := by
        intro k
        rw [windowOf_add_singleton, withTask, merges_add]
        split <;> rfl
      rw [← Multiset.singleton_add, add_comm, merges_add,
        ← ih fun u hu => h u (Multiset.mem_cons_of_mem hu)]
      simp only [hone, Finset.sum_add_distrib]
      rw [Finset.sum_ite_eq, if_pos (Finset.mem_range.mpr (h t (Multiset.mem_cons_self t X)))]

/-- The tasks in flight of window `k` use its results set once at most, and not what it holds pending.
-/
theorem Inv.nodup_addrs (h : σ.Inv c plan) (k : Nat) :
    (((σ.emitter.slot k).pending : Multiset Addr) + (σ.tasksOf k).bind WTask.addrs).Nodup ∧
      updates (σ.tasksOf k) ≤ 1 := by
  have hcontrol := h.core.control k
  have hle : updates (σ.tasksOf k) ≤ 1 := by
    -- a window unopened has no task, an opened one has an update if busy, a finalized one at most
    -- its last
    cases hslot : σ.emitter.slot k with
    | unopened =>
        rw [hslot] at hcontrol
        rw [hcontrol.1]
        exact Nat.zero_le 1
    | opened wd =>
        rw [hslot] at hcontrol
        rw [Opened.busy hcontrol]
        split
        · exact le_rfl
        · exact Nat.zero_le 1
    | finalized =>
        rw [hslot] at hcontrol
        obtain ⟨-, hT | ⟨t, hT, -⟩⟩ := hcontrol
        · rw [hT]
          exact Nat.zero_le 1
        · rw [hT, updates_singleton]
          split
          · exact le_rfl
          · exact Nat.zero_le 1
  refine ⟨?_, hle⟩
  rw [bind_addrs fun t ht => (hcontrol.winUpdate ht).1, ← add_assoc]
  show (σ.heldBy k + _).Nodup
  rw [Multiset.nodup_iff_count_le_one]
  intro a
  rw [Multiset.count_add, Multiset.count_replicate]
  have hone := Multiset.nodup_iff_count_le_one.mp (h.nodup_heldBy k) a
  -- the window's own address occurs as the target of its update only, any other is held once
  by_cases ha : .win k = a
  · subst ha
    have hno : (σ.heldBy k).count (.win k) = 0 :=
      Multiset.count_eq_zero.mpr fun hmem => h.folded.allocated k _ hmem
    rw [if_pos rfl, hno]
    omega
  · rw [if_neg ha]
    exact hone

/-- The results set of a window is used by its own tasks only. -/
theorem Inv.win_of_mem_addrs (h : σ.Inv c plan) {t : WTask} (ht : t ∈ σ.inFlight) {k : Nat}
    (hk : .win k ∈ t.addrs) : t.winId = k := by
  have hmem : t ∈ σ.tasksOf t.winId := Multiset.mem_filter.mpr ⟨ht, rfl⟩
  rw [t.addrs_eq] at hk
  rcases Multiset.mem_add.mp hk with hk | hk
  · have hheld : .win k ∈ σ.heldBy t.winId :=
      Multiset.mem_add.mpr (Or.inr (Multiset.mem_bind.mpr ⟨t, hmem, hk⟩))
    exact absurd (h.folded.allocated _ _ hheld) id
  · by_cases hty : t.type = .winUpdate
    · rw [if_pos hty, ((h.core.control t.winId).winUpdate hmem).1 hty] at hk
      exact (Addr.win.inj (Multiset.mem_singleton.mp hk)).symm
    · rw [if_neg hty] at hk
      exact absurd hk (Multiset.notMem_zero _)

/-- **The books are right in every state with the invariant.** -/
theorem Inv.accounted (h : σ.Inv c plan) : Accounted σ := by
  -- a descriptor in the deque is the one of the window it names
  have hopen : ∀ wd, some wd ∈ σ.emitter.descrSet → σ.emitter.slot wd.id = .opened wd := by
    intro wd hwd
    obtain ⟨i, hi⟩ := List.mem_iff_getElem?.mp hwd
    have hslot : σ.emitter.slot (σ.emitter.firstWinId + i) = .opened wd := by
      rw [slot, slotAt, if_neg (by omega), Nat.add_sub_cancel_left, hi]
      rfl
    have hcontrol := h.core.control (σ.emitter.firstWinId + i)
    rw [hslot] at hcontrol
    rw [Opened.id hcontrol]
    exact hslot
  refine ⟨?_, ?_, h.card_inFlight, fun wd hwd => ?_, fun k => ?_, fun wd hwd => ?_⟩
  · rw [h.core.pend _ le_rfl, ← sum_pending, ← sum_merges fun t ht => h.winId_lt ht,
      ← Finset.sum_add_distrib]
    rfl
  · rw [h.comm.nReady, List.countP_eq_length_filter, ← List.toFinset_card_of_nodup
      ((List.nodup_finRange N).filter _)]
    refine congrArg _ (Finset.ext fun w => ?_)
    simp
  · have hcontrol := h.core.control wd.id
    rw [hopen wd hwd] at hcontrol
    rw [Opened.busy hcontrol]
    cases wd.isBusy <;> simp
  -- the tasks of the window hold its address, no task of another window does
  · have hsplit : σ.inFlight.bind WTask.addrs
        = (σ.tasksOf k).bind WTask.addrs
          + (σ.inFlight.filter fun t => ¬ t.winId = k).bind WTask.addrs := by
      rw [← Multiset.add_bind, tasksOf, Multiset.filter_add_not]
    have hother : ((σ.inFlight.filter fun t => ¬ t.winId = k).bind WTask.addrs).count (.win k) = 0 := by
      refine Multiset.count_eq_zero.mpr fun hmem => ?_
      obtain ⟨t, ht, hk⟩ := Multiset.mem_bind.mp hmem
      obtain ⟨htf, hne⟩ := Multiset.mem_filter.mp ht
      exact hne (h.win_of_mem_addrs htf hk)
    rw [hsplit, Multiset.count_add, hother]
    exact Multiset.nodup_iff_count_le_one.mp
      (Multiset.nodup_of_le (Multiset.le_add_left _ _) (h.nodup_addrs k).1) _
  · have hnodup := (h.nodup_addrs wd.id).1
    rw [hopen wd hwd] at hnodup
    exact hnodup

/-! ## The end of the stream -/

omit [PrefQuery τ R] in
/-- Once the end of the stream has been broadcast nothing is pending or in flight. -/
structure Closed (σ : WlqState N R) : Prop where
  eosReceived : σ.emitter.wlqTerminated = true → σ.emitter.eosReceived = N
  nPendingtasks : σ.emitter.wlqTerminated = true → σ.emitter.nPendingtasks = 0
  inFlight : σ.emitter.wlqTerminated = true → σ.inFlight = 0

omit [PrefQuery τ R] in
/-- Events that neither add nor take tasks, nor touch the end of the stream. -/
theorem Closed.congr (hc : Closed σ) {σ' : WlqState N R}
    (hflight : σ'.inFlight.card = σ.inFlight.card)
    (heos : σ'.emitter.eosReceived = σ.emitter.eosReceived)
    (hpend : σ'.emitter.nPendingtasks = σ.emitter.nPendingtasks)
    (hterm : σ'.emitter.wlqTerminated = σ.emitter.wlqTerminated) : Closed σ' := by
  refine ⟨?_, ?_, fun ht => ?_⟩
  · rw [heos, hterm]
    exact hc.eosReceived
  · rw [hpend, hterm]
    exact hc.nPendingtasks
  · rw [← Multiset.card_eq_zero, hflight, Multiset.card_eq_zero]
    exact hc.inFlight (hterm ▸ ht)

/-- An emitter that has checked for termination, and had not terminated before. -/
theorem Inv.closed {σ' : WlqState N R} (h : σ'.Inv c plan) {s : WlqEmitter N}
    (hs : Checked s σ'.emitter) (hno : s.wlqTerminated = false) :
    Closed σ' ∧ σ'.emitter.wlqTerminated = σ'.emitter.terminates := by
  have hterm : σ'.emitter.wlqTerminated = σ'.emitter.terminates := by
    rw [hs.wlqTerminated, hs.terminates, hno, Bool.false_or]
  refine ⟨⟨fun ht => ?_, fun ht => ?_, fun ht => ?_⟩, hterm⟩
  · exact (of_decide_eq_true (hterm ▸ ht)).1
  · exact (of_decide_eq_true (hterm ▸ ht)).2.1
  · have hready : σ'.emitter.nReadyWorkers = N := (of_decide_eq_true (hterm ▸ ht)).2.2
    have hcard := h.card_inFlight
    rw [hready] at hcard
    exact Multiset.card_eq_zero.mp (by omega)

omit [PrefQuery τ R] in
/-- Before the last end of stream has come, the stage has not terminated. -/
theorem Closed.running (hc : Closed σ) (hlt : σ.emitter.eosReceived < N) :
    σ.emitter.wlqTerminated = false := by
  by_contra ht
  have := hc.eosReceived (by simpa using ht)
  omega

/-- **One event**: the end of the stream is broadcast if and only if the stage terminates in it. -/
theorem Closed.step (hc : Closed σ) (h : σ.Inv c plan) (hsp : 1 ≤ c.sp) (hle : c.sp ≤ c.wp)
    {e : WlqEvent N R} (he : σ.Possible plan e) :
    ∃ σ', exec c σ e = .ok σ' ∧ σ'.Inv c plan ∧ Closed σ' ∧
      (if Checks e && σ'.emitter.terminates then 1 else 0)
          + (if σ.emitter.wlqTerminated then 1 else 0)
        = if σ'.emitter.wlqTerminated then 1 else 0 := by
  -- only a feedback and an EOS check for the end, and only before it
  cases e with
  | arrive r =>
      obtain ⟨σ', hrun, hinv, -, heos, -, hterm⟩ := h.arrive hsp hle he
      have hno := hc.running he.1
      have hno' : σ'.emitter.wlqTerminated = false := hterm.trans hno
      refine ⟨σ', hrun, hinv, ⟨fun ht => ?_, fun ht => ?_, fun ht => ?_⟩, ?_⟩
      · exact absurd (hno'.symm.trans ht) Bool.false_ne_true
      · exact absurd (hno'.symm.trans ht) Bool.false_ne_true
      · exact absurd (hno'.symm.trans ht) Bool.false_ne_true
      · rw [hno, hno']
        rfl
  | exec w =>
      obtain ⟨σ', hrun, hinv, hcard, hemit, -⟩ := h.exec he
      refine ⟨σ', hrun, hinv, hc.congr hcard (by rw [hemit]) (by rw [hemit]) (by rw [hemit]), ?_⟩
      rw [hemit]
      exact Nat.zero_add _
  | feedback w =>
      obtain ⟨σ', s, hrun, hinv, hs, -, -, -, -, -, -, hsame⟩ := h.feedback he
      -- after the broadcast no task is in flight, so there is no feedback to take
      have hno : σ.emitter.wlqTerminated = false := by
        by_contra ht
        have hzero := hc.inFlight (by simpa using ht)
        obtain ⟨t, ts, hq⟩ := List.exists_cons_of_ne_nil he
        have hmem : t ∈ σ.inFlight := Multiset.mem_add.mpr
          (Or.inr (mem_contents.mpr ⟨w, by rw [hq]; exact List.mem_cons_self⟩))
        rw [hzero] at hmem
        exact Multiset.notMem_zero t hmem
      obtain ⟨hclosed, hterm⟩ := hinv.closed hs (hsame.trans hno)
      exact ⟨σ', hrun, hinv, hclosed, by rw [hterm, hno]; rfl⟩
  | eos =>
      obtain ⟨σ', s, hrun, hinv, hs, -, -, -, -, hsame⟩ := h.eos
      have hno := hc.running he.1
      obtain ⟨hclosed, hterm⟩ := hinv.closed hs (hsame.trans hno)
      exact ⟨σ', hrun, hinv, hclosed, by rw [hterm, hno]; rfl⟩
  | add ws =>
      obtain ⟨σ', hrun, hinv, hsame⟩ := h.add he
      refine ⟨σ', hrun, hinv, hc.congr (by rw [hsame.inFlight]) hsame.eosReceived hsame.nPendingtasks
        hsame.wlqTerminated, ?_⟩
      rw [hsame.wlqTerminated]
      exact Nat.zero_add _
  | remove ws =>
      obtain ⟨σ', hrun, hinv, hsame⟩ := h.remove he
      refine ⟨σ', hrun, hinv, hc.congr (by rw [hsame.inFlight]) hsame.eosReceived hsame.nPendingtasks
        hsame.wlqTerminated, ?_⟩
      rw [hsame.wlqTerminated]
      exact Nat.zero_add _
  | collect w =>
      obtain ⟨σ', hrun, hinv, hflight, -, hemit⟩ := h.collect he
      refine ⟨σ', hrun, hinv, hc.congr (by rw [hflight]) (by rw [hemit]) (by rw [hemit])
        (by rw [hemit]), ?_⟩
      rw [hemit]
      exact Nat.zero_add _

/-- A run: the broadcasts are counted by the flag of the emitter. -/
theorem Closed.run (hc : Closed σ) (h : σ.Inv c plan) (hsp : 1 ≤ c.sp) (hle : c.sp ≤ c.wp)
    {es : List (WlqEvent N R)} (hes : Run.Valid (exec c) (Enabled plan) es σ) :
    ∃ σ', Run.run (exec c) es σ = .ok σ' ∧ σ'.Inv c plan ∧ Closed σ' ∧
      broadcasts c es σ + (if σ.emitter.wlqTerminated then 1 else 0)
        = if σ'.emitter.wlqTerminated then 1 else 0 := by
  induction es generalizing σ with
  | nil => exact ⟨σ, rfl, h, hc, Nat.zero_add _⟩
  | cons e es ih =>
      obtain ⟨σ₁, hσ₁, hinv₁, hc₁, hone⟩ := hc.step h hsp hle hes.1.2
      obtain ⟨σ', hrun, hinv, hclosed, hcount⟩ := ih hc₁ hinv₁ ((Run.valid_cons hσ₁).mp hes).2
      refine ⟨σ', (Run.run_cons hσ₁).trans hrun, hinv, hclosed, ?_⟩
      rw [← hcount, ← hone, broadcasts, hσ₁]
      show _ + broadcasts c es σ₁ + _ = _
      omega

/-- **Task accounting.** In the state that a run leads to, whatever the order of arrivals, feedbacks,
end-of-stream messages and reconfigurations, the books are right; the end of the stream has been
broadcast once at most, and if it has nothing is pending or in flight. If the broadcast was the last
defined action of a call of `svc` the run has ended with it; a `return` is missing nowhere else. -/
theorem task_accounting (wp sp : Nat) (hsp : 1 ≤ sp) (hle : sp ≤ wp) (plan : Multiset Nat)
    (nw : Nat) (es : List (WlqEvent N R))
    (hes : Run.Valid (exec ⟨wp, sp⟩) (Enabled plan) es (init N R nw)) :
    ∃ σ, Run.run (exec ⟨wp, sp⟩) es (init N R nw) = .ok σ ∧ Accounted σ ∧
      broadcasts ⟨wp, sp⟩ es (init N R nw) ≤ 1 ∧
      (0 < broadcasts ⟨wp, sp⟩ es (init N R nw) →
        (∀ wd, some wd ∈ σ.emitter.descrSet → wd.pendingQueue = []) ∧ σ.inFlight = 0) ∧
      (σ.emitter.noReturn = true → broadcasts ⟨wp, sp⟩ es (init N R nw) = 1) := by
  have hclosed : Closed (init N R nw) :=
    ⟨(fun h => by cases h), (fun h => by cases h), (fun h => by cases h)⟩
  -- the broadcasts are counted along the run by whether the stage has terminated
  obtain ⟨σ, hrun, hinv, hc, hcount⟩ :=
    hclosed.run (c := ⟨wp, sp⟩) (inv_init _ plan nw) hsp hle hes
  rw [show (init N R nw).emitter.wlqTerminated = false from rfl, if_neg Bool.false_ne_true,
    Nat.add_zero] at hcount
  refine ⟨σ, hrun, hinv.accounted, ?_, fun hb => ?_, fun hno => ?_⟩
  · rw [hcount]
    split
    · exact le_rfl
    · exact Nat.zero_le 1
  · have hterm : σ.emitter.wlqTerminated = true := by
      by_contra hno
      rw [hcount, if_neg hno] at hb
      omega
    refine ⟨fun wd hwd => ?_, hc.inFlight hterm⟩
    -- the counter is 0 at the broadcast, and it counts pending sets and merges
    have hpend := hinv.accounted.nPendingtasks
    rw [hc.nPendingtasks hterm] at hpend
    have hzero := List.sum_eq_zero_iff.mp (Nat.add_eq_zero_iff.mp hpend.symm).1
      wd.pendingQueue.length (List.mem_map.mpr ⟨some wd, hwd, rfl⟩)
    exact List.eq_nil_of_length_eq_zero hzero
  · rw [hcount, if_pos (noReturn_run hrun hno)]

/-- Pane 0 has three partitions; two of them are merged while the window is busy. All the workers have been
removed when the last task comes back, after the last end-of-stream message: the end of the stream is
broadcast in `svc`. -/
def lateFeedbackRun : List (WlqEvent 2 (Build (Row ℚ 1))) :=
  [.arrive (resultsOf 0 0 0), .arrive (resultsOf 1 0 0), .add [0], .arrive (resultsOf 2 0 3), .exec 1,
    .exec 0, .feedback 0, .feedback 1, .exec 1, .arrive (resultsOf 3 1 1), .eos, .feedback 1, .exec 1,
    .exec 0, .feedback 0, .remove [0, 1], .eos, .feedback 1]

/-- The state after that run. -/
def lateFeedbackEnd : WlqState 2 (Build (Row ℚ 1)) :=
  Run.result (Run.run (exec ⟨2, 1⟩) lateFeedbackRun (init 2 _ 1)) (by decide +kernel)

/-- The books are right up to the broadcast, the last defined action of the run. -/
theorem task_accounting_witness :
    lateFeedbackEnd.emitter.noReturn = true ∧ Accounted lateFeedbackEnd ∧ lateFeedbackEnd.inFlight = 0 := by
  obtain ⟨σ, hrun, hbooks, -, hdone, hend⟩ := task_accounting 2 1 (by decide) (by decide) {0, 0, 0, 1} 1
    lateFeedbackRun (by decide +kernel)
  obtain rfl : σ = lateFeedbackEnd := Except.ok.inj (hrun.symm.trans (Run.eq_ok_result _ _))
  have hno : lateFeedbackEnd.emitter.noReturn = true := by decide +kernel
  have hone := hend hno
  exact ⟨hno, hbooks, (hdone (by omega)).2⟩

end WlqState

end ElasticPPQ
