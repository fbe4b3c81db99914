import ElasticPPQ.Wlq.WindowInv

/-! # What the WLQ emitter does with a message

The emitter keeps the invariants of all the windows and the number of pending tasks (`Core`). For an
arriving results set and for a feedback: no access fails, the windows stay as they have to be, and
what each of them holds, finalizes and awaits changes as the message and the tasks sent say
(`Reacted`). -/

namespace ElasticPPQ

variable {N : Nat} {R : Type}

/-- The tasks of window `k` among those sent. -/
def tasksFor (sent : List (Fin N × WTask)) (k : Nat) : List WTask :=
  (sent.map Prod.snd).filter fun t => t.winId = k

/-- The windows of the tasks lie below a bound: each task is counted in its window. -/
theorem sum_length_tasksFor {sent : List (Fin N × WTask)} {K : Nat}
    (h : ∀ k, K ≤ k → tasksFor sent k = []) :
    ∑ k ∈ Finset.range K, (tasksFor sent k).length = sent.length := by
  -- induction on the tasks sent, each of which is for one window
  induction sent with
  | nil => simp [tasksFor]
  | cons x sent ih =>
      have hcons : ∀ k, tasksFor (x :: sent) k
          = (if x.2.winId = k then [x.2] else []) ++ tasksFor sent k := by
        intro k
        rw [tasksFor, List.map_cons, List.filter_cons, tasksFor]
        by_cases hk : x.2.winId = k
        · simp [hk]
        · simp [hk]
      have hlt : x.2.winId < K := by
        by_contra hge
        have hnil := h x.2.winId (Nat.not_lt.mp hge)
        rw [hcons, if_pos rfl] at hnil
        exact List.cons_ne_nil _ _ hnil
      have hih := ih fun k hk => (List.append_eq_nil_iff.mp ((hcons k).symm.trans (h k hk))).2
      -- the task counts for its window and for no other
      have hone : ∑ k ∈ Finset.range K, (if x.2.winId = k then [x.2] else []).length = 1 := by
        rw [Finset.sum_eq_single x.2.winId]
        · simp
        · intro k _ hk
          simp [Ne.symm hk]
        · intro hk
          exact absurd (Finset.mem_range.mpr hlt) hk
      simp only [hcons, List.length_append, Finset.sum_add_distrib, hih, hone, List.length_cons]
      omega

/-- A window that is not open sends nothing. -/
theorem DispatchMove.unopened {ts : List WTask} {slot' : WinSlot}
    (h : DispatchMove .unopened ts slot') : ts = [] ∧ slot' = .unopened := by
  obtain ⟨us, slot₁, ms, hu, hm, rfl⟩ := h
  cases hu
  cases hm
  exact ⟨rfl, rfl⟩

namespace WlqEmitter

/-- **The windows and the pending tasks of the emitter**, where `T k` are the tasks of window `k` in
flight. -/
structure Core (c : WlqParams) (plan : Multiset Nat) (delivered : List (Rset R))
    (s : WlqEmitter N) (T : Nat → Multiset WTask) : Prop where
  control : ∀ k, Control c plan delivered k (s.slot k) (T k)
  pend : ∀ K, s.firstWinId + s.descrSet.length ≤ K →
    s.nPendingtasks = ∑ k ∈ Finset.range K, npend (s.slot k) (T k)

/-- What the windows hold, how many have been finalized and how many await the execution of their
finalizing task, before and after a message: the results sets `new k` have come in. -/
structure Reacted (s : WlqEmitter N) (T : Nat → Multiset WTask) (s' : WlqEmitter N)
    (T' : Nat → Multiset WTask) (new : Nat → Multiset Addr) (sent : List (Fin N × WTask)) :
    Prop where
  held : ∀ k, held (s'.slot k) (T' k) = held (s.slot k) (T k) + new k
  done : ∀ k, (s'.slot k).done = (s.slot k).done + (tasksFor sent k).countP fun t => t.finalize
  awaited : ∀ k, awaited (T' k) = awaited (T k) + (tasksFor sent k).countP fun t => t.finalize
  fresh : ∀ t ∈ sent.map Prod.snd, t.p2 ≠ none

variable {c : WlqParams} {plan : Multiset Nat} {delivered : List (Rset R)} {s s' : WlqEmitter N}
  {T : Nat → Multiset WTask} {sent : List (Fin N × WTask)}

/-- The descriptors are labelled from the first open window on. -/
theorem Core.labelled (h : Core c plan delivered s T) : Labelled s.firstWinId s.descrSet := by
  intro k wd hwd
  have hk := h.control k
  rw [slot, hwd] at hk
  exact Opened.id hk

/-- The invariant speaks of the slots and of the pending tasks only. -/
theorem Core.congr (h : Core c plan delivered s T) (hslot : ∀ k, s'.slot k = s.slot k)
    (hbound : s'.firstWinId + s'.descrSet.length = s.firstWinId + s.descrSet.length)
    (hpend : s'.nPendingtasks = s.nPendingtasks) : Core c plan delivered s' T := by
  refine ⟨fun k => hslot k ▸ h.control k, fun K hK => ?_⟩
  rw [hpend, h.pend K (hbound ▸ hK)]
  simp only [hslot]

/-! ## Sending tasks -/

/-- Sending tasks keeps the invariant. -/
theorem Core.sentTasks (h : Core c plan delivered s T) (hplan : Planned plan delivered)
    (hs : SentTasks s s' sent)
    (hmv : ∀ k, DispatchMove (s.slot k) (tasksFor sent k) (s'.slot k)) :
    Core c plan delivered s' (fun k => T k + tasksFor sent k) ∧
      Reacted s T s' (fun k => T k + tasksFor sent k) (fun _ => 0) sent := by
  have hall := fun k => (h.control k).dispatchMove hplan (hmv k)
  refine ⟨⟨fun k => (hall k).1, fun K hK => ?_⟩, ⟨fun k => ?_, fun k => (hmv k).done,
    fun k => (hmv k).awaited (T k), fun t ht => (hmv t.winId).fresh
      (List.mem_filter.mpr ⟨ht, decide_eq_true rfl⟩)⟩⟩
  -- each task sent was pending before, so the counter falls by their number
  · rw [hs.firstWinId, hs.length] at hK
    have hnil : ∀ k, K ≤ k → tasksFor sent k = [] := by
      intro k hk
      have := hmv k
      rw [slot, slotAt_of_le (hK.trans hk)] at this
      exact (DispatchMove.unopened this).1
    have hsum : ∑ k ∈ Finset.range K, (npend (s'.slot k) (T k + tasksFor sent k)
        + (tasksFor sent k).length) = ∑ k ∈ Finset.range K, npend (s.slot k) (T k) :=
      Finset.sum_congr rfl fun k _ => (hall k).2.2
    rw [Finset.sum_add_distrib, sum_length_tasksFor hnil, ← h.pend K hK] at hsum
    rw [hs.nPendingtasks]
    omega
  · rw [add_zero]
    exact (hall k).2.1

/-- Tasks are found and scheduled for all the idle workers. -/
theorem Core.dispatch (h : Core c plan delivered s T) (hplan : Planned plan delivered) :
    ∃ ts s₁ s' sent, s.getWTasksToSchedule s.getNumIdleWorkers = (ts, s₁) ∧
      scheduleAll ts s₁ = .ok (s', sent) ∧ SentTasks s s' sent ∧
      (∀ k, DispatchMove (s.slot k) (tasksFor sent k) (s'.slot k)) ∧
      (0 < s.getNumIdleWorkers → ∀ k wd, s.slot k = .opened wd → wd.isBusy = false →
        wd.pendingQueue ≠ [] → sent ≠ []) := by
  obtain ⟨ts, ds, hfind, hlen, hle, hsch, hmv, hne⟩ := getWTasksToSchedule_spec h.labelled
    (fun k => (h.control k).lastPending hplan) s.getNumIdleWorkers
  -- the picks change the descriptors only, the workers are still to be assigned
  obtain ⟨s₁, hs₁⟩ : ∃ s₁ : WlqEmitter N, s₁ = { s with descrSet := ds } := ⟨_, rfl⟩
  have hidle : s₁.getNumIdleWorkers = s.getNumIdleWorkers := by rw [hs₁]; rfl
  rw [← hs₁] at hfind hsch
  obtain ⟨s', sent, hrun, hsnd, hs, hslot⟩ := scheduleAll_spec hsch (hle.trans hidle.ge)
  refine ⟨ts, s₁, s', sent, hfind, hrun, ?_, fun k => ?_, fun hpos k wd hwd hb hq hnil => ?_⟩
  · rw [hs₁] at hs
    exact ⟨⟨hs.eosReceived, hs.activatedWorker, hs.wlqTerminated, hs.nReadyWorkers, hs.nodup,
      hs.idle, hs.notReady, hs.ready⟩, hs.firstWinId, hs.length.trans hlen, hs.nPendingtasks⟩
  · rw [tasksFor, hsnd, hslot, hs₁]
    exact hmv k
  · rw [hnil, List.map_nil] at hsnd
    exact hne hpos k wd hwd hb hq hsnd.symm

/-! ## A results set arrives -/

/-- The windows of an arriving pane are opened. -/
theorem Core.openWindows (h : Core c plan delivered s T) (hsp : 1 ≤ c.sp) (hle : c.sp ≤ c.wp)
    {p : Nat} (hnot : ∀ k, InWindow c.wp c.sp k p → s.slot k ≠ .finalized) :
    ∃ ds, s.openWindows c.wp c.sp (lastWin c.sp p) = .ok { s with descrSet := ds } ∧
      Core c plan delivered { s with descrSet := ds } T ∧
      (∀ k, (slotAt s.firstWinId ds k).pending = (s.slot k).pending ∧
        (slotAt s.firstWinId ds k).done = (s.slot k).done) ∧
      ∀ k, InWindow c.wp c.sp k p → ∃ wd, slotAt s.firstWinId ds k = .opened wd := by
  -- the last window of the pane is not finalized, so it is not below the first one in the deque
  have hfirst : s.firstWinId ≤ lastWin c.sp p := by
    by_contra hlt
    exact hnot _ (inWindow_lastWin hsp hle p) (if_pos (Nat.not_le.mp hlt))
  obtain ⟨ds, hrun, hlen, hopen, hslot⟩ := openWindows_eq hfirst c.wp c.sp
  have hcontrol : ∀ k, Control c plan delivered k (slotAt s.firstWinId ds k) (T k) ∧
      (slotAt s.firstWinId ds k).pending = (s.slot k).pending ∧
      (slotAt s.firstWinId ds k).done = (s.slot k).done := by
    intro k
    have hk := h.control k
    -- a slot is as before, or has just been opened
    rcases hslot k with hsame | ⟨hun, hnew⟩
    · rw [hsame]
      exact ⟨hk, rfl, rfl⟩
    · rw [hun] at hk ⊢
      rw [hnew]
      exact ⟨hk.open (by omega), rfl, rfl⟩
  refine ⟨ds, hrun, ⟨fun k => (hcontrol k).1, fun K hK => ?_⟩, fun k => (hcontrol k).2,
    fun k hk => ?_⟩
  · have hK : s.firstWinId + ds.length ≤ K := hK
    show s.nPendingtasks = ∑ k ∈ Finset.range K, npend (slotAt s.firstWinId ds k) (T k)
    simp only [npend, (hcontrol _).2.1]
    exact h.pend K (by omega)
  · have hne : slotAt s.firstWinId ds k ≠ .unopened :=
      hopen k ((le_lastWin_iff hsp _ _).mpr hk.1)
    have hdone := (hcontrol k).2.2
    have hnf := hnot k hk
    -- every window of the pane has a descriptor now, and none of them is finalized
    cases hds : slotAt s.firstWinId ds k with
    | unopened => exact absurd hds hne
    | finalized =>
        rw [hds] at hdone
        cases hs : s.slot k with
        | finalized => exact absurd hs hnf
        | unopened => rw [hs] at hdone; cases hdone
        | opened wd => rw [hs] at hdone; cases hdone
    | opened wd => exact ⟨wd, rfl⟩

/-- The results set is queued in the windows of its pane, which are open. -/
theorem Core.addPending (h : Core c plan delivered s T) (hsp : 1 ≤ c.sp) {r : Rset R}
    (hn : r.noInstances = 0 ∨ r.noInstances = plan.count r.id) (p : Addr)
    (hin : ∀ k, InWindow c.wp c.sp k r.id → ∃ wd, s.slot k = .opened wd) :
    ∃ ds n, s.addPending p r.id r.noInstances (List.range' (firstWin c.wp c.sp r.id)
        (lastWin c.sp r.id + 1 - firstWin c.wp c.sp r.id))
          = .ok { s with descrSet := ds, nPendingtasks := n } ∧
      Core c plan (delivered ++ [r]) { s with descrSet := ds, nPendingtasks := n } T ∧
      ∀ k, (slotAt s.firstWinId ds k).done = (s.slot k).done ∧
        held (slotAt s.firstWinId ds k) (T k)
          = held (s.slot k) (T k) + (if InWindow c.wp c.sp k r.id then {p} else 0) ∧
        (InWindow c.wp c.sp k r.id → ∃ wd, slotAt s.firstWinId ds k = .opened wd ∧
          wd.pendingQueue ≠ []) := by
  obtain ⟨ks, hks⟩ : ∃ ks, ks = List.range' (firstWin c.wp c.sp r.id)
    (lastWin c.sp r.id + 1 - firstWin c.wp c.sp r.id) := ⟨_, rfl⟩
  have hmem : ∀ k, k ∈ ks ↔ InWindow c.wp c.sp k r.id := by
    rw [hks]
    exact mem_range_windows hsp r.id
  have hnodup : ks.Nodup := hks ▸ List.nodup_range'
  have hopened : ∀ k wd, s.slot k = .opened wd → Opened c plan delivered k wd (T k) := by
    intro k wd hwd
    have hk := h.control k
    rwa [hwd] at hk
  have htable : ∀ k ∈ ks, ∃ wd, s.slot k = .opened wd ∧ wd.firstPaneId ≤ r.id ∧
      r.id - wd.firstPaneId < wd.cntIns.length := by
    intro k hk
    obtain ⟨wd, hwd⟩ := hin k ((hmem k).mp hk)
    have ho := hopened k wd hwd
    obtain ⟨hpl, hpr⟩ := (hmem k).mp hk
    refine ⟨wd, hwd, ?_, ?_⟩
    · rw [ho.firstPaneId]
      exact hpl
    · rw [ho.firstPaneId, ho.cntIns, countTable, List.length_map, List.length_range]
      omega
  obtain ⟨ds, hrun, hlen, hout, hadd⟩ := addPending_eq (p := p) hnodup htable
  -- the windows of the pane receive the results set, and the others stay as they are
  have hfinal : ∀ k, slotAt s.firstWinId ds k = s.slot k ∧ ¬ InWindow c.wp c.sp k r.id ∨
      ∃ wd, InWindow c.wp c.sp k r.id ∧ s.slot k = .opened wd ∧
        slotAt s.firstWinId ds k = .opened (wd.receive p r.id r.noInstances) := by
    intro k
    by_cases hk : InWindow c.wp c.sp k r.id
    · obtain ⟨wd, hwd⟩ := hin k hk
      exact Or.inr ⟨wd, hk, hwd, hadd k ((hmem k).mpr hk) wd hwd⟩
    · exact Or.inl ⟨hout k fun h => hk ((hmem k).mp h), hk⟩
  refine ⟨ds, s.nPendingtasks + ks.length, ?_, ⟨fun k => ?_, fun K hK => ?_⟩,
    fun k => ⟨?_, ?_, fun hk => ?_⟩⟩
  · rw [← hks, hrun]
  · show Control c plan (delivered ++ [r]) k (slotAt s.firstWinId ds k) (T k)
    rcases hfinal k with ⟨hsame, hk⟩ | ⟨wd, hk, hwd, hnew⟩
    · rw [hsame]
      exact (h.control k).receive_of_not hk
    · rw [hnew]
      exact (hopened k wd hwd).receive hk hn p
  · -- one more pending results set in each of the windows
    replace hK : s.firstWinId + ds.length ≤ K := hK
    have hnpend : ∀ k, npend (slotAt s.firstWinId ds k) (T k)
        = npend (s.slot k) (T k) + if k ∈ ks then 1 else 0 := by
      intro k
      rw [npend, npend]
      rcases hfinal k with ⟨hsame, hk⟩ | ⟨wd, hk, hwd, hnew⟩
      · rw [hsame, if_neg fun h => hk ((hmem k).mp h), Nat.add_zero]
      · rw [hnew, if_pos ((hmem k).mpr hk), hwd]
        show (p :: wd.pendingQueue).length + _ = wd.pendingQueue.length + _ + 1
        rw [List.length_cons]
        omega
    have hones : (∑ k ∈ Finset.range K, if k ∈ ks then 1 else 0) = ks.length := by
      rw [← List.toFinset_card_of_nodup hnodup, ← Finset.card_filter]
      refine congrArg _ (Finset.ext fun k => ?_)
      rw [Finset.mem_filter, Finset.mem_range, List.mem_toFinset]
      refine ⟨fun hk => hk.2, fun hk => ⟨?_, hk⟩⟩
      by_contra hge
      obtain ⟨wd, hwd⟩ := hin k ((hmem k).mp hk)
      have := hadd k hk wd hwd
      rw [slotAt_of_le (hK.trans (Nat.not_lt.mp hge))] at this
      cases this
    show s.nPendingtasks + ks.length = ∑ k ∈ Finset.range K, npend (slotAt s.firstWinId ds k) (T k)
    simp only [hnpend, Finset.sum_add_distrib, hones]
    rw [h.pend K (by omega)]
  · rcases hfinal k with ⟨hsame, hk⟩ | ⟨wd, hk, hwd, hnew⟩
    · rw [hsame]
    · rw [hnew, hwd]
      rfl
  · rw [held, held]
    rcases hfinal k with ⟨hsame, hk⟩ | ⟨wd, hk, hwd, hnew⟩
    · rw [hsame, if_neg hk, add_zero]
    · rw [hnew, if_pos hk, hwd]
      have hq : (wd.receive p r.id r.noInstances).pendingQueue = p :: wd.pendingQueue := rfl
      exact held_cons hq (T k)
  · rcases hfinal k with ⟨-, hno⟩ | ⟨wd, -, -, hnew⟩
    · exact absurd hk hno
    · exact ⟨_, hnew, List.cons_ne_nil _ _⟩

/-- A results set is put into the pending queues of the windows of its pane, which are open by
then. -/
theorem Core.receive (h : Core c plan delivered s T) (hsp : 1 ≤ c.sp) (hle : c.sp ≤ c.wp)
    {r : Rset R} (hlt : (delivered.map Rset.id).count r.id < plan.count r.id)
    (hn : r.noInstances = 0 ∨ r.noInstances = plan.count r.id) (p : Addr) :
    ∃ s₁ ds n, s.openWindows c.wp c.sp (lastWin c.sp r.id) = .ok s₁ ∧
      s₁.addPending p r.id r.noInstances (List.range' (firstWin c.wp c.sp r.id)
        (lastWin c.sp r.id + 1 - firstWin c.wp c.sp r.id))
          = .ok { s with descrSet := ds, nPendingtasks := n } ∧
      Core c plan (delivered ++ [r]) { s with descrSet := ds, nPendingtasks := n } T ∧
      ∀ k, (slotAt s.firstWinId ds k).done = (s.slot k).done ∧
        held (slotAt s.firstWinId ds k) (T k)
          = held (s.slot k) (T k) + (if InWindow c.wp c.sp k r.id then {p} else 0) ∧
        (InWindow c.wp c.sp k r.id → ∃ wd, slotAt s.firstWinId ds k = .opened wd ∧
          wd.pendingQueue ≠ []) := by
  -- a pane with sets to come has no finalized window
  have hnot : ∀ k, InWindow c.wp c.sp k r.id → s.slot k ≠ .finalized :=
    fun k hk => (h.control k).ne_finalized hk hlt
  obtain ⟨ds₁, hrun₁, hcore₁, hsame, hin⟩ := h.openWindows hsp hle hnot
  obtain ⟨ds, n, hrun, hcore, hkeep⟩ := hcore₁.addPending hsp hn p hin
  refine ⟨_, ds, n, hrun₁, hrun, hcore, fun k => ?_⟩
  obtain ⟨hdone, hheld, hqueue⟩ := hkeep k
  refine ⟨hdone.trans (hsame k).2, ?_, hqueue⟩
  have hslot : held (slotAt s.firstWinId ds₁ k) (T k) = held (s.slot k) (T k) := by
    rw [held, held, (hsame k).1]
  rw [← hslot]
  exact hheld

/-- **A results set arrives.** -/
theorem Core.arrive (h : Core c plan delivered s T) (hsp : 1 ≤ c.sp) (hle : c.sp ≤ c.wp)
    (hplan : Planned plan delivered) {r : Rset R}
    (hlt : (delivered.map Rset.id).count r.id < plan.count r.id)
    (hn : r.noInstances = 0 ∨ r.noInstances = plan.count r.id) (p : Addr) :
    ∃ s' sent, s.arrive c.wp c.sp p r.id r.noInstances = .ok (s', sent) ∧
      Core c plan (delivered ++ [r]) s' (fun k => T k + tasksFor sent k) ∧ Assigned s s' sent ∧
      Reacted s T s' (fun k => T k + tasksFor sent k)
        (fun k => if InWindow c.wp c.sp k r.id then {p} else 0) sent ∧
      (0 < s.getNumIdleWorkers → (∀ k, T k = 0) → sent ≠ []) := by
  -- the set is entered into its windows, then as many tasks are sent as workers are idle
  obtain ⟨s₁, ds, n, hopen, hadd, hcore, hrec⟩ := h.receive hsp hle hlt hn p
  obtain ⟨s₂, hs₂⟩ : ∃ s₂ : WlqEmitter N, s₂ = { s with descrSet := ds, nPendingtasks := n } :=
    ⟨_, rfl⟩
  have hslot₂ : ∀ k, s₂.slot k = slotAt s.firstWinId ds k := fun k => by rw [hs₂]; rfl
  have hidle : s₂.getNumIdleWorkers = s.getNumIdleWorkers := by rw [hs₂]; rfl
  rw [← hs₂] at hadd hcore
  obtain ⟨ts, s₃, s', sent, hfind, hrun, hs, hmv, hne⟩ := hcore.dispatch (hplan.concat hlt)
  obtain ⟨hcore', hreact⟩ := hcore.sentTasks (hplan.concat hlt) hs hmv
  refine ⟨s'.dropFinalized, sent, ?_, ?_, ?_, ⟨fun k => ?_, fun k => ?_, hreact.awaited,
    hreact.fresh⟩, ?_⟩
  · simp only [WlqEmitter.arrive, hopen, hadd, bind, Except.bind, hfind, hrun]
  -- dropping the finalized descriptors at the front changes no window
  · refine hcore'.congr (slot_dropFinalized s') ?_ rfl
    have hlen := congrArg List.length
      (List.takeWhile_append_dropWhile (p := Option.isNone) (l := s'.descrSet))
    rw [List.length_append] at hlen
    show s'.firstWinId + _ + _ = _
    simp only [dropFinalized]
    omega
  · rw [hs₂] at hs
    exact ⟨hs.eosReceived, hs.activatedWorker, hs.wlqTerminated, hs.nReadyWorkers, hs.nodup, hs.idle,
      hs.notReady, hs.ready⟩
  · rw [slot_dropFinalized, hreact.held, add_zero, hslot₂]
    exact (hrec k).2.1
  · rw [slot_dropFinalized, hreact.done, hslot₂, (hrec k).1]
  -- with no task in flight the last window of the pane is idle, so a task is sent
  · intro hpos hT
    have hlast := inWindow_lastWin hsp hle r.id
    obtain ⟨wd, hwd, hq⟩ := (hrec _).2.2 hlast
    have ho := hcore.control (lastWin c.sp r.id)
    rw [hslot₂, hwd, hT] at ho
    have hbusy := Opened.busy ho
    refine hne (hidle ▸ hpos) _ wd ((hslot₂ _).trans hwd) ?_ hq
    by_contra hb
    rw [if_pos (by simpa using hb)] at hbusy
    cases hbusy

/-! ## A task comes back -/

/-- Window by window, the tasks in flight with one more task. -/
def withTask (T : Nat → Multiset WTask) (t : WTask) (k : Nat) : Multiset WTask :=
  T k + if t.winId = k then {t} else 0

/-- What a window holds with one task more in flight. -/
theorem held_withTask (slot : WinSlot) (T : Nat → Multiset WTask) (t : WTask) (k : Nat) :
    held slot (withTask T t k) = held slot (T k) + if t.winId = k then t.operands else 0 := by
  rw [withTask]
  split
  · exact held_add ..
  · rw [add_zero, add_zero]

/-- The descriptor is updated as the type of the task says, and the worker is ready. -/
theorem complete_eq {t : WTask} {slot' : WinSlot} (hmv : CompleteMove t (s.slot t.winId) slot')
    (w : Fin N) :
    ∃ ds, s.complete w t = .ok { s with
        descrSet := ds
        workerReady := Function.update s.workerReady w true
        nReadyWorkers := s.nReadyWorkers + 1 } ∧
      ds.length = s.descrSet.length ∧
      ∀ k, slotAt s.firstWinId ds k = if k = t.winId then slot' else s.slot k := by
  generalize hslot : s.slot t.winId = slot at hmv
  -- the last task of a window finds no descriptor, the others update it
  cases hmv with
  | finalize hty hfin =>
      refine ⟨s.descrSet, ?_, rfl, fun k => ?_⟩
      · simp [complete, hty, hfin, bind, Except.bind]
      · show s.slot k = _
        split
        · rename_i hk
          rw [hk, hslot]
        · rfl
  | update hty hfin wd =>
      obtain ⟨ds, hrun, hlen, hds⟩ := modifyDescr_eq hslot
        (f := fun wd => .ok { wd with isBusy := false }.incrementCompletedTask) rfl .null
      refine ⟨ds, ?_, hlen, hds⟩
      simp [complete, hty, hfin, hrun, bind, Except.bind]
  | merge hty hfin wd =>
      obtain ⟨ds, hrun, hlen, hds⟩ := modifyDescr_eq hslot
        (f := fun wd =>
          .ok { wd with pendingQueue := t.p1 :: wd.pendingQueue }.incrementCompletedTask) rfl .null
      refine ⟨ds, ?_, hlen, hds⟩
      simp [complete, hty, hrun, bind, Except.bind]

/-- A task comes back: its window takes note of it. -/
theorem Core.complete {t : WTask} (h : Core c plan delivered s (withTask T t)) (hp2 : t.p2 = none)
    (w : Fin N) :
    ∃ ds, s.complete w t = .ok { s with
        descrSet := ds
        workerReady := Function.update s.workerReady w true
        nReadyWorkers := s.nReadyWorkers + 1 } ∧
      Core c plan delivered { s with
        descrSet := ds
        workerReady := Function.update s.workerReady w true
        nReadyWorkers := s.nReadyWorkers + 1 } T ∧
      ∀ k, held (slotAt s.firstWinId ds k) (T k) = held (s.slot k) (withTask T t k) ∧
        (slotAt s.firstWinId ds k).done = (s.slot k).done ∧
        awaited (T k) = awaited (withTask T t k) := by
  have hown := h.control t.winId
  rw [withTask, if_pos rfl] at hown
  obtain ⟨slot', hmv, hcontrol, hheld, hnpend, hdone, hawait⟩ := hown.completeMove hp2
  obtain ⟨ds, hrun, hlen, hslot⟩ := complete_eq hmv w
  have hall : ∀ k, Control c plan delivered k (slotAt s.firstWinId ds k) (T k) ∧
      held (slotAt s.firstWinId ds k) (T k) = held (s.slot k) (withTask T t k) ∧
      npend (slotAt s.firstWinId ds k) (T k) = npend (s.slot k) (withTask T t k) ∧
      (slotAt s.firstWinId ds k).done = (s.slot k).done ∧
      awaited (T k) = awaited (withTask T t k) := by
    intro k
    rw [hslot]
    -- the task's own window, or one it does not concern
    by_cases hk : k = t.winId
    · subst hk
      rw [if_pos rfl, withTask, if_pos rfl]
      exact ⟨hcontrol, hheld, hnpend, hdone, hawait⟩
    · have hk' := h.control k
      rw [withTask, if_neg (Ne.symm hk), add_zero] at hk' ⊢
      rw [if_neg hk]
      exact ⟨hk', rfl, rfl, rfl, rfl⟩
  refine ⟨ds, hrun, ⟨fun k => (hall k).1, fun K hK => ?_⟩, fun k =>
    ⟨(hall k).2.1, (hall k).2.2.2⟩⟩
  show s.nPendingtasks = _
  replace hK : s.firstWinId + ds.length ≤ K := hK
  rw [h.pend K (hlen ▸ hK)]
  exact Finset.sum_congr rfl fun k _ => (hall k).2.2.1.symm

/-! ## The check for termination -/

/-- `s'` is `s` after a check for termination, by which workers may be woken up and the end of the stream be
broadcast. -/
structure Checked (s s' : WlqEmitter N) : Prop where
  firstWinId : s'.firstWinId = s.firstWinId
  descrSet : s'.descrSet = s.descrSet
  nPendingtasks : s'.nPendingtasks = s.nPendingtasks
  workerReady : s'.workerReady = s.workerReady
  nReadyWorkers : s'.nReadyWorkers = s.nReadyWorkers
  eosReceived : s'.eosReceived = s.eosReceived
  activatedWorker : ∀ w, s.activatedWorker w = true → s'.activatedWorker w = true
  wlqTerminated : s'.wlqTerminated = (s.wlqTerminated || s.terminates)
  noReturn : s'.noReturn = true → s.noReturn = true ∨ s.terminates = true

/-- What the check for termination changes. -/
theorem checked_checkTermination (s : WlqEmitter N) : Checked s s.checkTermination := by
  unfold checkTermination
  by_cases h : s.eosReceived = N ∧ s.nPendingtasks = 0 ∧ s.nReadyWorkers = N
  · rw [if_pos h]
    have hterm : s.terminates = true := decide_eq_true h
    exact ⟨rfl, rfl, rfl, rfl, rfl, rfl, fun _ _ => rfl, by rw [hterm, Bool.or_true], Or.inl⟩
  · rw [if_neg h]
    have hterm : s.terminates = false := decide_eq_false h
    exact ⟨rfl, rfl, rfl, rfl, rfl, rfl, fun _ hw => hw, by rw [hterm, Bool.or_false], Or.inl⟩

/-- The check at the end of `svc` differs in the missing `return` only. -/
theorem checked_endFeedback (s : WlqEmitter N) : Checked s s.endFeedback := by
  have h := checked_checkTermination s
  unfold endFeedback
  by_cases hterm : s.terminates = true
  · rw [if_pos hterm]
    exact ⟨h.firstWinId, h.descrSet, h.nPendingtasks, h.workerReady, h.nReadyWorkers, h.eosReceived,
      h.activatedWorker, h.wlqTerminated, fun _ => Or.inr hterm⟩
  · rw [if_neg hterm]
    have hno : s.terminates = false := Bool.eq_false_iff.mpr hterm
    exact ⟨rfl, rfl, rfl, rfl, rfl, rfl, fun _ hw => hw, by rw [hno, Bool.or_false], Or.inl⟩

/-- The check does not change its own outcome. -/
theorem Checked.terminates (h : Checked s s') : s'.terminates = s.terminates := by
  unfold WlqEmitter.terminates
  rw [h.eosReceived, h.nPendingtasks, h.nReadyWorkers]

/-- With no task in flight and something pending there is a window that is not busy and has a results
set pending. -/
theorem Core.exists_pending (h : Core c plan delivered s T) (hT : ∀ k, T k = 0)
    (hpos : s.nPendingtasks ≠ 0) :
    ∃ k wd, s.slot k = .opened wd ∧ wd.isBusy = false ∧ wd.pendingQueue ≠ [] := by
  rw [h.pend _ le_rfl] at hpos
  -- the counter is the sum over the windows, so one of them has a set pending
  obtain ⟨k, -, hk⟩ := Finset.exists_ne_zero_of_sum_ne_zero hpos
  rw [npend, hT k, merges_zero, Nat.add_zero] at hk
  cases hslot : s.slot k with
  | unopened =>
      rw [hslot] at hk
      exact absurd rfl hk
  | finalized =>
      rw [hslot] at hk
      exact absurd rfl hk
  | opened wd =>
      rw [hslot] at hk
      have ho := h.control k
      rw [hslot, hT] at ho
      -- with nothing in flight no window is busy
      have hbusy := Opened.busy ho
      refine ⟨k, wd, hslot, ?_, fun hnil => hk (by rw [WinSlot.pending, hnil]; rfl)⟩
      by_contra hb
      rw [if_pos (by simpa using hb)] at hbusy
      cases hbusy

/-- **A feedback is received.** -/
theorem Core.feedback {t : WTask} (h : Core c plan delivered s (withTask T t)) (hp2 : t.p2 = none)
    (hplan : Planned plan delivered) (w : Fin N) :
    ∃ s' sent, s.feedback w t = .ok (s'.endFeedback, sent) ∧
      Core c plan delivered s' (fun k => T k + tasksFor sent k) ∧
      Assigned { s with
        workerReady := Function.update s.workerReady w true
        nReadyWorkers := s.nReadyWorkers + 1 } s' sent ∧
      Reacted s (withTask T t) s' (fun k => T k + tasksFor sent k) (fun _ => 0) sent ∧
      (s.activatedWorker w = true → (∀ k, T k = 0) → s.nPendingtasks ≠ 0 → sent ≠ []) ∧
      (s.activatedWorker w = false → sent = []) ∧
      s'.nPendingtasks = s.nPendingtasks - sent.length := by
  obtain ⟨ds, hrun, hcore, hwin⟩ := h.complete hp2 w
  obtain ⟨s₁, hs₁⟩ : ∃ s₁ : WlqEmitter N, s₁ = { s with
        descrSet := ds
        workerReady := Function.update s.workerReady w true
        nReadyWorkers := s.nReadyWorkers + 1 } := ⟨_, rfl⟩
  have hslot₁ : ∀ k, s₁.slot k = slotAt s.firstWinId ds k := fun k => by rw [hs₁]; rfl
  have hact : s₁.activatedWorker = s.activatedWorker := by rw [hs₁]
  have hready : s₁.workerReady w = true := by rw [hs₁]; exact Function.update_self ..
  have hpend₁ : s₁.nPendingtasks = s.nPendingtasks := by rw [hs₁]
  rw [← hs₁] at hrun hcore
  -- the two outcomes: nothing is sent, or one task to the same worker
  have key : ∃ s' sent, s.feedback w t = .ok (s'.endFeedback, sent) ∧ SentTasks s₁ s' sent ∧
      (∀ k, DispatchMove (s₁.slot k) (tasksFor sent k) (s'.slot k)) ∧
      (s.activatedWorker w = true → (∀ k, T k = 0) → s.nPendingtasks ≠ 0 → sent ≠ []) ∧
      (s.activatedWorker w = false → sent = []) := by
    have hstay : ∀ {slot : WinSlot}, DispatchMove slot [] slot := fun {slot} =>
      ⟨[], slot, [], UpdateMove.stay _, MergeMove.stay _, rfl⟩
    cases hw : s.activatedWorker w with
    | false =>
        -- the worker has been removed, and gets no task
        refine ⟨s₁, [], ?_, SentTasks.nil s₁.descrSet rfl, fun k => hstay, (fun hc => by cases hc),
          fun _ => rfl⟩
        simp [WlqEmitter.feedback, hrun, bind, Except.bind, hact, hw]
    | true =>
        obtain ⟨ts, ds', hfind, hlen, hle, hsch, hmv, hne⟩ := getWTasksToSchedule_spec hcore.labelled
          (fun k => (hcore.control k).lastPending hplan) 1
        obtain ⟨s₂, hs₂⟩ : ∃ s₂ : WlqEmitter N, s₂ = { s₁ with descrSet := ds' } := ⟨_, rfl⟩
        rw [← hs₂] at hfind hsch
        rcases ts with _ | ⟨t', _ | ⟨t'', ts⟩⟩
        · -- no task has been found: with nothing in flight none is pending
          refine ⟨s₂, [], ?_, ?_, fun k => ?_, fun _ hT hp => ?_, fun _ => rfl⟩
          · simp [WlqEmitter.feedback, hrun, bind, Except.bind, hact, hw, hfind]
          · rw [hs₂]
            exact SentTasks.nil ds' hlen
          · rw [hs₂]
            exact hmv k
          · obtain ⟨k, wd, hwd, hb, hq⟩ := hcore.exists_pending hT (hpend₁ ▸ hp)
            exact absurd rfl (hne Nat.one_pos k wd hwd hb hq)
        · -- the task found is sent to the same worker
          obtain ⟨ds'', hrun'', hlen'', hslot''⟩ := schedule_eq (hsch.opened t' List.mem_cons_self)
            (hsch.merge t' List.mem_cons_self) w
          rw [hs₂] at hslot'' hlen''
          obtain ⟨s', hs'⟩ : ∃ s' : WlqEmitter N, s' = { s₁ with
            descrSet := ds''
            nPendingtasks := s₁.nPendingtasks - 1
            workerReady := Function.update s₁.workerReady w false
            nReadyWorkers := s₁.nReadyWorkers - 1 } := ⟨_, rfl⟩
          have hrun' : schedule t' w s₂ = .ok s' := by rw [hrun'', hs₂, hs']
          refine ⟨s', [(w, t')], ?_, ?_, fun k => ?_, fun _ _ _ => List.cons_ne_nil _ _,
            fun hc => by cases hc⟩
          · simp [WlqEmitter.feedback, hrun, bind, Except.bind, hact, hw, hfind, hrun']
          · rw [hs']
            refine SentTasks.single (s := s₁) ?_ t' ds'' (hlen''.trans hlen) s₁.lastW
            rw [isIdle, hact, hw, hready]
            rfl
          · have hk := hmv k
            have hfold : ([t'].filter fun t => t.winId = k).foldl (fun slot t => slot.schedule t)
                (slotAt s₁.firstWinId ds' k) = s'.slot k := by
              rw [hs']
              refine Eq.trans ?_ (hslot'' k).symm
              by_cases hk' : k = t'.winId
              · rw [if_pos hk', List.filter_cons, if_pos (by simp [hk'])]
                rfl
              · rw [if_neg hk', List.filter_cons, if_neg (by simp [Ne.symm hk'])]
                rfl
            rw [hfold] at hk
            exact hk
        · simp at hle
  obtain ⟨s', sent, hfb, hs, hmv, hne, hnone⟩ := key
  obtain ⟨hcore', hreact⟩ := hcore.sentTasks hplan hs hmv
  refine ⟨s', sent, hfb, hcore', ?_, ⟨fun k => ?_, fun k => ?_, fun k => ?_, hreact.fresh⟩, hne, hnone, ?_⟩
  · rw [hs₁] at hs
    exact ⟨hs.eosReceived, hs.activatedWorker, hs.wlqTerminated, hs.nReadyWorkers, hs.nodup, hs.idle,
      hs.notReady, hs.ready⟩
  · rw [hreact.held, hslot₁, (hwin k).1]
  · rw [hreact.done, hslot₁, (hwin k).2.1]
  · rw [hreact.awaited, (hwin k).2.2]
  · rw [hs.nPendingtasks, hpend₁]

end WlqEmitter

end ElasticPPQ
