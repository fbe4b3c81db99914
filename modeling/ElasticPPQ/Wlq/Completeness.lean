import ElasticPPQ.Wlq.Accounting

/-! # What the second stage has done when it terminates

The other half of finalization: nothing that could be finalized is left. A window of which all the
results sets have arrived keeps something to do until its finalizing task has been created
(`Opened.pursued`), so that at the end of the stream the windows finalized are exactly those whose
panes have all been delivered. The client gets the longest initial segment of them: the collector
never hands on a window that comes after a missing one. -/

namespace ElasticPPQ

open Channels WlqEmitter

variable {N : Nat} {τ R : Type}

/-! ## The collector -/

/-- Windows are handed on in order, up to the first one that has not been received. -/
theorem WlqCollector.Ordered.mem_client_iff {c : WlqCollector Addr} {client : List Addr}
    (h : c.Ordered client) (k : Nat) :
    .win k ∈ client ↔ ∀ j, j ≤ k → c.received j = true := by
  have hmem : .win k ∈ client ↔ k < c.nextWinId := by
    rw [h.client]
    simp
  -- the window awaited has not been received
  have hnext : c.received c.nextWinId = false := by
    simp only [received, Nat.sub_self, h.next]
    simp
  rw [hmem]
  constructor
  · intro hk j hj
    rw [received, decide_eq_true (hj.trans_lt hk)]
    rfl
  · intro hall
    by_contra hge
    exact absurd (hnext.symm.trans (hall _ (Nat.not_lt.mp hge))) Bool.false_ne_true

/-- With the channels empty the windows received are those that have been executed. -/
theorem Collected.received_iff {executed : List Nat} {toCollector : Fin N → List Addr}
    {collector : WlqCollector Addr} {client : List Addr}
    (h : Collected executed toCollector collector client) (hd : ∀ w, toCollector w = []) (k : Nat) :
    collector.received k = true ↔ k ∈ executed := by
  have hcount := h.received k
  have hzero : (contents toCollector).count (.win k) = 0 := by
    rw [Multiset.count_eq_zero]
    intro hmem
    obtain ⟨w, hw⟩ := mem_contents.mp hmem
    rw [hd w] at hw
    exact absurd hw List.not_mem_nil
  rw [hzero, Nat.zero_add] at hcount
  rw [← List.count_pos_iff, hcount]
  cases collector.received k <;> simp

namespace WlqState

variable [PrefQuery τ R] {c : WlqParams} {plan : Multiset Nat} {σ σ' : WlqState N R}

/-! ## What has come with the results sets -/

omit [PrefQuery τ R] in
/-- Once all the results sets of a pane have been delivered, so has the number of them; and once the
stream has ended everything has been delivered. -/
structure Told (plan : Multiset Nat) (σ : WlqState N R) : Prop where
  known : ∀ p, 0 < plan.count p → σ.deliveredIds.count p = plan.count p → Known σ.delivered p
  arrived : σ.emitter.eosReceived = N → (σ.deliveredIds : Multiset Nat) = plan

/-- Nothing has been delivered yet. -/
theorem told_init (plan : Multiset Nat) {nw : Nat} (hpos : 0 < nw) (hle : nw ≤ N) :
    Told plan (init N R nw) where
  known := by
    intro p hp hall
    have hzero : 0 = plan.count p := hall
    omega
  arrived := fun h => absurd h (Nat.ne_of_lt (hpos.trans_le hle))

omit [PrefQuery τ R] in
/-- Events that deliver nothing, and do not end the stream. -/
theorem Told.congr (h : Told plan σ) (hdel : σ'.delivered = σ.delivered)
    (heos : σ'.emitter.eosReceived = σ.emitter.eosReceived) : Told plan σ' := by
  refine ⟨?_, ?_⟩
  · rw [deliveredIds, hdel]
    exact h.known
  · rw [deliveredIds, hdel, heos]
    exact h.arrived

omit [PrefQuery τ R] in
/-- A results set arrives: the last one of a pane tells the number of them, if no other one has. -/
theorem Told.arrive (h : Told plan σ) {r : Rset R} (he : σ.Possible plan (.arrive r))
    (hdel : σ'.delivered = σ.delivered ++ [r])
    (heos : σ'.emitter.eosReceived = σ.emitter.eosReceived) : Told plan σ' := by
  obtain ⟨hlt, -, -, hlast⟩ := he
  refine ⟨fun p hp hall => ?_, fun hN => ?_⟩
  · rw [deliveredIds, hdel, List.map_append, List.count_append, List.map_singleton,
      List.count_singleton] at hall
    rw [hdel]
    -- the set that arrives is of this pane, or of another one
    by_cases hr : r.id = p
    · subst hr
      rw [if_pos (by simp)] at hall
      -- the last partition of a pane carries its count, or has come after one that does
      obtain ⟨r', hr', hid, hn⟩ := hlast hall
      refine ⟨r', ?_, hid, hn ▸ hp⟩
      rcases List.mem_cons.mp hr' with rfl | hr'
      · exact List.mem_append_right _ (List.mem_singleton_self r')
      · exact List.mem_append_left _ hr'
    · rw [if_neg (by simpa using hr), Nat.add_zero] at hall
      exact (known_concat _ _ _).mpr (Or.inl (h.known p hp hall))
  · rw [heos] at hN
    omega

/-- **One event.** -/
theorem Told.step (ht : Told plan σ) (h : σ.Inv c plan) (hsp : 1 ≤ c.sp) (hle : c.sp ≤ c.wp)
    {e : WlqEvent N R} (he : σ.Possible plan e) (hσ' : exec c σ e = .ok σ') : Told plan σ' := by
  -- only an arrival adds to what the stage has been told
  cases e with
  | arrive r =>
      obtain ⟨σ₁, hrun, -, -, heos, hdel, -⟩ := h.arrive hsp hle he
      cases hσ'.symm.trans hrun
      exact ht.arrive he hdel heos
  | eos =>
      obtain ⟨σ₁, s, hrun, -, -, -, hdel, heos, -⟩ := h.eos
      cases hσ'.symm.trans hrun
      refine ⟨?_, fun hN => ?_⟩
      · rw [deliveredIds, hdel]
        exact ht.known
      · rw [deliveredIds, hdel]
        exact he.2 (heos ▸ hN)
  | feedback w =>
      obtain ⟨σ₁, s, hrun, -, -, heos, hdel, -⟩ := h.feedback he
      cases hσ'.symm.trans hrun
      exact ht.congr hdel heos
  | exec w =>
      obtain ⟨σ₁, hrun, -, -, hemit, hdel⟩ := h.exec he
      cases hσ'.symm.trans hrun
      exact ht.congr hdel (by rw [hemit])
  | add ws =>
      obtain ⟨σ₁, hrun, -, hsame⟩ := h.add he
      cases hσ'.symm.trans hrun
      exact ht.congr hsame.delivered hsame.eosReceived
  | remove ws =>
      obtain ⟨σ₁, hrun, -, hsame⟩ := h.remove he
      cases hσ'.symm.trans hrun
      exact ht.congr hsame.delivered hsame.eosReceived
  | collect w =>
      obtain ⟨σ₁, hrun, -, -, hdel, hemit⟩ := h.collect he
      cases hσ'.symm.trans hrun
      exact ht.congr hdel (by rw [hemit])

/-! ## Nothing is left undone -/

/-- The number of pending tasks of an open window. -/
theorem Inv.npend_eq_zero (h : σ.Inv c plan) (hpend : σ.emitter.nPendingtasks = 0) (k : Nat) :
    npend (σ.emitter.slot k) (σ.tasksOf k) = 0 := by
  obtain ⟨K, hK⟩ : ∃ K, K = σ.emitter.firstWinId + σ.emitter.descrSet.length + k + 1 := ⟨_, rfl⟩
  have hsum := h.core.pend K (by omega)
  rw [hpend] at hsum
  exact Finset.sum_eq_zero_iff.mp hsum.symm k (Finset.mem_range.mpr (by omega))

/-- **With nothing pending and nothing in flight every complete window has been finalized.** -/
theorem Inv.mem_executed_iff (h : σ.Inv c plan) (ht : Told plan σ) (hwp : 0 < c.wp)
    (hpend : σ.emitter.nPendingtasks = 0) (hflight : σ.inFlight = 0) (k : Nat) :
    k ∈ σ.executed ↔ Complete c plan σ.deliveredIds k := by
  refine ⟨fun hk => (h.of_mem_executed hk).1, fun hcomplete => ?_⟩
  have hcontrol := h.core.control k
  have hnone : σ.tasksOf k = 0 := by
    rw [tasksOf, hflight]
    rfl
  have hinformed : Informed c plan σ.delivered k := fun p hp =>
    ⟨(hcomplete p hp).1, ht.known p (hcomplete p hp).2 (hcomplete p hp).1⟩
  cases hslot : σ.emitter.slot k with
  | unopened =>
      -- something has arrived for a complete window
      rw [hslot] at hcontrol
      have hin : InWindow c.wp c.sp k (c.sp * k + 0) := ⟨le_rfl, by omega⟩
      exact absurd (hinformed _ hin).2 (not_known_of_arrivals hcontrol.2 hwp)
  | opened wd =>
      -- it would have something pending, or being merged
      rw [hslot] at hcontrol
      have hleft := Opened.pursued hcontrol hinformed
      have hzero := h.npend_eq_zero hpend k
      rw [hslot] at hzero
      have hzero : wd.pendingQueue.length + merges (σ.tasksOf k) = 0 := hzero
      omega
  | finalized =>
      have hexec := h.executed k
      rw [hslot, hnone] at hexec
      have hone : σ.executed.count k + 0 = 1 := hexec
      exact List.count_pos_iff.mp (by omega)

/-- The windows all of whose panes are in the plan, up to window `k`. -/
def Covered (wp sp : Nat) (plan : Multiset Nat) (k : Nat) : Prop :=
  ∀ p, InWindow wp sp k p → p ∈ plan

/-- What the stage has done when it terminates: the windows finalized are those whose panes have all
been delivered, and the client gets the windows before the first one that has not been finalized. -/
structure Finished (wp sp : Nat) (plan : Multiset Nat) (σ : WlqState N R) : Prop where
  executed : ∀ k, k ∈ σ.executed ↔ Covered wp sp plan k
  client : (∀ w, σ.toCollector w = []) →
    ∀ k, .win k ∈ σ.client ↔ ∀ j, j ≤ k → Covered wp sp plan j

/-- The stage has terminated: whatever was to be done has been done. -/
theorem Inv.finished (h : σ.Inv c plan) (ht : Told plan σ) (hc : Closed σ) (hwp : 0 < c.wp)
    (hterm : σ.emitter.wlqTerminated = true) : Finished c.wp c.sp plan σ := by
  have hall := ht.arrived (hc.eosReceived hterm)
  have hcomplete : ∀ k, Complete c plan σ.deliveredIds k ↔ Covered c.wp c.sp plan k := by
    intro k
    refine forall_congr' fun p => forall_congr' fun _ => ?_
    rw [← hall, Multiset.coe_count, ← Multiset.count_pos, Multiset.coe_count]
    exact and_iff_right rfl
  have hexec : ∀ k, k ∈ σ.executed ↔ Covered c.wp c.sp plan k := fun k =>
    (h.mem_executed_iff ht hwp (hc.nPendingtasks hterm) (hc.inFlight hterm) k).trans (hcomplete k)
  refine ⟨hexec, fun hd k => ?_⟩
  rw [h.collected.ordered.mem_client_iff]
  refine forall_congr' fun j => forall_congr' fun _ => ?_
  rw [h.collected.received_iff hd, hexec]

/-- A run keeps the invariants. -/
theorem Told.run (ht : Told plan σ) (h : σ.Inv c plan) (hc : Closed σ) (hsp : 1 ≤ c.sp)
    (hle : c.sp ≤ c.wp) {es : List (WlqEvent N R)}
    (hes : Run.Valid (exec c) (Enabled plan) es σ) :
    ∃ σ', Run.run (exec c) es σ = .ok σ' ∧ σ'.Inv c plan ∧ Told plan σ' ∧ Closed σ' := by
  refine Run.Valid.induction (P := fun σ => σ.Inv c plan ∧ Told plan σ ∧ Closed σ) ?_ hes ⟨h, ht, hc⟩
  rintro σ e ⟨hinv, htold, hclosed⟩ he
  obtain ⟨σ', hσ', hinv', hclosed', -⟩ := hclosed.step hinv hsp hle he.2
  exact ⟨σ', hσ', hinv', htold.step hinv hsp hle he.2 hσ', hclosed'⟩

/-- The stage as constructed has not terminated. -/
theorem closed_init {nw : Nat} : Closed (init N R nw) :=
  ⟨(fun h => by cases h), (fun h => by cases h), (fun h => by cases h)⟩

/-- **The second stage leaves nothing undone.** In every run that comes to its termination the windows
finalized are exactly those of which every pane has been delivered, and, once the collector has received
them, the client has been handed exactly the ones before the first window with a pane that was not. -/
theorem terminated_finished (wp sp : Nat) (hsp : 1 ≤ sp) (hle : sp ≤ wp) (plan : Multiset Nat)
    {nw : Nat} (hpos : 0 < nw) (hnw : nw ≤ N) (es : List (WlqEvent N R))
    (hes : Run.Valid (exec ⟨wp, sp⟩) (Enabled plan) es (init N R nw)) :
    ∃ σ, Run.run (exec ⟨wp, sp⟩) es (init N R nw) = .ok σ ∧
      (σ.emitter.wlqTerminated = true → Finished wp sp plan σ) := by
  obtain ⟨σ, hrun, hinv, ht, hc⟩ := (told_init plan hpos hnw).run (c := ⟨wp, sp⟩)
    (inv_init _ plan nw) closed_init hsp hle hes
  exact ⟨σ, hrun, hinv.finished ht hc (by show 0 < wp; omega)⟩

/-- A run in which pane 1 is missing: of the windows of one pane each, window 2 is finalized first. -/
def gapWindowRun : List (WlqEvent 2 (Build (Row ℚ 1))) :=
  [.arrive (resultsOf 0 2 1), .exec 1, .arrive (resultsOf 1 0 1), .eos, .exec 0, .feedback 0, .feedback 1,
    .eos, .collect 0, .collect 1]

/-- The state after that run. -/
def gapWindowEnd : WlqState 2 (Build (Row ℚ 1)) :=
  Run.result (Run.run (exec ⟨1, 1⟩) gapWindowRun (init 2 _ 2)) (by decide +kernel)

/-- Window 0 is handed on, and window 2 stays with the collector. -/
theorem terminated_finished_witness :
    gapWindowEnd.executed = [2, 0] ∧ gapWindowEnd.client = [.win 0] ∧
      Finished 1 1 {0, 2} gapWindowEnd := by
  have htwo : 0 < 2 := by decide
  obtain ⟨σ, hrun, hfin⟩ := terminated_finished 1 1 le_rfl le_rfl {0, 2} htwo le_rfl gapWindowRun
    (by decide +kernel)
  have hend : σ = gapWindowEnd := Except.ok.inj (hrun.symm.trans (Run.eq_ok_result _ _))
  rw [hend] at hfin
  exact ⟨by decide +kernel, by decide +kernel, hfin (by decide +kernel)⟩

end WlqState

end ElasticPPQ
