import ElasticPPQ.Wlq.Invariant

/-! # Finalization is exact

Whatever the order of arrivals, feedbacks and reconfigurations, no event of the second stage fails;
every window is finalized once at most, by a task that is alone in flight, and once that task has been
executed everything delivered for the window has been folded into its results set, once. -/

namespace ElasticPPQ

open Channels

variable {N : Nat} {τ R : Type} [PrefQuery τ R]

namespace WlqState

/-- All the results sets of the panes of window `k` have been delivered, and the results set of the
window has been folded together from exactly these, each of them once. -/
structure WindowFolded (c : WlqParams) (plan : Multiset Nat) (σ : WlqState N R) (k : Nat) : Prop where
  delivered : ∀ p, InWindow c.wp c.sp k p →
    σ.deliveredIds.count p = plan.count p ∧ 0 < plan.count p
  folded : ∃ t : FoldTree Nat, t.leaves.Nodup ∧
    (∀ i, i ∈ t.leaves ↔ ∃ r, σ.delivered[i]? = some r ∧ InWindow c.wp c.sp k r.id) ∧
    (σ.mem.heap (.win k)).set
      = t.eval PrefQuery.new PrefQuery.addComputeSet (deliveredSet σ.delivered)

/-- What finalization guarantees in a state. -/
structure FinalizationExact (c : WlqParams) (plan : Multiset Nat) (σ : WlqState N R) : Prop where
  once : σ.created.Nodup
  alone : ∀ t ∈ σ.inFlight, t.finalize = true → σ.tasksOf t.winId = {t}
  exact : ∀ k ∈ σ.executed, WindowFolded c plan σ k

variable {c : WlqParams} {plan : Multiset Nat} {σ : WlqState N R}

/-- A window of which the finalizing task has been executed holds nothing any more. -/
theorem Inv.of_mem_executed (h : σ.Inv c plan) {k : Nat} (hk : k ∈ σ.executed) :
    Complete c plan σ.deliveredIds k ∧ σ.heldBy k = 0 := by
  have hcount := List.count_pos_iff.mpr hk
  have hexec := h.executed k
  have hcontrol := h.core.control k
  cases hslot : σ.emitter.slot k with
  | unopened =>
      rw [hslot] at hexec
      have hzero : σ.executed.count k + awaited (σ.tasksOf k) = 0 := hexec
      omega
  | opened wd =>
      rw [hslot] at hexec
      have hzero : σ.executed.count k + awaited (σ.tasksOf k) = 0 := hexec
      omega
  | finalized =>
      rw [hslot] at hexec hcontrol
      have hone : σ.executed.count k + awaited (σ.tasksOf k) = 1 := hexec
      obtain ⟨hcomplete, hT⟩ := hcontrol
      refine ⟨hcomplete, ?_⟩
      rw [heldBy, hslot]
      rcases hT with hT | ⟨t, hT, hty, hfin, -⟩
      · rw [hT]
        rfl
      · -- the task has been executed, so that it has no operands left
        have hp2 : t.p2 = none := by
          by_contra hne
          rw [hT, awaited, ← Multiset.cons_zero, Multiset.countP_cons_of_pos _ ⟨hfin, hne⟩] at hone
          omega
        rw [hT]
        simp [held, WinSlot.pending, WTask.operands, hty, hp2]

/-- The results set of such a window is complete. -/
theorem Inv.windowFolded (h : σ.Inv c plan) {k : Nat} (hk : k ∈ σ.executed) :
    WindowFolded c plan σ k := by
  -- an executed window holds no address any more, so all its arrivals are folded into the value
  obtain ⟨hcomplete, hheld⟩ := h.of_mem_executed hk
  obtain ⟨F, hF⟩ := h.folded.trace
  have hlaw := hF.law k
  rw [hheld, Multiset.zero_bind, add_zero] at hlaw
  refine ⟨hcomplete, F (.win k), ?_, fun i => ?_, hF.value _⟩
  · rw [hlaw, Multiset.coe_nodup]
    exact List.nodup_range.filter _
  · rw [hlaw, Multiset.mem_coe, arrivals, List.mem_filter, List.mem_range, List.length_map,
      decide_eq_true_eq]
    -- the leaves are the arrivals, numbered in the order of the deliveries
    constructor
    · rintro ⟨hi, hin⟩
      refine ⟨σ.delivered[i], List.getElem?_eq_getElem hi, ?_⟩
      rw [List.getD_eq_getElem _ _ (by rw [List.length_map]; exact hi), List.getElem_map] at hin
      exact hin
    · rintro ⟨r, hr, hin⟩
      obtain ⟨hi, hri⟩ := List.getElem?_eq_some_iff.mp hr
      refine ⟨hi, ?_⟩
      rw [List.getD_eq_getElem _ _ (by rw [List.length_map]; exact hi), List.getElem_map, hri]
      exact hin

/-- A finalizing task in flight is the only task of its window. -/
theorem Inv.finalizing_alone (h : σ.Inv c plan) {t : WTask} (ht : t ∈ σ.inFlight)
    (hfin : t.finalize = true) : σ.tasksOf t.winId = {t} := by
  have hmem : t ∈ σ.tasksOf t.winId := Multiset.mem_filter.mpr ⟨ht, rfl⟩
  have hcontrol := h.core.control t.winId
  -- only a finalized window has a finalizing task, and then no other
  cases hslot : σ.emitter.slot t.winId with
  | unopened =>
      rw [hslot] at hcontrol
      rw [hcontrol.1] at hmem
      exact absurd hmem (Multiset.notMem_zero t)
  | opened wd =>
      rw [hslot] at hcontrol
      have hf := (Opened.running hcontrol t hmem).1
      exact absurd (hf.symm.trans hfin) Bool.false_ne_true
  | finalized =>
      rw [hslot] at hcontrol
      obtain ⟨-, hT | ⟨t', hT, -⟩⟩ := hcontrol
      · rw [hT] at hmem
        exact absurd hmem (Multiset.notMem_zero t)
      · rw [hT] at hmem ⊢
        rw [Multiset.mem_singleton.mp hmem]

/-- The invariant says how windows are finalized. -/
theorem Inv.finalizationExact (h : σ.Inv c plan) : FinalizationExact c plan σ := by
  refine ⟨List.nodup_iff_count_le_one.mpr fun k => ?_, fun t ht hfin => h.finalizing_alone ht hfin,
    fun k hk => h.windowFolded hk⟩
  rw [h.created k]
  cases σ.emitter.slot k <;> simp [WinSlot.done]

/-- Every run leads to a state with the invariant. -/
theorem inv_of_valid (hsp : 1 ≤ c.sp) (hle : c.sp ≤ c.wp) {nw : Nat} {es : List (WlqEvent N R)}
    (hes : Run.Valid (exec c) (Enabled plan) es (init N R nw)) :
    ∃ σ, Run.run (exec c) es (init N R nw) = .ok σ ∧ σ.Inv c plan :=
  Run.Valid.induction (fun _ _ hinv he => hinv.step hsp hle he.2) hes (inv_init c plan nw)

/-- **Finalization is exact.** No run of the second stage aborts, accesses a null descriptor or one
outside of the deque, or computes an index below zero; in the state it leads to every window has been
finalized once at most, a finalizing task is the only one of its window in flight, and the windows of
which it has been executed are complete. All the workers may be removed, and others be added later. -/
theorem finalization_exact (wp sp : Nat) (hsp : 1 ≤ sp) (hle : sp ≤ wp) (plan : Multiset Nat)
    (nw : Nat) (es : List (WlqEvent N R))
    (hes : Run.Valid (exec ⟨wp, sp⟩) (Enabled plan) es (init N R nw)) :
    ∃ σ, Run.run (exec ⟨wp, sp⟩) es (init N R nw) = .ok σ ∧
      FinalizationExact ⟨wp, sp⟩ plan σ := by
  obtain ⟨σ, hrun, hinv⟩ := inv_of_valid (c := ⟨wp, sp⟩) hsp hle hes
  exact ⟨σ, hrun, hinv.finalizationExact⟩

/-- A results set of pane `p`, for runs on fixed inputs. -/
def resultsOf (i p n : Nat) : Rset (Build (Row ℚ 1)) := ⟨i, countWindows 2 1 p, p, n, .empty⟩

/-- Pane 0 has one partition and pane 1 has two; two of the three are merged, all the workers are removed,
two are added again and window 0 is finalized. -/
theorem finalization_exact_witness :
    ∃ σ, Run.run (exec ⟨2, 1⟩) [.arrive (resultsOf 0 1 0), .arrive (resultsOf 1 1 2),
        .arrive (resultsOf 2 0 1), .exec 1, .exec 0, .feedback 0, .remove [0, 1, 2], .exec 2, .feedback 2,
        .add [1, 2], .feedback 1, .exec 1] (init 3 (Build (Row ℚ 1)) 3) = .ok σ ∧
      FinalizationExact ⟨2, 1⟩ {0, 1, 1} σ :=
  finalization_exact 2 1 (by decide) (by decide) _ 3 _ (by decide +kernel)

end WlqState

end ElasticPPQ
