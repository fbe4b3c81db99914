import ElasticPPQ.Pattern.Independence
import ElasticPPQ.Wlq.Completeness

/-! # The results of the pattern

What the client of the pattern gets, in any run and at its end: the windows 0, 1, … in this order, each
of them final, and when the second stage has terminated all those before the first window with a pane
that the first stage has not emitted (`run_keptBy`). For skylines that settles the contents
(`KeptBy.skylines`). -/

namespace ElasticPPQ

open FifoNet PlqState

variable {N DIM : Nat}

namespace PfState

section Runs

variable {S : Strategy N DIM} {R : Type} [PrefQuery (Row ℚ DIM) R] {c : PlqParams}
  {C : S.State → PlqEvent S → Prop} {T : PlqState S (Build (Row ℚ DIM)) → Prop}
  {σ : PfState S R} {β : PlqState S (Build (Row ℚ DIM))} {D : List (Rset (Build (Row ℚ DIM)))}

/-- The second stage has done its work, and the client has got all that it has handed to the
collector. -/
def Terminated (σ : PfState S R) : Prop :=
  σ.wlq.emitter.wlqTerminated = true ∧ ∀ w, σ.wlq.toCollector w = []

/-- The client has got the windows in order. -/
theorem KeptBy.ids_eq (h : KeptBy c C T σ β D) :
    σ.results.map Rset.id = List.range σ.results.length := by
  have hlength := congrArg List.length h.ids
  rw [List.length_map, List.length_range] at hlength
  rw [h.ids, hlength]

/-- What the first stage knows of the recording one. -/
theorem KeptBy.scheduled (h : KeptBy c C T σ β D) : σ.plq.scheduled = β.scheduled := by
  rw [h.plq]
  rfl

/-- **Every window of the client is final**: it has been fed the tuples of its panes among those
scheduled so far. -/
theorem KeptBy.fed_scheduled (h : KeptBy c C T σ β D) (F : Forecast c C T) {r : Rset R}
    (hr : r ∈ σ.results) : Fed c σ.plq.scheduled r := by
  obtain ⟨φ, hφ, hsched⟩ := F.completes h.tracked
  rw [h.scheduled, ← hsched]
  exact h.fed φ hφ r hr

/-- What holds at the termination of the second stage: the first one is complete, and the client has
got the windows up to the first one with a pane that has not been emitted. -/
structure Complete (wp sp : Nat) (σ : PfState S R) (β : PlqState S (Build (Row ℚ DIM))) : Prop where
  ended : β.ended = true
  drained : β.Drained
  results : ∀ k, k < σ.results.length ↔ ∀ j, j ≤ k → ∀ p, InWindow wp sp j p →
    p ∈ β.emissions.map Rset.id

/-- The end-of-stream messages of the first stage come when it is complete. -/
theorem KeptBy.complete (h : KeptBy c C T σ β D) (hN : 0 < N) (hwp : 0 < c.wp)
    (hfin : ∀ plan, plan = β.emissions.map Rset.id → β.ended = true → β.Drained →
      σ.wlq.Inv c.wlq plan ∧ WlqState.Told plan σ.wlq)
    (hc : σ.wlq.Closed) (ht : σ.Terminated) : Complete c.wp c.sp σ β := by
  -- every worker's END has arrived, so the first stage has ended and is drained
  have heos := hc.eosReceived ht.1
  rw [h.eosReceived] at heos
  obtain ⟨hend, hd, -⟩ := h.transferred.all hN heos
  obtain ⟨hinv, htold⟩ := hfin _ rfl hend hd
  have hclient := (hinv.finished htold hc hwp ht.1).client ht.2
  refine ⟨hend, hd, fun k => ?_⟩
  have hlength := congrArg List.length h.ids
  rw [List.length_map, List.length_range] at hlength
  -- a window among the results is one the client has been given
  have hmem : .win k ∈ σ.wlq.client ↔ k < σ.results.length := by
    rw [hlength, hinv.collected.ordered.client]
    simp
  rw [← hmem, hclient k]
  exact Iff.rfl

/-- **The runs of the pattern.** None of their events fails, and each leads to a state in which what
the client has got is final, and complete if the second stage has terminated. -/
theorem run_keptBy (F : Forecast c C T) (hsp : 1 ≤ c.sp) (hle : c.sp ≤ c.wp) {nwPlq nwWlq : Nat}
    (hT : T (.init S (Build (Row ℚ DIM)) nwPlq)) (hwlq : 0 < nwWlq) (hwlqN : nwWlq ≤ N)
    {es : List (PfEvent S R)}
    (hes : Run.Valid (exec c) (fun σ e => σ.Enabled c e ∧ σ.Meets C e) es (init S R nwPlq nwWlq)) :
    ∃ σ β D, Run.run (exec c) es (init S R nwPlq nwWlq) = .ok σ ∧ KeptBy c C T σ β D ∧
      (σ.Terminated → Complete c.wp c.sp σ β) := by
  obtain ⟨σ, β, D, hrun, h, hwlqRun⟩ := (init_keptBy hT nwWlq).run F hsp hle hes
  refine ⟨σ, β, D, hrun, h, fun ht => ?_⟩
  -- the second stage runs on its own as planned by a complete run of the first one
  have hown : ∀ φ, Completes c C β φ → σ.wlq.Inv c.wlq (φ.emissions.map Rset.id) ∧
      WlqState.Told (φ.emissions.map Rset.id) σ.wlq ∧ σ.wlq.Closed := by
    intro φ hφ
    obtain ⟨-, hvalid, hrunWlq⟩ := hwlqRun φ hφ
    obtain ⟨s, hs, hinv, htold, hclosed⟩ := (WlqState.told_init _ hwlq hwlqN).run
      (WlqState.inv_init _ _ nwWlq) WlqState.closed_init hsp hle (hvalid.mono fun _ _ he => he.1)
    have hs' : s = σ.wlq := Except.ok.inj (hs.symm.trans hrunWlq)
    exact hs' ▸ ⟨hinv, htold, hclosed⟩
  obtain ⟨φ, hφ, -⟩ := F.completes h.tracked
  refine h.complete (by omega) (by omega) (fun plan hplan hend hd => ?_) (hown φ hφ).2.2 ht
  obtain ⟨hinv, htold, -⟩ := hown β (Completes.refl hend hd)
  exact hplan ▸ ⟨hinv, htold⟩

end Runs

/-! ## Skylines -/

/-- The windows that the client has got are the first ones, in order, and each holds the tuples that no
other one dominates, equal ones all kept, among those scheduled for its panes. -/
structure Skylines {k : Nat} {S : Strategy N (k + 2)} (wp sp : Nat) (σ : PfState S (SkySet ℚ k)) :
    Prop where
  ids : σ.results.map Rset.id = List.range σ.results.length
  rows : ∀ r ∈ σ.results, (r.set.s.rows : Multiset (Row ℚ (k + 2))) =
    (windowRows wp sp σ.plq.scheduled r.id).filter fun p =>
      ∀ q ∈ windowRows wp sp σ.plq.scheduled r.id, ¬ q.Dominates p

/-- What the client has got are skylines. -/
theorem KeptBy.skylines {k : Nat} {S : Strategy N (k + 2)} {c : PlqParams}
    {C : S.State → PlqEvent S → Prop} {T : PlqState S (Build (Row ℚ (k + 2))) → Prop}
    {σ : PfState S (SkySet ℚ k)} {β : PlqState S (Build (Row ℚ (k + 2)))}
    {D : List (Rset (Build (Row ℚ (k + 2))))} (h : KeptBy c C T σ β D) (F : Forecast c C T) :
    σ.Skylines c.wp c.sp where
  ids := h.ids_eq
  rows := by
    intro r hr
    obtain ⟨b, hb, htuples⟩ := h.fed_scheduled F hr
    have hrows := SkySet.toMultiset_eval b
    rw [← hb, htuples] at hrows
    exact hrows

end PfState

end ElasticPPQ
