import ElasticPPQ.Pattern.Following
import ElasticPPQ.Plq.OutOfOrder
import ElasticPPQ.Query.SkySet

/-! # The results do not depend on the schedule

Whatever the interleaving of the two stages and of their reconfigurations, the windows reach the
client in order, and each of them holds the nondominated tuples among those scheduled for it. The
first stage is followed by its recording image; the second stage runs as planned by each complete run
of the first one (`Kept`). -/

namespace ElasticPPQ

open FifoNet PlqState

variable {N DIM : Nat}

namespace PfState

variable {S : Strategy N DIM} {R : Type} [PrefQuery (Row ℚ DIM) R] {c : PlqParams}
  {Rf : S.Refinement} {σ : PfState S R} {β φ : PlqState S (Build (Row ℚ DIM))}
  {D : List (Rset (Build (Row ℚ DIM)))}

/-- The invariant of the pattern where the first stage is the out-of-order pipeline and every event is
as its strategy needs it. -/
abbrev Kept (c : PlqParams) (Rf : S.Refinement) (σ : PfState S R)
    (β : PlqState S (Build (Row ℚ DIM))) (D : List (Rset (Build (Row ℚ DIM)))) : Prop :=
  KeptBy c (fun _ _ => True) (Tracked c Rf) σ β D

/-- The pattern as constructed, for the invariant of strategy and pattern. -/
theorem init_kept (c : PlqParams) (Rf : S.Refinement) {nwPlq : Nat} (hplq : 0 < nwPlq)
    (hplqN : nwPlq ≤ N) (nwWlq : Nat) :
    Kept c Rf (init S R nwPlq nwWlq) (.init S (Build (Row ℚ DIM)) nwPlq) [] :=
  init_keptBy (init_tracked c Rf hplq hplqN) nwWlq

/-- A run keeps it. -/
theorem Kept.run (h : Kept c Rf σ β D) (hi : c.iop = false) (hsp : 1 ≤ c.sp) (hle : c.sp ≤ c.wp)
    (hok : ∀ (β : PlqState S (Build (Row ℚ DIM))) e, Rf.Inv β.sched → β.StepOk Rf e)
    {es : List (PfEvent S R)} (hes : Run.Valid (exec c) (Enabled c) es σ) :
    ∃ σ' β' D', Run.run (exec c) es σ = .ok σ' ∧ Kept c Rf σ' β' D' ∧
      ∀ φ, Completes c (fun _ _ => True) β' φ → Completes c (fun _ _ => True) β φ ∧
        Run.Valid (WlqState.exec c.wlq)
          (fun s e => s.Enabled (φ.emissions.map Rset.id) e ∧ s.LeavesWorker e)
          (wlqEvents c es σ) σ.wlq ∧
        Run.run (WlqState.exec c.wlq) (wlqEvents c es σ) σ.wlq = .ok σ'.wlq :=
  KeptBy.run h (Tracked.forecast Rf hi (fun β e hinv _ => hok β e hinv) (fun _ => trivial)
    fun _ _ => trivial) hsp hle (hes.mono fun σ e he => ⟨he, meets_true σ e⟩)

/-! ## Pane-based round-robin -/

/-- **The second stage runs as planned.** No run of the pattern aborts; in it the second stage runs as
it does on its own, what the first one delivers being fixed by a plan. -/
theorem wlq_runs_as_planned (wp sp paneLength : Nat) (hsp : 1 ≤ sp) (hle : sp ≤ wp)
    {nwPlq : Nat} (hplq : 0 < nwPlq) (hplqN : nwPlq ≤ N) (nwWlq : Nat)
    (es : List (PfEvent (PbRrSched.strategy N DIM) R))
    (hes : Run.Valid (exec (oop wp sp paneLength)) (Enabled (oop wp sp paneLength)) es
      (init _ R nwPlq nwWlq)) :
    ∃ σ plan, Run.run (exec (oop wp sp paneLength)) es (init _ R nwPlq nwWlq) = .ok σ ∧
      Run.Valid (WlqState.exec ⟨wp, sp⟩) (fun s e => s.Enabled plan e ∧ s.LeavesWorker e)
        (wlqEvents (oop wp sp paneLength) es (init _ R nwPlq nwWlq)) (.init N R nwWlq) ∧
      Run.run (WlqState.exec ⟨wp, sp⟩)
        (wlqEvents (oop wp sp paneLength) es (init _ R nwPlq nwWlq)) (.init N R nwWlq) =
          .ok σ.wlq := by
  obtain ⟨σ, β, D, hrun, h, hwlq⟩ := (init_kept (oop wp sp paneLength)
    (PbRrSched.refinement N DIM) hplq hplqN nwWlq).run rfl hsp hle stepOk_pbRr hes
  -- the plan is what a completion of the recording run emits
  obtain ⟨φ, hφ, -⟩ := h.tracked.handled.completes rfl
  obtain ⟨-, hvalid, hrunWlq⟩ := hwlq φ hφ
  exact ⟨σ, _, hrun, hvalid, hrunWlq⟩

/-- **The results are independent of the schedule**, for skylines and pane-based round-robin. No run
of the pattern aborts. The windows that the client has got after it are the windows 0, 1, … in this
order, and each of them holds the tuples that no other one dominates, equal ones all kept, among those
scheduled in the whole run for the panes of the window. -/
theorem results_independent {k : Nat} (wp sp paneLength : Nat) (hsp : 1 ≤ sp) (hle : sp ≤ wp)
    {nwPlq : Nat} (hplq : 0 < nwPlq) (hplqN : nwPlq ≤ N) (nwWlq : Nat)
    (es : List (PfEvent (PbRrSched.strategy N (k + 2)) (SkySet ℚ k)))
    (hes : Run.Valid (exec (oop wp sp paneLength)) (Enabled (oop wp sp paneLength)) es
      (init _ _ nwPlq nwWlq)) :
    ∃ σ, Run.run (exec (oop wp sp paneLength)) es (init _ _ nwPlq nwWlq) = .ok σ ∧
      σ.results.map Rset.id = List.range σ.results.length ∧
      ∀ r ∈ σ.results, (r.set.s.rows : Multiset (Row ℚ (k + 2))) =
        (windowRows wp sp σ.plq.scheduled r.id).filter fun p =>
          ∀ q ∈ windowRows wp sp σ.plq.scheduled r.id, ¬ q.Dominates p := by
  obtain ⟨σ, β, D, hrun, h, -⟩ := (init_kept (oop wp sp paneLength)
    (PbRrSched.refinement N (k + 2)) hplq hplqN nwWlq).run rfl hsp hle stepOk_pbRr hes
  -- ids first, then the rows of each window
  refine ⟨σ, hrun, ?_, fun r hr => ?_⟩
  · have hlength := congrArg List.length h.ids
    rw [List.length_map, List.length_range] at hlength
    rw [h.ids, hlength]
  -- the set of the window evaluates a build over exactly the tuples of its panes
  · obtain ⟨φ, hφ, hsched⟩ := h.tracked.handled.completes rfl
    obtain ⟨b, hb, htuples⟩ := h.fed φ hφ r hr
    have hrows := SkySet.toMultiset_eval b
    rw [← hb, htuples, hsched] at hrows
    have hscheduled : σ.plq.scheduled = β.scheduled := by
      rw [h.plq]
      rfl
    rw [hscheduled]
    exact hrows

/-- A tuple of pane `p` on two dimensions, for runs on fixed inputs. -/
def pointAt (p : Nat) (x y : ℚ) : Tuple 2 :=
  { Tuple.new 2 with type := .regular, paneId := p, d := ![x, y] }

/-- Pane 0 migrates, one of its tuples dominates another one that is in its other partition, and a
worker of each stage is removed before window 0 is handed to the client. -/
theorem results_independent_witness :
    ∃ σ, Run.run (exec (oop 2 1 1))
        [.plq (.tuple () (pointAt 0 1 3)), .plq (.remove () [0]), .plq (.tuple () (pointAt 0 2 4)),
          .plq (.tuple () (pointAt 1 3 1)), .plq (.progress () 0 2), .plq (.worker 0),
          .plq (.worker 0), .plq (.worker 1), .plq (.worker 1), .plq (.worker 1), .plq (.worker 1),
          .arrive 1, .arrive 0, .wlq (.remove [0]), .wlq (.exec 1), .wlq (.feedback 1), .arrive 1,
          .wlq (.exec 1), .wlq (.feedback 1), .wlq (.exec 1), .wlq (.collect 1)]
        (init (PbRrSched.strategy 2 2) (SkySet ℚ 0) 2 2) = .ok σ ∧
      σ.results.map Rset.id = List.range σ.results.length ∧
      ∀ r ∈ σ.results, (r.set.s.rows : Multiset (Row ℚ 2)) =
        (windowRows 2 1 σ.plq.scheduled r.id).filter fun p =>
          ∀ q ∈ windowRows 2 1 σ.plq.scheduled r.id, ¬ q.Dominates p :=
  results_independent 2 1 1 (by decide) (by decide) (by decide) (by decide) 2 _ (by decide +kernel)

end PfState

end ElasticPPQ
