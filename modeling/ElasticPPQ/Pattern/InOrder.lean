import ElasticPPQ.PaneFarming
import ElasticPPQ.Pattern.Results
import ElasticPPQ.Plq.InOrderConservation

/-! # The pattern with in-order workers

With `IOP` defined every strategy counts right, whatever happens, so that the client gets the windows
in order, each final, and at the end no window is missing. The panes are a matter of the pattern alone:
seen from outside, the windows are stretches of time. -/

namespace ElasticPPQ

open FifoNet PlqState

variable {N DIM : Nat}

namespace PfState

/-! ## Windows of panes -/

/-- No window is missing at the end: those got are the ones that lie before the end of the pane of the
last tuple. -/
def InOrderComplete {S : Strategy N DIM} {R : Type} (wp sp : Nat) (σ : PfState S R) : Prop :=
  ∀ k, k < σ.results.length ↔ ∃ t ∈ σ.plq.scheduled, sp * k + wp ≤ t.paneId + 1

/-- No run of the pattern with in-order workers aborts. The client always has the skylines of the first
windows, and at the termination those of all. -/
def InOrderResults {k : Nat} (S : Strategy N (k + 2)) (wp sp paneLength nwPlq nwWlq : Nat) : Prop :=
  ∀ es : List (PfEvent S (SkySet ℚ k)),
    Run.Valid (exec (inOrder wp sp paneLength)) (Enabled (inOrder wp sp paneLength)) es
      (init _ _ nwPlq nwWlq) →
    ∃ σ, Run.run (exec (inOrder wp sp paneLength)) es (init _ _ nwPlq nwWlq) = .ok σ ∧
      σ.Skylines wp sp ∧ (σ.Terminated → InOrderComplete wp sp σ)

/-- Windows up to one with its last pane emitted have all their panes emitted. -/
theorem inOrderComplete_of_complete {S : Strategy N DIM} {R : Type} [PrefQuery (Row ℚ DIM) R]
    {c : PlqParams} {Rf : S.Refinement} {σ : PfState S R} {β : PlqState S (Build (Row ℚ DIM))}
    (hi : c.iop = true) (hwp : 0 < c.wp) (hβ : β.Balanced c Rf)
    (hsched : σ.plq.scheduled = β.scheduled) (h : Complete c.wp c.sp σ β) :
    InOrderComplete c.wp c.sp σ := by
  intro k
  have hmem := hβ.mem_emissions_iff hi h.ended h.drained
  rw [h.results k, hsched]
  -- the last pane of the window is the one that shows the stream has come so far
  constructor
  · intro hall
    obtain ⟨t, ht, hp⟩ := (hmem _).mp (hall k le_rfl (c.sp * k + (c.wp - 1)) ⟨by omega, by omega⟩)
    exact ⟨t, ht, by omega⟩
  · rintro ⟨t, ht, hp⟩ j hj p ⟨-, hlt⟩
    refine (hmem p).mpr ⟨t, ht, ?_⟩
    have hmono := Nat.mul_le_mul_left c.sp hj
    omega

end PfState

open PfState

/-- What any run of the in-order pattern comes to. -/
theorem Strategy.Refinement.runInOrder {S : Strategy N DIM} (Rf : S.Refinement) (R : Type)
    [PrefQuery (Row ℚ DIM) R] (wp sp paneLength : Nat) (hsp : 1 ≤ sp) (hle : sp ≤ wp)
    {nwPlq nwWlq : Nat} (hplq : 0 < nwPlq) (hplqN : nwPlq ≤ N) (hwlq : 0 < nwWlq) (hwlqN : nwWlq ≤ N)
    {es : List (PfEvent S R)}
    (hes : Run.Valid (exec (inOrder wp sp paneLength)) (Enabled (inOrder wp sp paneLength)) es
      (init _ _ nwPlq nwWlq)) :
    ∃ σ β D, Run.run (exec (inOrder wp sp paneLength)) es (init _ _ nwPlq nwWlq) = .ok σ ∧
      KeptBy (inOrder wp sp paneLength) (fun _ _ => True) (Balanced (inOrder wp sp paneLength) Rf)
        σ β D ∧
      (σ.Terminated → σ.plq.ended = true ∧ InOrderComplete wp sp σ) := by
  have hi : (inOrder wp sp paneLength).iop = true := rfl
  obtain ⟨σ, β, D, hrun, h, hcomplete⟩ := run_keptBy (Balanced.forecast Rf hi) hsp hle
    (init_balanced _ Rf hplq hplqN) hwlq hwlqN (hes.mono fun σ e he => ⟨he, meets_true σ e⟩)
  -- a terminated run has ended its stream, and no window whose panes were reached is missing
  refine ⟨σ, β, D, hrun, h, fun ht => ?_⟩
  have hwp : 0 < (inOrder wp sp paneLength).wp := by
    show 0 < wp
    omega
  refine ⟨?_, inOrderComplete_of_complete hi hwp h.tracked h.scheduled (hcomplete ht)⟩
  rw [h.plq]
  exact (hcomplete ht).ended

/-- **Every strategy that refines the ledger yields the skylines of all windows.** -/
theorem Strategy.Refinement.inOrderResults {k : Nat} {S : Strategy N (k + 2)} (Rf : S.Refinement)
    (wp sp paneLength : Nat) (hsp : 1 ≤ sp) (hle : sp ≤ wp) {nwPlq nwWlq : Nat} (hplq : 0 < nwPlq)
    (hplqN : nwPlq ≤ N) (hwlq : 0 < nwWlq) (hwlqN : nwWlq ≤ N) :
    InOrderResults S wp sp paneLength nwPlq nwWlq := by
  intro es hes
  obtain ⟨σ, β, D, hrun, h, hcomplete⟩ :=
    Rf.runInOrder (SkySet ℚ k) wp sp paneLength hsp hle hplq hplqN hwlq hwlqN hes
  exact ⟨σ, hrun, h.skylines (Balanced.forecast Rf rfl), fun ht => (hcomplete ht).2⟩

/-- **The in-order pattern computes the skyline of every window**, with each of the three strategies,
whatever the interleaving of its components and the reconfigurations of its two stages. -/
theorem inOrder_results {k : Nat} (wp sp paneLength : Nat) (hsp : 1 ≤ sp) (hle : sp ≤ wp)
    {nwPlq nwWlq : Nat} (hplq : 0 < nwPlq) (hplqN : nwPlq ≤ N) (hwlq : 0 < nwWlq)
    (hwlqN : nwWlq ≤ N) :
    InOrderResults (PbRrSched.strategy N (k + 2)) wp sp paneLength nwPlq nwWlq ∧
      InOrderResults (TbRrSched.strategy N (k + 2)) wp sp paneLength nwPlq nwWlq ∧
      InOrderResults (AdaptiveSched.strategy N (k + 2)) wp sp paneLength nwPlq nwWlq :=
  ⟨(PbRrSched.refinement N (k + 2)).inOrderResults wp sp paneLength hsp hle hplq hplqN hwlq hwlqN,
    (TbRrSched.refinement N (k + 2)).inOrderResults wp sp paneLength hsp hle hplq hplqN hwlq hwlqN,
    (AdaptiveSched.refinement N (k + 2)).inOrderResults wp sp paneLength hsp hle hplq hplqN hwlq
      hwlqN⟩

/-- A tuple on two dimensions that arrives in order, for runs on fixed inputs with panes of one
millisecond. -/
def pointIn (p : Nat) (x y : ℚ) : Tuple 2 := Tuple.createRegular ⟨![x, y], (1000 * p : Nat), 0⟩ 1

/-- A run with two workers: pane 0 is split, a worker of the first stage is removed, and the stream ends
in pane 1. -/
def splitPaneRun : List (PfEvent (TbRrSched.strategy 2 2) (SkySet ℚ 0)) :=
  [.plq (.tuple () (pointIn 0 1 3)), .plq (.tuple () (pointIn 0 2 4)), .plq (.remove () [0]),
    .plq (.tuple () (pointIn 1 3 1)), .plq .finish, .plq (.worker 0), .plq (.worker 0),
    .plq (.worker 0), .plq (.worker 0), .plq (.worker 1), .plq (.worker 1), .plq (.worker 1),
    .arrive 0, .arrive 1, .arrive 1, .eos 0, .wlq (.exec 0), .wlq (.exec 1), .wlq (.feedback 0),
    .wlq (.exec 0), .wlq (.feedback 0), .wlq (.feedback 1), .wlq (.exec 1), .wlq (.feedback 1), .eos 1,
    .wlq (.collect 1)]

/-- The state after that run. -/
def splitPaneEnd : PfState (TbRrSched.strategy 2 2) (SkySet ℚ 0) :=
  Run.result (Run.run (exec (inOrder 2 1 1)) splitPaneRun (init _ _ 2 2)) (by decide +kernel)

/-- The stage terminates, and the client has got the one window there is. -/
theorem inOrder_results_witness :
    splitPaneEnd.results.map Rset.id = [0] ∧ splitPaneEnd.Skylines 2 1 ∧
      InOrderComplete 2 1 splitPaneEnd := by
  have htwo : 0 < 2 := by decide
  obtain ⟨σ, hrun, hsky, hcomplete⟩ := (inOrder_results (N := 2) (k := 0) 2 1 1 (by decide)
    (by decide) htwo le_rfl htwo le_rfl).2.1 splitPaneRun (by decide +kernel)
  have hend : σ = splitPaneEnd := Except.ok.inj (hrun.symm.trans (Run.eq_ok_result _ _))
  rw [hend] at hsky hcomplete
  have hterm : splitPaneEnd.Terminated := ⟨by decide +kernel, by decide +kernel⟩
  exact ⟨by decide +kernel, hsky, hcomplete hterm⟩

/-! ## Windows of time -/

namespace PfState

/-- The tuples scheduled with a timestamp in window `k`, for windows of `wlen` milliseconds that slide by
`wslide`. -/
def timeRows (wlen wslide : Nat) (scheduled : List (Tuple DIM)) (k : Nat) : Multiset (Row ℚ DIM) :=
  (scheduled.filter fun t => ((1000 * (k * wslide) : Nat) : ℚ) ≤ t.appTs ∧
    t.appTs < ((1000 * (k * wslide + wlen) : Nat) : ℚ)).map Tuple.toRow

/-- The tuples of the panes of a window are those with a timestamp in it. -/
theorem windowRows_eq_timeRows {wlen wslide : Nat} {pf : PaneFarming} (hlen : 1 ≤ pf.paneLen)
    (hwp : pf.wp * pf.paneLen = wlen) (hsp : pf.sp * pf.paneLen = wslide)
    {scheduled : List (Tuple DIM)}
    (hpane : ∀ t ∈ scheduled, t.paneId = Tuple.paneOf pf.paneLen t.appTs)
    (hts : ∀ t ∈ scheduled, 0 ≤ t.appTs) (k : Nat) :
    windowRows pf.wp pf.sp scheduled k = timeRows wlen wslide scheduled k := by
  rw [windowRows, timeRows]
  refine congrArg _ (congrArg _ (List.filter_congr fun t ht => ?_))
  apply decide_eq_decide.mpr
  rw [hpane t ht]
  exact PaneFarming.inWindow_paneOf hlen hwp hsp k (hts t ht)

/-- What the client has got of the windows of `wlen` milliseconds that slide by `wslide`: the first ones
in order, each with the tuples of its stretch of time that no other one dominates. -/
structure TimeSkylines {k : Nat} {S : Strategy N (k + 2)} (wlen wslide : Nat)
    (σ : PfState S (SkySet ℚ k)) : Prop where
  ids : σ.results.map Rset.id = List.range σ.results.length
  rows : ∀ r ∈ σ.results, (r.set.s.rows : Multiset (Row ℚ (k + 2))) =
    (timeRows wlen wslide σ.plq.scheduled r.id).filter fun p =>
      ∀ q ∈ timeRows wlen wslide σ.plq.scheduled r.id, ¬ q.Dominates p

/-- Skylines of windows of panes are skylines of stretches of time. -/
theorem Skylines.timeSkylines {k : Nat} {S : Strategy N (k + 2)} {σ : PfState S (SkySet ℚ k)}
    {wlen wslide : Nat} {pf : PaneFarming} (h : σ.Skylines pf.wp pf.sp) (hlen : 1 ≤ pf.paneLen)
    (hwp : pf.wp * pf.paneLen = wlen) (hsp : pf.sp * pf.paneLen = wslide)
    (hpane : ∀ t ∈ σ.plq.scheduled, t.paneId = Tuple.paneOf pf.paneLen t.appTs)
    (hts : ∀ t ∈ σ.plq.scheduled, 0 ≤ t.appTs) : σ.TimeSkylines wlen wslide where
  ids := h.ids
  rows := by
    intro r hr
    rw [← windowRows_eq_timeRows hlen hwp hsp hpane hts]
    exact h.rows r hr

/-- At the end the client has got the windows the last pane of which has begun before the stream
ended. -/
def TimeComplete {S : Strategy N DIM} {R : Type} (paneLen wlen wslide : Nat) (σ : PfState S R) :
    Prop :=
  ∀ k, k < σ.results.length ↔
    ∃ t ∈ σ.plq.scheduled, ((1000 * (k * wslide + wlen - paneLen) : Nat) : ℚ) ≤ t.appTs

/-- The pattern as its constructor sets it up for windows of `wlen` milliseconds that slide by `wslide`:
no run aborts, and if no timestamp is negative, the client always has the skylines of the first windows,
and at the termination those of all. -/
def InOrderWindows {k : Nat} (S : Strategy N (k + 2)) (pf : PaneFarming)
    (wlen wslide nwPlq nwWlq : Nat) : Prop :=
  ∀ es : List (PfEvent S (SkySet ℚ k)),
    Run.Valid (exec (inOrder pf.wp pf.sp pf.paneLen)) (Enabled (inOrder pf.wp pf.sp pf.paneLen)) es
      (init _ _ nwPlq nwWlq) →
    ∃ σ, Run.run (exec (inOrder pf.wp pf.sp pf.paneLen)) es (init _ _ nwPlq nwWlq) = .ok σ ∧
      ((∀ t ∈ σ.plq.scheduled, 0 ≤ t.appTs) → σ.TimeSkylines wlen wslide ∧
        (σ.Terminated → σ.TimeComplete pf.paneLen wlen wslide))

end PfState

/-- **Every strategy that refines the ledger answers the time-based window query.** -/
theorem Strategy.Refinement.inOrderWindows {k : Nat} {S : Strategy N (k + 2)} (Rf : S.Refinement)
    {wlen wslide : Nat} {pf : PaneFarming} (hpane : 1 ≤ pf.paneLen)
    (hwp : pf.wp * pf.paneLen = wlen) (hslide : pf.sp * pf.paneLen = wslide) (hsp : 1 ≤ pf.sp)
    (hle : pf.sp ≤ pf.wp) {nwPlq nwWlq : Nat} (hplq : 0 < nwPlq) (hplqN : nwPlq ≤ N)
    (hwlq : 0 < nwWlq) (hwlqN : nwWlq ≤ N) : InOrderWindows S pf wlen wslide nwPlq nwWlq := by
  intro es hes
  obtain ⟨σ, β, D, hrun, h, hcomplete⟩ :=
    Rf.runInOrder (SkySet ℚ k) pf.wp pf.sp pf.paneLen hsp hle hplq hplqN hwlq hwlqN hes
  have hof : ∀ t ∈ σ.plq.scheduled, t.paneId = Tuple.paneOf pf.paneLen t.appTs := by
    rw [h.scheduled]
    exact (h.tracked.good.current rfl).paneId
  refine ⟨σ, hrun, fun hts => ⟨?_, fun ht j => ?_⟩⟩
  · exact (h.skylines (Balanced.forecast Rf rfl)).timeSkylines hpane hwp hslide hof hts
  · rw [(hcomplete ht).2 j]
    refine exists_congr fun t => and_congr_right fun hmem => ?_
    -- the last pane of the window has begun
    have hiff := PaneFarming.le_paneOf_iff hpane (hts t hmem) (pf.sp * j + (pf.wp - 1))
    rw [PaneFarming.start_lastPane hwp hslide (hsp.trans hle), ← hof t hmem] at hiff
    rw [← hiff]
    omega

/-- **The in-order pattern answers the time-based window query.** For windows of `wlen` milliseconds that
slide by `wslide`, and with each of the three strategies, the client gets the windows in order, each with
the skyline of the tuples of its stretch of time, and none is missing at the end. -/
theorem inOrder_windows {k wlen wslide : Nat} (hslide : 1 ≤ wslide) (hlen : wslide ≤ wlen)
    {nwPlq nwWlq : Nat} (hplq : 0 < nwPlq) (hplqN : nwPlq ≤ N) (hwlq : 0 < nwWlq)
    (hwlqN : nwWlq ≤ N) :
    ∃ pf, PaneFarming.new wlen wslide = some pf ∧
      InOrderWindows (PbRrSched.strategy N (k + 2)) pf wlen wslide nwPlq nwWlq ∧
      InOrderWindows (TbRrSched.strategy N (k + 2)) pf wlen wslide nwPlq nwWlq ∧
      InOrderWindows (AdaptiveSched.strategy N (k + 2)) pf wlen wslide nwPlq nwWlq := by
  obtain ⟨pf, hpf, hpane, hwp, hsp, hone, hle⟩ := PaneFarming.new_spec hslide hlen
  exact ⟨pf, hpf,
    (PbRrSched.refinement N (k + 2)).inOrderWindows hpane hwp hsp hone hle hplq hplqN hwlq hwlqN,
    (TbRrSched.refinement N (k + 2)).inOrderWindows hpane hwp hsp hone hle hplq hplqN hwlq hwlqN,
    (AdaptiveSched.refinement N (k + 2)).inOrderWindows hpane hwp hsp hone hle hplq hplqN hwlq hwlqN⟩

/-- Windows of 2 ms that slide by 1 ms. -/
theorem inOrder_windows_witness :
    splitPaneEnd.results.map Rset.id = [0] ∧ splitPaneEnd.TimeSkylines 2 1 ∧
      splitPaneEnd.TimeComplete 1 2 1 := by
  have htwo : 0 < 2 := by decide
  obtain ⟨pf, hpf, -, hwindows, -⟩ := inOrder_windows (N := 2) (k := 0) (le_refl 1)
    (Nat.le_succ 1) htwo le_rfl htwo le_rfl
  have hnew : PaneFarming.new 2 1 = some ⟨1, 2, 1⟩ := by simp [PaneFarming.new, gcd_eq]
  obtain rfl := Option.some.inj (hpf.symm.trans hnew)
  obtain ⟨σ, hrun, hanswer⟩ := hwindows splitPaneRun (by decide +kernel)
  have hend : σ = splitPaneEnd := Except.ok.inj (hrun.symm.trans (Run.eq_ok_result _ _))
  rw [hend] at hanswer
  obtain ⟨hsky, hcomplete⟩ := hanswer (by decide +kernel)
  exact ⟨by decide +kernel, hsky, hcomplete ⟨by decide +kernel, by decide +kernel⟩⟩

end ElasticPPQ
