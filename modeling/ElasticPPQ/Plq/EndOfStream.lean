import ElasticPPQ.Plq.ClosedPanes

/-! # Which panes the end of the stream closes

Empty panes are materialized by the progress of the stream only: the end-of-stream message empties the
deques as they are. So whether every pane up to the largest one with a tuple has a results set depends
on the tables of the strategy when the stream ends (`PlqState.EndsClosed`). -/

namespace ElasticPPQ

open FifoNet PlqState

variable {N DIM : Nat} {R : Type} {S : Strategy N DIM} {c : PlqParams} {Rf : S.Refinement}

namespace PlqState

/-- Every pane up to the largest one that received a scheduled tuple has an emitted results set. -/
def PanesCovered (σ : PlqState S R) : Prop :=
  ∀ t ∈ σ.scheduled, ∀ p ≤ t.paneId, ∃ w, ∃ r ∈ σ.emitted w, r.id = p

/-- Every pane between the next one to complete and the largest one that received a scheduled tuple
has a partition. -/
def EndsClosed (σ : PlqState S R) : Prop :=
  ∀ t ∈ σ.scheduled, ∀ p < t.paneId, σ.nextPaneId ≤ p → σ.pInstances p ≠ 0

instance (σ : PlqState S R) : Decidable σ.PanesCovered := by
  unfold PanesCovered
  infer_instance

instance (σ : PlqState S R) : Decidable σ.EndsClosed := by
  unfold EndsClosed
  infer_instance

/-- A results set of pane `p` has left its mark in the cell of `p`. -/
theorem cell_eq_nil_iff {x : PlqWorker R × List (Rset R)} {p : Nat} :
    (PlqWorker.cell p x).2 = [] ↔ ∀ r ∈ x.2, r.id ≠ p := by
  rw [PlqWorker.cell, List.map_eq_nil_iff, List.filter_eq_nil_iff]
  exact forall₂_congr fun r _ => by rw [decide_eq_true_eq]

variable [PrefQuery (Row ℚ DIM) R]

/-- Once the workers have drained their queues after the end of the stream, the panes with a results
set are the closed ones and those with a partition. -/
theorem Handled.emitted_iff {σ : PlqState S R} (h : σ.Handled c Rf) (hend : σ.ended = true)
    (hd : σ.Drained) (p : Nat) :
    (∃ w, ∃ r ∈ σ.emitted w, r.id = p) ↔ p < σ.nextPaneId ∨ σ.pInstances p ≠ 0 := by
  obtain ⟨v, hs, -, htr, -, hnil⟩ := h.view
  have hv := hs.eq_node hd
  constructor
  · rintro ⟨w, r, hr, hid⟩
    by_contra hnot
    push Not at hnot
    -- an untouched pane has left no mark
    have hcell := htr.untouched p hnot.1 hnot.2 w
    rw [← hv] at hcell
    exact cell_eq_nil_iff.mp (congrArg Prod.snd hcell) r hr hid
  · intro hp
    obtain ⟨w, hw⟩ := htr.touched p hp
    -- nothing is open any more, so the mark is that of an emitted results set
    have hne : (viewCells v p w).2 ≠ [] := fun hnil' => hw (Prod.ext (hnil hend p w) hnil')
    rw [← hv] at hne
    by_contra hnone
    push Not at hnone
    exact hne (cell_eq_nil_iff.mpr fun r hr => hnone w r hr)

/-- The panes up to the largest one with a tuple have results sets exactly if none of them is without
a partition. -/
theorem Handled.panesCovered_iff {σ : PlqState S R} (h : σ.Handled c Rf) (hend : σ.ended = true)
    (hd : σ.Drained) : σ.PanesCovered ↔ σ.EndsClosed := by
  constructor
  · intro hcov t ht p hp hnext
    have := (h.emitted_iff hend hd p).mp (hcov t ht p hp.le)
    exact this.resolve_left (Nat.not_lt.mpr hnext)
  · intro hclosed t ht p hp
    apply (h.emitted_iff hend hd p).mpr
    rcases Nat.lt_or_ge p σ.nextPaneId with hlt | hnext
    · exact Or.inl hlt
    · refine Or.inr ?_
      rcases hp.lt_or_eq with hlt | rfl
      · exact hclosed t ht p hlt hnext
      · -- the pane of a tuple has a partition
        exact (Rf.sound h.inv).sized _ hnext (h.fed t ht)

/-- What the emitter knows at the end of the stream does not change any more. -/
structure SameTables (σ σ' : PlqState S R) : Prop where
  next : σ'.nextPaneId = σ.nextPaneId
  instances : σ'.pInstances = σ.pInstances
  scheduled : σ'.scheduled = σ.scheduled

omit [PrefQuery (Row ℚ DIM) R] in
/-- Whether the end of the stream finds all panes closed is read off the tables. -/
theorem SameTables.endsClosed_iff {σ σ' : PlqState S R} (h : SameTables σ σ') :
    σ'.EndsClosed ↔ σ.EndsClosed := by
  rw [EndsClosed, EndsClosed, h.next, h.instances, h.scheduled]

end PlqState

namespace PlqPipe

/-- The stream ends, and then the workers `ws` consume a message each. -/
def ending (ws : List (Fin N)) : List (PipeEvent S) := .finish :: ws.map .worker

variable [PrefQuery (Row ℚ DIM) R] {x : PlqPipe S R}

/-- The end of the stream. -/
theorem Ordered.finish (h : x.Ordered c Rf) (hi : c.iop = false) (he : x.Enabled c .finish) :
    ∃ x', x.exec c .finish = .ok x' ∧ x'.Ordered c Rf ∧ x'.stage.ended = true ∧
      SameTables x.stage x'.stage := by
  obtain ⟨x', hx', hord⟩ := h.step hi he
  refine ⟨x', hx', hord, ?_⟩
  rw [exec_passed rfl rfl] at hx'
  cases hx'
  refine ⟨rfl, ?_, ?_, rfl⟩
  · show (S.base (S.setBase _ x.stage.sched)).nextPaneId = _
    rw [Rf.base_setBase]
    rfl
  · show (S.base (S.setBase _ x.stage.sched)).instances = _
    rw [Rf.base_setBase]
    rfl

/-- A delivery. -/
theorem Ordered.worker (h : x.Ordered c Rf) (hi : c.iop = false) {w : Fin N}
    (he : x.Enabled c (.worker w)) :
    ∃ x', x.exec c (.worker w) = .ok x' ∧ x'.Ordered c Rf ∧ x'.stage.ended = x.stage.ended ∧
      SameTables x.stage x'.stage := by
  obtain ⟨x', hx', hord⟩ := h.step hi he
  obtain ⟨σ', hσ', -⟩ := h.handled.step hi (show x.stage.Enabled c (.worker w) from he)
  refine ⟨x', hx', hord, ?_⟩
  rw [exec_passed rfl hσ'] at hx'
  cases hx'
  rcases PlqState.exec_worker hσ' with ⟨hq, -⟩ | ⟨m, ms, y, -, -, rfl⟩
  · exact absurd hq he
  · exact ⟨rfl, rfl, rfl, rfl⟩

/-- The workers drain their queues. -/
theorem Ordered.workers (h : x.Ordered c Rf) (hi : c.iop = false) {ws : List (Fin N)}
    (hws : Run.Valid (exec c) (Enabled c) (ws.map .worker) x) :
    ∃ x', Run.run (exec c) (ws.map .worker) x = .ok x' ∧ x'.Ordered c Rf ∧
      x'.stage.ended = x.stage.ended ∧ SameTables x.stage x'.stage := by
  induction ws generalizing x with
  | nil => exact ⟨x, rfl, h, rfl, rfl, rfl, rfl⟩
  | cons w ws ih =>
      obtain ⟨x₁, hx₁, hord, hend, hsame⟩ := h.worker hi hws.1
      rw [List.map_cons, Run.valid_cons hx₁] at hws
      obtain ⟨x', hrun, hord', hend', hsame'⟩ := ih hord hws.2
      rw [List.map_cons, Run.run_cons hx₁]
      exact ⟨x', hrun, hord', hend'.trans hend, hsame'.next.trans hsame.next,
        hsame'.instances.trans hsame.instances, hsame'.scheduled.trans hsame.scheduled⟩

/-- **The end of the stream**: once the workers have drained their queues, every pane up to the
largest one that received a scheduled tuple has a results set exactly if each of those that were not
complete had a partition when the stream ended. -/
theorem Ordered.ending (h : x.Ordered c Rf) (hi : c.iop = false) {ws : List (Fin N)}
    (hws : Run.Valid (exec c) (Enabled c) (ending ws) x) :
    ∃ x', Run.run (exec c) (PlqPipe.ending ws) x = .ok x' ∧
      (x'.stage.Drained → (x'.stage.PanesCovered ↔ x.stage.EndsClosed)) := by
  obtain ⟨x₁, hx₁, hord, hend, hsame⟩ := h.finish hi hws.1
  rw [PlqPipe.ending, Run.valid_cons hx₁] at hws
  obtain ⟨x', hrun, hord', hend', hsame'⟩ := hord.workers hi hws.2
  refine ⟨x', by rw [PlqPipe.ending, Run.run_cons hx₁, hrun], fun hd => ?_⟩
  rw [hord'.handled.panesCovered_iff (hend'.trans hend) hd, hsame'.endsClosed_iff,
    hsame.endsClosed_iff]

/-- After every run, ending the stream covers the panes exactly if their tables are closed. -/
def CoversPanesIff (S : Strategy N DIM) (R : Type) [PrefQuery (Row ℚ DIM) R]
    (wp sp paneLength nw : Nat) (pidEnabled : Bool) : Prop :=
  ∀ es, Run.Valid (exec (oop wp sp paneLength)) (Enabled (oop wp sp paneLength)) es
      (init S R nw pidEnabled) →
    ∃ x, Run.run (exec (oop wp sp paneLength)) es (init S R nw pidEnabled) = .ok x ∧
      ∀ ws, Run.Valid (exec (oop wp sp paneLength)) (Enabled (oop wp sp paneLength)) (ending ws) x →
        ∃ x', Run.run (exec (oop wp sp paneLength)) (ending ws) x = .ok x' ∧
          (x'.stage.Drained → (x'.stage.PanesCovered ↔ x.stage.EndsClosed))

end PlqPipe

open PlqPipe

/-- Every strategy that refines the ledger covers the panes exactly where its tables end with a closed
one. -/
theorem Strategy.Refinement.coversPanesIff [PrefQuery (Row ℚ DIM) R] (Rf : S.Refinement)
    (wp sp paneLength : Nat) {nw : Nat} (hpos : 0 < nw) (hle : nw ≤ N) (pidEnabled : Bool) :
    CoversPanesIff S R wp sp paneLength nw pidEnabled := by
  intro es hes
  obtain ⟨x, hrun, hord⟩ := PlqPipe.Ordered.run Rf rfl hpos hle pidEnabled hes
  exact ⟨x, hrun, fun ws hws => hord.ending rfl hws⟩

/-- **When the end of the stream covers the panes**, for each of the three strategies. -/
theorem panes_covered_iff (R : Type) [PrefQuery (Row ℚ DIM) R] (wp sp paneLength : Nat) {nw : Nat}
    (hpos : 0 < nw) (hle : nw ≤ N) (pidEnabled : Bool) :
    CoversPanesIff (PbRrSched.strategy N DIM) R wp sp paneLength nw pidEnabled ∧
      CoversPanesIff (TbRrSched.strategy N DIM) R wp sp paneLength nw pidEnabled ∧
      CoversPanesIff (AdaptiveSched.strategy N DIM) R wp sp paneLength nw pidEnabled :=
  ⟨(PbRrSched.refinement N DIM).coversPanesIff wp sp paneLength hpos hle pidEnabled,
    (TbRrSched.refinement N DIM).coversPanesIff wp sp paneLength hpos hle pidEnabled,
    (AdaptiveSched.refinement N DIM).coversPanesIff wp sp paneLength hpos hle pidEnabled⟩

/-- Pane 1 is complete when the stream ends, and nothing is missing. -/
theorem panes_covered_iff_witness :
    ∃ x, Run.run (exec (oop 2 1 1)) [arrival true none 500, arrival true none 2500]
        (init (PbRrSched.strategy 2 1) (Build (Row ℚ 1)) 2 false) = .ok x ∧
      ∀ ws, Run.Valid (exec (oop 2 1 1)) (Enabled (oop 2 1 1)) (ending ws) x →
        ∃ x', Run.run (exec (oop 2 1 1)) (ending ws) x = .ok x' ∧
          (x'.stage.Drained → (x'.stage.PanesCovered ↔ x.stage.EndsClosed)) :=
  (panes_covered_iff (Build (Row ℚ 1)) 2 1 1 (by decide) (by decide) false).1 _ (by decide +kernel)

/-- The run that leaves a pane without a result: the punctuation of the second tuple, which is in
pane 2, is still in pane 0, and pane 1 is empty. -/
def gapRun : List (PipeEvent (PbRrSched.strategy 1 1)) :=
  [arrival true none 0, arrival true none 2000] ++ ending [0, 0, 0, 0]

/-- The state after that run. -/
def gapEnd : PlqPipe (PbRrSched.strategy 1 1) (Build (Row ℚ 1)) :=
  Run.result (Run.run (exec (oop 2 1 1)) gapRun (init _ _ 1 false)) (by decide +kernel)

/-- Pane 1 has no results set after that run. -/
theorem panes_covered_fails :
    ¬ ∀ es : List (PipeEvent (PbRrSched.strategy 1 1)),
      Run.Valid (exec (oop 2 1 1)) (Enabled (oop 2 1 1)) es
          (init _ (Build (Row ℚ 1)) 1 false) →
        ∀ x, Run.run (exec (oop 2 1 1)) es (init _ (Build (Row ℚ 1)) 1 false) = .ok x →
          x.stage.ended = true → x.stage.Drained → x.stage.PanesCovered := by
  intro h
  have hcov := h gapRun (by decide +kernel) gapEnd (Run.eq_ok_result _ _) (by decide +kernel)
    (by decide +kernel)
  exact absurd hcov (by decide +kernel)

end ElasticPPQ
