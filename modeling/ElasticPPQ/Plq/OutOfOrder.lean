import ElasticPPQ.Plq.Protocol

/-! # The count protocol in the out-of-order pipeline

For each strategy: what a run guarantees of the results sets that the workers emit. Pane-based
round-robin guarantees the count protocol for every closed pane, whatever happens. The other two
strategies guarantee it as long as no removal touches a pane before its first tuple. -/

namespace ElasticPPQ

open FifoNet PlqState

variable {N DIM : Nat} {R : Type} [PrefQuery (Row ℚ DIM) R]

/-- The stage of the out-of-order pipeline. -/
def oop (wp sp paneLength : Nat) : PlqParams := ⟨wp, sp, paneLength, false⟩

/-- Once the channels are empty every closed pane satisfies the count protocol, and its number of
partitions is final. -/
def ClosedPanesCounted {S : Strategy N DIM} (c : PlqParams) (C : PlqState S R → PlqEvent S → Prop)
    (σ : PlqState S R) : Prop :=
  σ.Drained → ∀ p, p < σ.nextPaneId → CountProtocol σ.emitted p (σ.pInstances p) ∧
    ∀ es σ', Valid c C es σ → run c es σ = some σ' → σ'.pInstances p = σ.pInstances p

/-- In a run whose steps are as the strategy needs them the closed panes are counted right. -/
theorem closedPanesCounted_of_valid {S : Strategy N DIM} (Rf : S.Refinement)
    {C : PlqState S R → PlqEvent S → Prop}
    (hC : ∀ σ e, Rf.Inv σ.sched → C σ e → σ.StepOk Rf e) (wp sp paneLength : Nat) {nw : Nat}
    (hpos : 0 < nw) (hle : nw ≤ N) {es : List (PlqEvent S)}
    (hes : Valid (oop wp sp paneLength) C es (init S R nw)) :
    ∃ σ, run (oop wp sp paneLength) es (init S R nw) = some σ ∧
      σ.Good (oop wp sp paneLength) Rf ∧ ClosedPanesCounted (oop wp sp paneLength) C σ := by
  obtain ⟨σ, hrun, hgood, -⟩ := Valid.good rfl hC hes (init_good _ Rf hpos hle)
  refine ⟨σ, hrun, hgood, fun hd p hp => ⟨hgood.countProtocol rfl hd hp, ?_⟩⟩
  intro es' σ' hes' hrun'
  obtain ⟨σ'', hrun'', -, hfin⟩ := Valid.good rfl hC hes' hgood
  rw [hrun'', Option.some.injEq] at hrun'
  subst hrun'
  exact hfin.pInstances p hp

/-! ## Pane-based round-robin -/

omit [PrefQuery (Row ℚ DIM) R] in
/-- Every step is as pane-based round-robin needs it. -/
theorem PlqState.stepOk_pbRr (σ : PlqState (PbRrSched.strategy N DIM) R)
    (e : PlqEvent (PbRrSched.strategy N DIM)) (h : (PbRrSched.refinement N DIM).Inv σ.sched) :
    σ.StepOk (PbRrSched.refinement N DIM) e := by
  cases e with
  | progress env ts pId => exact PbRrSched.Inv.noGap h pId
  | _ => exact trivial

/-- **The count protocol of `PB_RR_Sched`.** No run aborts; once the channels are empty every closed
pane, and after the end of the stream every pane that received a tuple, satisfies it. -/
theorem pbRr_count_protocol (wp sp paneLength : Nat) {nw : Nat} (hpos : 0 < nw) (hle : nw ≤ N)
    (es : List (PlqEvent (PbRrSched.strategy N DIM)))
    (hes : Valid (oop wp sp paneLength) (fun _ _ => True) es (init _ R nw)) :
    ∃ σ, run (oop wp sp paneLength) es (init _ R nw) = some σ ∧
      ClosedPanesCounted (oop wp sp paneLength) (fun _ _ => True) σ ∧
      (σ.Drained → σ.ended = true →
        ∀ t ∈ σ.scheduled, CountProtocol σ.emitted t.paneId (σ.pInstances t.paneId)) := by
  obtain ⟨σ, hrun, hgood, hclosed⟩ := closedPanesCounted_of_valid _
    (fun σ e hinv _ => stepOk_pbRr σ e hinv) wp sp paneLength hpos hle hes
  exact ⟨σ, hrun, hclosed, fun hd hend t ht =>
    hgood.countProtocol_ended hend hd (Or.inr ⟨t, ht, rfl⟩)⟩

/-- A tuple of pane `p`, for runs on fixed inputs. -/
def tupleOf (p : Nat) : Tuple 1 := { Tuple.new 1 with type := .regular, paneId := p }

/-- A pane migrates twice, a later pane is a lull, and the stream ends. -/
theorem pbRr_count_protocol_witness :
    ∃ σ, run (oop 2 1 1) [.tuple () (tupleOf 0), .remove () [0], .worker 0, .tuple () (tupleOf 0),
        .add [0], .remove () [1], .progress () 0 2, .worker 0, .worker 1, .worker 1, .worker 1,
        .worker 0, .worker 0, .finish, .worker 0, .worker 1]
        (init (PbRrSched.strategy 2 1) (Build (Row ℚ 1)) 2) = some σ ∧
      ClosedPanesCounted (oop 2 1 1) (fun _ _ => True) σ ∧
      (σ.Drained → σ.ended = true →
        ∀ t ∈ σ.scheduled, CountProtocol σ.emitted t.paneId (σ.pInstances t.paneId)) :=
  pbRr_count_protocol 2 1 1 (by decide) (by decide) _ (by decide)

/-! ## Tuple-based round-robin -/

/-- No progress of the stream closes a pane that has partitions but no tuples. -/
def NoGapStep {S : Strategy N DIM} (σ : PlqState S R) : PlqEvent S → Prop
  | .progress _ _ pId => (S.base σ.sched).NoGap pId
  | _ => True

instance decidableNoGapStep {S : Strategy N DIM} (σ : PlqState S R) :
    (e : PlqEvent S) → Decidable (NoGapStep σ e)
  | .progress _ _ pId => inferInstanceAs (Decidable ((S.base σ.sched).NoGap pId))
  | .tuple _ _ | .add _ | .remove _ _ | .finish | .worker _ => isTrue trivial

/-- **The count protocol of `TB_RR_Sched`** holds in every run in which no progress of the stream
closes a pane that a removal has given a partition and that got no tuple. -/
theorem tbRr_count_protocol (wp sp paneLength : Nat) {nw : Nat} (hpos : 0 < nw) (hle : nw ≤ N)
    (es : List (PlqEvent (TbRrSched.strategy N DIM)))
    (hes : Valid (oop wp sp paneLength) NoGapStep es (init _ R nw)) :
    ∃ σ, run (oop wp sp paneLength) es (init _ R nw) = some σ ∧
      ClosedPanesCounted (oop wp sp paneLength) NoGapStep σ := by
  have hok : ∀ (σ : PlqState (TbRrSched.strategy N DIM) R) e,
      (TbRrSched.refinement N DIM).Inv σ.sched → NoGapStep σ e →
        σ.StepOk (TbRrSched.refinement N DIM) e := by
    intro σ e _ hc
    cases e with
    | progress env ts pId => exact hc
    | _ => exact trivial
  obtain ⟨σ, hrun, -, hclosed⟩ := closedPanesCounted_of_valid _ hok wp sp paneLength hpos hle hes
  exact ⟨σ, hrun, hclosed⟩

/-- A pane with two partitions loses one of its workers, and is closed. -/
theorem tbRr_count_protocol_witness :
    ∃ σ, run (oop 2 1 1) [.tuple () (tupleOf 0), .tuple () (tupleOf 0), .remove () [0],
        .progress () 0 1, .worker 0, .worker 0, .worker 0, .worker 1, .worker 1]
        (init (TbRrSched.strategy 2 1) (Build (Row ℚ 1)) 2) = some σ ∧
      ClosedPanesCounted (oop 2 1 1) NoGapStep σ :=
  tbRr_count_protocol 2 1 1 (by decide) (by decide) _ (by decide)

/-- The run that breaks the protocol of `TB_RR_Sched`: pane 1 enters the tables with the progress to
it, a removal gives it a partition although it has no tuples, and when it is closed without tuples
its lull comes as another one. -/
def tbRrGapRun : List (PlqEvent (TbRrSched.strategy 2 1)) :=
  [.progress () 0 1, .remove () [0], .progress () 0 2, .worker 0, .worker 0, .worker 0, .worker 1,
    .worker 1, .worker 1, .worker 1]

/-- The state after that run. -/
def tbRrGapEnd : PlqState (TbRrSched.strategy 2 1) (Build (Row ℚ 1)) :=
  (run (oop 1 1 1) tbRrGapRun (init _ _ 2)).get (by decide)

/-- Of pane 1, which has one partition, two results sets are emitted. -/
theorem tbRr_count_protocol_fails :
    ¬ ∀ es : List (PlqEvent (TbRrSched.strategy 2 1)),
      Valid (oop 1 1 1) (fun _ _ => True) es (init _ (Build (Row ℚ 1)) 2) →
        ∀ σ, run (oop 1 1 1) es (init _ (Build (Row ℚ 1)) 2) = some σ → σ.Drained →
          ∀ p, p < σ.nextPaneId → CountProtocol σ.emitted p (σ.pInstances p) := by
  intro h
  have hcount := h tbRrGapRun (by decide) tbRrGapEnd (Option.some_get _).symm (by decide) 1
    (by decide)
  exact absurd hcount.total (by decide)

/-! ## Adaptive scheduling -/

/-- No progress of the stream closes a pane that has partitions but no tuples, and a first tuple of a
pane finds no partition, or only the one of the worker that it goes to. -/
def UntouchedStep (σ : PlqState (AdaptiveSched.strategy N DIM) R) :
    PlqEvent (AdaptiveSched.strategy N DIM) → Prop
  | .tuple env t => AdaptiveSched.FirstOk env t.paneId σ.sched
  | .progress _ _ pId => σ.sched.NoGap pId
  | _ => True

/-- **The count protocol of `Adaptive_Sched` and `Adaptive_Sched_PID`** holds in every run in which a
pane that a removal has given a partition is neither closed without tuples nor, unless that partition
is of the worker that the tuple goes to, given its first tuple. -/
theorem adaptive_count_protocol (wp sp paneLength : Nat) {nw : Nat} (hpos : 0 < nw) (hle : nw ≤ N)
    (es : List (PlqEvent (AdaptiveSched.strategy N DIM)))
    (hes : Valid (oop wp sp paneLength) UntouchedStep es (init _ R nw)) :
    ∃ σ, run (oop wp sp paneLength) es (init _ R nw) = some σ ∧
      ClosedPanesCounted (oop wp sp paneLength) UntouchedStep σ := by
  -- the condition on a step is that of the strategy on its call
  have hok : ∀ (σ : PlqState (AdaptiveSched.strategy N DIM) R) e,
      (AdaptiveSched.refinement N DIM).Inv σ.sched → UntouchedStep σ e →
        σ.StepOk (AdaptiveSched.refinement N DIM) e := by
    intro σ e _ hc
    cases e with
    | tuple env t => exact hc
    | progress env ts pId => exact hc
    | _ => exact trivial
  obtain ⟨σ, hrun, -, hclosed⟩ := closedPanesCounted_of_valid _ hok wp sp paneLength hpos hle hes
  exact ⟨σ, hrun, hclosed⟩

instance decidableUntouchedStep (σ : PlqState (AdaptiveSched.strategy N DIM) R) :
    (e : PlqEvent (AdaptiveSched.strategy N DIM)) → Decidable (UntouchedStep σ e)
  | .tuple env t => AdaptiveSched.decidableFirstOk env t.paneId σ.sched
  | .progress _ _ pId => inferInstanceAs (Decidable (σ.sched.NoGap pId))
  | .add _ | .remove _ _ | .finish | .worker _ => isTrue trivial

/-- An environment in which all the queues are empty. -/
def idleEnv (N : Nat) : AdaptiveEnv N where
  qlen := fun _ _ => 0
  alpha := 1
  outOfRange := fun _ => 0
  sqrt := id

/-- A pane migrates, and is closed. -/
theorem adaptive_count_protocol_witness :
    ∃ σ, run (oop 2 1 1) [.tuple (idleEnv 2) (tupleOf 0), .tuple (idleEnv 2) (tupleOf 0),
        .remove (idleEnv 2) [0], .progress (idleEnv 2) 0 1, .worker 0, .worker 0, .worker 0,
        .worker 1, .worker 1]
        (init (AdaptiveSched.strategy 2 1) (Build (Row ℚ 1)) 2) = some σ ∧
      ClosedPanesCounted (oop 2 1 1) UntouchedStep σ :=
  adaptive_count_protocol 2 1 1 (by decide) (by decide) _ (by decide +kernel)

/-- The run that breaks the protocol of `Adaptive_Sched`: a removal gives pane 1 a partition before
its first tuple, and the first tuple forgets that partition. -/
def adaptiveForgetRun : List (PlqEvent (AdaptiveSched.strategy 3 1)) :=
  [.progress (idleEnv 3) 0 1, .remove (idleEnv 3) [0], .tuple (idleEnv 3) (tupleOf 1),
    .progress (idleEnv 3) 0 2, .worker 0, .worker 0, .worker 0, .worker 1, .worker 1, .worker 1,
    .worker 2, .worker 2, .worker 2]

/-- The state after that run. -/
def adaptiveForgetEnd : PlqState (AdaptiveSched.strategy 3 1) (Build (Row ℚ 1)) :=
  (run (oop 1 1 1) adaptiveForgetRun (init _ _ 3)).get (by decide +kernel)

/-- Of pane 1, which has one partition, two results sets are emitted. -/
theorem adaptive_count_protocol_fails :
    ¬ ∀ es : List (PlqEvent (AdaptiveSched.strategy 3 1)),
      Valid (oop 1 1 1) (fun _ _ => True) es (init _ (Build (Row ℚ 1)) 3) →
        ∀ σ, run (oop 1 1 1) es (init _ (Build (Row ℚ 1)) 3) = some σ → σ.Drained →
          ∀ p, p < σ.nextPaneId → CountProtocol σ.emitted p (σ.pInstances p) := by
  intro h
  have hcount := h adaptiveForgetRun (by decide +kernel) adaptiveForgetEnd
    (Option.some_get _).symm (by decide +kernel) 1 (by decide +kernel)
  exact absurd hcount.total (by decide +kernel)

end ElasticPPQ
