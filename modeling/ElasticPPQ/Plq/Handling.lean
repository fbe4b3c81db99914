import ElasticPPQ.Plq.Events
import ElasticPPQ.Plq.OutOfOrder

/-! # Messages reach workers that can handle them

In every run of either pipeline, whatever the strategy decides: no method of the emitter and no worker
aborts, only flushes are addressed to de-activated workers, `nw_plq` is the number of activated
workers, and a `NEW_INST` message finds the results set of its pane in the deque. The out-of-order
pipeline needs an invariant of its own (`PlqState.Handled`), because the count protocol may be broken
there; in the in-order pipeline the one of the count protocol is enough. -/

namespace ElasticPPQ

open FifoNet

variable {N DIM : Nat} {R : Type}

namespace PlqWorker

/-- A worker that does not abort on a `NEW_INST` message has the pane in its deque. -/
theorem mem_of_setInstances {w w' : PlqWorker R} {t : Tuple DIM} (h : w.setInstances t = some w') :
    ∃ r ∈ w.paneSet, r.id = t.paneId := by
  unfold setInstances at h
  cases hl : w.lowerBound t.paneId with
  | nil => simp [hl] at h
  | cons r rest =>
      refine ⟨r, ?_, ?_⟩
      · rw [← before_append_lowerBound w t.paneId, hl]
        exact List.mem_append_right _ List.mem_cons_self
      · by_contra hne
        simp [hl, hne] at h

end PlqWorker

variable [PrefQuery (Row ℚ DIM) R]

/-- A worker about to process a `NEW_INST` message without aborting has the pane open. -/
theorem PlqWorker.mem_of_feed {iop : Bool} {wp sp : Nat} {x y : PlqWorker R × List (Rset R)}
    {t : Tuple DIM} (ht : t.type = .newInst) (h : feed (svcOf iop wp sp) x t = some y) :
    ∃ r ∈ x.1.paneSet, r.id = t.paneId := by
  obtain ⟨o, hsvc, -⟩ := feed_eq_some.mp h
  -- the branch is the same in both pipelines
  have hset : (x.1.setInstances t).map (fun w' => (w', ([] : List (Rset R)))) = some (y.1, o) := by
    unfold svcOf at hsvc
    cases iop with
    | true => simpa only [if_true, svcIop, ht] using hsvc
    | false => simpa only [Bool.false_eq_true, if_false, svc, ht] using hsvc
  obtain ⟨w', hw', -⟩ := Option.map_eq_some_iff.mp hset
  exact mem_of_setInstances hw'

namespace PlqState

variable {S : Strategy N DIM} {c : PlqParams} {Rf : S.Refinement} {σ σ' : PlqState S R}

/-! ## The events that call the strategy -/

/-- The emitter calls a method of the strategy. -/
def Calls : PlqEvent S → Prop
  | .tuple _ _ | .progress _ _ _ | .add _ | .remove _ _ => True
  | .finish | .worker _ => False

/-- **Every event that calls the strategy does what it should.** -/
theorem Ready.emits (h : σ.Ready c Rf) {e : PlqEvent S} (hcall : Calls e) (he : σ.Enabled c e)
    (hle : c.iop = true → ∀ t ∈ scheduledBy e, σ.nextPaneId ≤ t.paneId) :
    ∃ σ', σ.exec c e = some σ' ∧ σ.Emits c Rf σ' e (σ.sends c e) := by
  cases e with
  | tuple env t =>
      cases hi : c.iop with
      | true => exact h.tupleIop hi he (hle hi t (List.mem_singleton_self t))
      | false => exact h.tuple hi he
  | progress env ts pId => exact h.progress he
  | add ws => exact h.add he
  | remove env ws => exact h.remove he
  | finish => exact absurd hcall id
  | worker w => exact absurd hcall id

/-- The messages of a state are handled: `nw_plq` is the number of activated workers, whatever is sent
next goes to activated workers unless it is a flush, and a worker that processes a `NEW_INST` message
next has the pane in its deque. -/
structure MessagesHandled (c : PlqParams) (σ : PlqState S R) : Prop where
  nwPlq : σ.ended = false → (S.base σ.sched).nwPlq = (S.base σ.sched).numActive
  toActive : ∀ e σ', σ.Enabled c e → σ.exec c e = some σ' → ∀ x ∈ σ.sends c e,
    x.2.type = .flush ∨ σ'.activated x.1 = true
  newInst : ∀ w m ms, σ.net.queue w = m :: ms → m.type = .newInst →
    ∃ r ∈ (σ.net.node w).1.paneSet, r.id = m.paneId

/-- The end-of-stream messages go to workers that have all been activated. -/
theorem finish_toActive (Rf : S.Refinement) (hσ : σ.exec c .finish = some σ') :
    ∀ w, σ'.activated w = true := by
  cases hσ
  intro w
  show (S.base (S.setBase _ σ.sched)).activatedWorker w = true
  rw [Rf.base_setBase]

/-- What is known of the messages on their way, for each of the four conclusions. -/
theorem Ready.messagesHandled (h : σ.Ready c Rf)
    (hnw : σ.ended = false → (S.base σ.sched).nwPlq = (S.base σ.sched).numActive)
    {v : Fin N → PlqWorker R × List (Rset R)}
    (hs : Settles (PlqWorker.svcOf c.iop c.wp c.sp) σ.net v)
    (hle : c.iop = true → ∀ e, σ.Enabled c e → ∀ t ∈ scheduledBy e, σ.nextPaneId ≤ t.paneId) :
    σ.MessagesHandled c where
  nwPlq := hnw
  toActive := by
    intro e σ' he hσ' x hx
    -- a call sends to activated workers or, as a flush, to those just removed
    by_cases hcall : Calls e
    · obtain ⟨σ₁, hσ₁, hem⟩ := h.emits hcall he fun hi => hle hi e he
      rw [hσ'] at hσ₁
      cases hσ₁
      exact hem.toActive x hx
    · cases e with
      | finish => exact Or.inr (finish_toActive Rf hσ' x.1)
      | worker w => exact absurd hx List.not_mem_nil
      | _ => exact absurd trivial hcall
  newInst := by
    intro w m ms hq hty
    obtain ⟨y, hy⟩ := hs.no_abort hq
    exact PlqWorker.mem_of_feed hty hy

/-! ## The out-of-order pipeline -/

/-- **The invariant of the out-of-order pipeline in any run.** -/
structure Handled (c : PlqParams) (Rf : S.Refinement) (σ : PlqState S R) : Prop where
  inv : Rf.Inv σ.sched
  hasActive : (S.base σ.sched).HasActive
  nwPlq : σ.ended = false → (S.base σ.sched).nwPlq = (S.base σ.sched).numActive
  fed : ∀ t ∈ σ.scheduled, (S.base σ.sched).size t.paneId ≠ 0
  view : ∃ v, Settles (PlqWorker.svcOf c.iop c.wp c.sp) σ.net v ∧
    (∀ w, PlqWorker.Shape c.iop (v w).1) ∧ (σ.ledger Rf).Traced (viewCells v) ∧
    (σ.ended = false → (σ.ledger Rf).Routed (viewCells v)) ∧
    (σ.ended = true → ∀ p w, (viewCells v p w).1 = [])

/-- Initially all but the first workers are de-activated. -/
theorem numActive_new {nw : Nat} (hle : nw ≤ N) : (Sched.new N nw).numActive = nw := by
  have hperm : ((List.finRange N).filter fun i => decide (i.val < nw)).map Fin.val
      = List.range nw := by
    have hfil : (List.finRange N).filter (fun i => decide (i.val < nw))
        = (List.finRange N).filter ((fun k => decide (k < nw)) ∘ Fin.val) := rfl
    rw [hfil, ← List.filter_map, List.map_coe_finRange_eq_range]
    -- the numbers below `nw` are the first ones
    rw [← Nat.add_sub_of_le hle, List.range_add, List.filter_append,
      List.filter_eq_self.mpr fun k hk => by simpa using List.mem_range.mp hk,
      List.filter_eq_nil_iff.mpr fun k hk => ?_, List.append_nil]
    obtain ⟨j, -, rfl⟩ := List.mem_map.mp hk
    simp
  show ((List.finRange N).filter fun i => decide (i.val < nw)).length = nw
  rw [← List.length_map Fin.val, hperm, List.length_range]

/-- The invariant holds initially. -/
theorem init_handled (c : PlqParams) (Rf : S.Refinement) {nw : Nat} (hpos : 0 < nw) (hle : nw ≤ N) :
    (init S R nw).Handled c Rf := by
  have hgood := init_good (R := R) c Rf hpos hle
  have hbase : S.base (init S R nw).sched = Sched.new N nw := Rf.base_new nw
  -- no worker has touched a pane yet, and no pane has a partition
  have hcells : ∀ p w, viewCells (fun _ : Fin N => (PlqWorker.new R, ([] : List (Rset R)))) p w
      = ([], []) := fun _ _ => rfl
  have htraced : ((init S R nw).ledger Rf).Traced
      (viewCells fun _ : Fin N => (PlqWorker.new R, ([] : List (Rset R)))) := by
    refine ⟨fun p _ _ w => hcells p w, fun p hp => ?_⟩
    have hnext : ((init S R nw).ledger Rf).next = 0 := by
      show (S.base (init S R nw).sched).nextPaneId = 0
      rw [hbase]
      rfl
    have hcount : ((init S R nw).ledger Rf).count p = 0 := by
      show (S.base (init S R nw).sched).instances p = 0
      rw [hbase]
      rfl
    rcases hp with hp | hp
    · rw [hnext] at hp
      exact absurd hp (Nat.not_lt_zero p)
    · exact absurd hcount hp
  have hnil : ∀ p, Rf.held (init S R nw).sched p = [] := by
    intro p
    have hsound := Rf.sound hgood.inv
    refine (hsound.held_iff p ?_).mpr ?_
    · rw [hbase]
      exact Nat.zero_le p
    · rw [hbase]
      rfl
  have hholders : ∀ p, ((init S R nw).ledger Rf).holders p = ∅ := by
    intro p
    show (Rf.held (init S R nw).sched p).toFinset = ∅
    rw [hnil p]
    rfl
  -- each clause of the invariant, with workers that will stay as they are
  refine ⟨hgood.inv, hgood.hasActive, fun _ => ?_, hgood.fed, fun _ => (PlqWorker.new R, []),
    fun _ => rfl, fun _ => ⟨List.Pairwise.nil, fun _ => Nat.zero_le _⟩, htraced,
    fun _ => ⟨htraced, ?_, ?_⟩, fun h => absurd h Bool.false_ne_true⟩
  · rw [hbase, numActive_new hle]
    rfl
  · intro p _ w hw
    rw [hholders p] at hw
    exact absurd hw (Finset.notMem_empty w)
  · intro p _ w hw
    rw [hholders p] at hw
    exact absurd hw (Finset.notMem_empty w)

/-- The emitter finds what it needs. -/
theorem Handled.ready (h : σ.Handled c Rf) (hi : c.iop = false) : σ.Ready c Rf where
  inv := h.inv
  hasActive := h.hasActive
  heldActive := by
    intro hend p hp w hw
    obtain ⟨v, -, -, -, hr, -⟩ := h.view
    exact (hr hend).active p hp w (List.mem_toFinset.mpr hw)
  single := fun hi' => absurd (hi.symm.trans hi') Bool.false_ne_true

/-- An event that calls the strategy keeps the invariant. -/
theorem Handled.emits (h : σ.Handled c Rf) (hi : c.iop = false) (hend : σ.ended = false)
    {e : PlqEvent S} {out : Sends N DIM} (he : σ.Emits c Rf σ' e out) :
    σ'.Handled c Rf := by
  obtain ⟨v, hs, hshape, -, hr, -⟩ := h.view
  obtain ⟨hok, hr'⟩ := (hr hend).route (he.route hi)
  rw [← hi] at hok
  obtain ⟨v', hs', hshape', hcells⟩ := view_send hs hshape hok
  rw [hi] at hcells
  refine ⟨he.inv, he.hasActive, fun _ => he.numActive (h.nwPlq hend), fun t ht => ?_, v', ?_,
    hshape', ?_, fun _ => ?_, fun hend' => ?_⟩
  -- a tuple scheduled before has been counted, one scheduled now as well
  · rw [he.scheduled] at ht
    rcases List.mem_append.mp ht with ht | ht
    · have hle := he.size_le t.paneId
      have hpos := h.fed t ht
      omega
    · exact he.fed ht
  · rw [he.net]
    exact hs'
  · rw [hcells]
    exact hr'.toTraced
  · rw [hcells]
    exact hr'
  · rw [he.ended, hend] at hend'
    exact absurd hend' Bool.false_ne_true

/-- The end of the stream keeps the invariant. -/
theorem Handled.finish (h : σ.Handled c Rf) (hi : c.iop = false) :
    ∃ σ', σ.exec c .finish = some σ' ∧ σ'.Handled c Rf := by
  obtain ⟨v, hs, hshape, htr, -, -⟩ := h.view
  -- the end of the stream settles every pane that anybody holds
  obtain ⟨hok, hnil, htr'⟩ := htr.finish
    (l := (List.finRange N).map fun v => (v, (Tuple.createEnd N : Tuple DIM))) rfl
  rw [← hi] at hok
  obtain ⟨v', hs', hshape', hcells⟩ := view_send hs hshape hok
  rw [hi] at hcells
  obtain ⟨s', hsched, hinv, hheld, hbase⟩ := Rf.broadcastEndToW h.inv
  refine ⟨_, rfl, ?_⟩
  rw [hsched]
  refine ⟨hinv, ?_, fun hend => ?_, ?_, v', hs', hshape', ?_, fun hend => ?_, fun _ => ?_⟩
  · show (S.base s').HasActive
    obtain ⟨w, -⟩ := h.hasActive
    rw [hbase]
    exact ⟨w, rfl⟩
  · exact absurd hend Bool.true_eq_false.mp
  · show ∀ t ∈ σ.scheduled, (S.base s').size t.paneId ≠ 0
    rw [hbase]
    exact h.fed
  -- the broadcast leaves the tables alone, so the panes are the same
  · rw [hcells]
    refine ⟨fun p hp hz w => htr'.untouched p ?_ ?_ w, fun p hp => htr'.touched p ?_⟩
    · have hp' : (S.base s').nextPaneId ≤ p := hp
      rw [hbase] at hp'
      exact hp'
    · have hz' : (S.base s').instances p = 0 := hz
      rw [hbase] at hz'
      exact hz'
    · have hp' : p < (S.base s').nextPaneId ∨ (S.base s').instances p ≠ 0 := hp
      rw [hbase] at hp'
      exact hp'
  · exact absurd hend Bool.true_eq_false.mp
  · rw [hcells]
    exact hnil

/-- A delivery does not change what the emitter knows, nor the settled view. -/
theorem Handled.worker (h : σ.Handled c Rf) {w : Fin N} (hw : σ.net.queue w ≠ []) :
    ∃ σ', σ.exec c (.worker w) = some σ' ∧ σ'.Handled c Rf := by
  obtain ⟨v, hs, hview⟩ := h.view
  cases hq : σ.net.queue w with
  | nil => exact absurd hq hw
  | cons m ms =>
      obtain ⟨y, hy⟩ := hs.no_abort hq
      refine ⟨{ σ with net := ⟨Function.update σ.net.node w y, Function.update σ.net.queue w ms⟩ },
        ?_, h.inv, h.hasActive, h.nwPlq, h.fed, v, hs.deliver (Deliver.mk w m ms y hq hy), hview⟩
      simp only [exec, hq, hy, Option.map_some]

/-- **Every event keeps the invariant, and none aborts.** -/
theorem Handled.step (h : σ.Handled c Rf) (hi : c.iop = false) {e : PlqEvent S}
    (he : σ.Enabled c e) : ∃ σ', σ.exec c e = some σ' ∧ σ'.Handled c Rf := by
  by_cases hcall : Calls e
  · obtain ⟨σ', hσ', hem⟩ := (h.ready hi).emits hcall he
      fun hi' => absurd (hi.symm.trans hi') Bool.false_ne_true
    refine ⟨σ', hσ', h.emits hi ?_ hem⟩
    -- none of these calls may happen after the end of the stream
    cases e with
    | tuple env t => exact he.1
    | progress env ts pId => exact he.1
    | add ws => exact he.1
    | remove env ws => exact he.1
    | finish => exact absurd hcall id
    | worker w => exact absurd hcall id
  · cases e with
    | finish => exact h.finish hi
    | worker w => exact h.worker he
    | _ => exact absurd trivial hcall

/-- Out-of-order workers handle every message. -/
theorem Handled.messagesHandled (h : σ.Handled c Rf) (hi : c.iop = false) :
    σ.MessagesHandled c := by
  obtain ⟨v, hs, -⟩ := h.view
  exact (h.ready hi).messagesHandled h.nwPlq hs
    fun hi' => absurd (hi.symm.trans hi') Bool.false_ne_true

/-! ## The in-order pipeline -/

/-- No tuple is for a pane before the current one. -/
theorem Good.tuple_le (h : σ.Good c Rf) (hi : c.iop = true) {e : PlqEvent S} (he : σ.Enabled c e) :
    ∀ t ∈ scheduledBy e, σ.nextPaneId ≤ t.paneId := by
  intro t ht
  cases e with
  | tuple env u =>
      rw [List.mem_singleton.mp ht]
      have hp := he.2.2
      rw [hi, if_pos rfl] at hp
      exact h.nextPaneId_le hi hp.1 hp.2
  | _ => exact absurd ht List.not_mem_nil

/-- `nw_plq` is the number of activated workers. -/
theorem Good.nwPlq (h : σ.Good c Rf) (hi : c.iop = true)
    (hnw : σ.ended = false → (S.base σ.sched).nwPlq = (S.base σ.sched).numActive) {e : PlqEvent S}
    (he : σ.Enabled c e) (hσ' : σ.exec c e = some σ') :
    σ'.ended = false → (S.base σ'.sched).nwPlq = (S.base σ'.sched).numActive := by
  intro hend
  -- a call adds or removes the workers that it counts, a worker changes nothing
  by_cases hcall : Calls e
  · obtain ⟨σ₁, hσ₁, hem⟩ := h.ready.emits hcall he fun _ => h.tuple_le hi he
    rw [hσ'] at hσ₁
    cases hσ₁
    exact hem.numActive (hnw (hem.ended ▸ hend))
  · cases e with
    | finish =>
        cases hσ'
        exact absurd hend Bool.true_eq_false.mp
    | worker w =>
        rcases exec_worker hσ' with ⟨hq, -⟩ | ⟨m, ms, y, -, -, rfl⟩
        · exact absurd hq he
        · exact hnw hend
    | _ => exact absurd trivial hcall

/-! ## Runs -/

/-- No run of the stage aborts, and each leads to a state in which the messages are handled. -/
def HandlesMessages (S : Strategy N DIM) (R : Type) [PrefQuery (Row ℚ DIM) R] (c : PlqParams)
    (nw : Nat) : Prop :=
  ∀ es, Valid c (fun _ _ => True) es (init S R nw) →
    ∃ σ, run c es (init S R nw) = some σ ∧ σ.MessagesHandled c

end PlqState

open PlqState

/-- A run of the out-of-order pipeline keeps the invariant. -/
theorem PlqState.Handled.run {S : Strategy N DIM} {c : PlqParams} {Rf : S.Refinement} (hi : c.iop = false)
    {nw : Nat} (hpos : 0 < nw) (hle : nw ≤ N) {es : List (PlqEvent S)}
    (hes : Valid c (fun _ _ => True) es (init S R nw)) :
    ∃ σ, PlqState.run c es (init S R nw) = some σ ∧ σ.Handled c Rf :=
  Valid.induction (P := fun σ => σ.Handled c Rf) (fun _ _ h he _ => h.step hi he) hes
    (init_handled c Rf hpos hle)

/-- **Every strategy that refines the ledger has its messages handled, in both pipelines.** -/
theorem Strategy.Refinement.handlesMessages {S : Strategy N DIM} (Rf : S.Refinement) (c : PlqParams)
    {nw : Nat} (hpos : 0 < nw) (hle : nw ≤ N) : HandlesMessages S R c nw := by
  intro es hes
  -- out of order the invariant of handling is enough, in order that of the protocol is needed
  cases hi : c.iop with
  | false =>
      obtain ⟨σ, hrun, hh⟩ : ∃ σ, run c es (init S R nw) = some σ ∧ σ.Handled c Rf :=
        PlqState.Handled.run hi hpos hle hes
      exact ⟨σ, hrun, hh.messagesHandled hi⟩
  | true =>
      obtain ⟨σ, hrun, hgood, hnw⟩ := Valid.induction
        (P := fun σ => σ.Good c Rf ∧
          (σ.ended = false → (S.base σ.sched).nwPlq = (S.base σ.sched).numActive))
        (fun σ e h he _ => by
          obtain ⟨σ', hσ', hgood', -⟩ := h.1.stepIop hi he
          exact ⟨σ', hσ', hgood', h.1.nwPlq hi h.2 he hσ'⟩)
        hes ⟨init_good c Rf hpos hle, fun _ => by
          have hbase : S.base (init S R nw).sched = Sched.new N nw := Rf.base_new nw
          rw [hbase, numActive_new hle]
          rfl⟩
      obtain ⟨v, hs, -⟩ := hgood.view
      exact ⟨σ, hrun, hgood.ready.messagesHandled hnw hs fun _ e he => hgood.tuple_le hi he⟩

/-- **Messages only reach workers able to handle them**, for each of the three strategies, with
out-of-order and with in-order workers. -/
theorem messages_handled (R : Type) [PrefQuery (Row ℚ DIM) R] (c : PlqParams) {nw : Nat}
    (hpos : 0 < nw) (hle : nw ≤ N) :
    HandlesMessages (PbRrSched.strategy N DIM) R c nw ∧
      HandlesMessages (TbRrSched.strategy N DIM) R c nw ∧
      HandlesMessages (AdaptiveSched.strategy N DIM) R c nw :=
  ⟨(PbRrSched.refinement N DIM).handlesMessages c hpos hle,
    (TbRrSched.refinement N DIM).handlesMessages c hpos hle,
    (AdaptiveSched.refinement N DIM).handlesMessages c hpos hle⟩

/-- A pane is split, migrates and is given up, with all the messages still on their way. -/
theorem messages_handled_witness :
    ∃ σ, run (oop 2 1 1) [.tuple () (tupleOf 0), .tuple () (tupleOf 0), .remove () [0],
        .progress () 0 2, .tuple () (tupleOf 3), .add [0], .remove () [1], .worker 0]
        (init (TbRrSched.strategy 2 1) (Build (Row ℚ 1)) 2) = some σ ∧
      σ.MessagesHandled (oop 2 1 1) :=
  (messages_handled (Build (Row ℚ 1)) (oop 2 1 1) (by decide) (by decide)).2.1 _
    (by decide +kernel)

end ElasticPPQ
