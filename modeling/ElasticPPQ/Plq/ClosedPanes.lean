import ElasticPPQ.Plq.Emitter

/-! # No tuple is scheduled into a closed pane

Three notions of progress stay in order, however late the tuples are, however the slack changes, and
whichever punctuations are suppressed: the next pane to complete is not beyond the pane of the highest
punctuation, which is not beyond the highest timestamp (`PlqPipe.Ordered`). So a tuple that is not
dropped finds its pane open, and a tuple that is as recent as all the earlier ones is not dropped. -/

namespace ElasticPPQ

open FifoNet PlqState

variable {N DIM : Nat} {R : Type} {S : Strategy N DIM} {c : PlqParams} {Rf : S.Refinement}

/-- The pane identifiers of the punctuations among a list of sends. -/
def punctuations (l : Sends N DIM) : List Nat :=
  ((l.map Prod.snd).filter fun m => m.type = .punct).map Tuple.paneId

/-- The punctuations of two batches. -/
@[simp] theorem punctuations_append (l m : Sends N DIM) :
    punctuations (l ++ m) = punctuations l ++ punctuations m := by
  rw [punctuations, List.map_append, List.filter_append, List.map_append]
  rfl

/-- A pane is punctuated by a message that says so. -/
theorem mem_punctuations {l : Sends N DIM} {p : Nat} :
    p ∈ punctuations l ↔ ∃ x ∈ l, x.2.type = .punct ∧ x.2.paneId = p := by
  simp only [punctuations, List.mem_map, List.mem_filter, decide_eq_true_eq]
  constructor
  · rintro ⟨m, ⟨⟨x, hx, rfl⟩, hty⟩, rfl⟩
    exact ⟨x, hx, hty, rfl⟩
  · rintro ⟨x, hx, hty, rfl⟩
    exact ⟨x.2, ⟨⟨x, hx, rfl⟩, hty⟩, rfl⟩

/-- The punctuations sent so far are in order, and none is beyond pane `next`. -/
structure Announced (sent : Sends N DIM) (next : Nat) : Prop where
  ordered : (punctuations sent).Pairwise (· ≤ ·)
  le : ∀ p ∈ punctuations sent, p ≤ next

/-- Punctuations for one and the same pane, not before the earlier ones. -/
theorem Announced.append {sent : Sends N DIM} {next next' : Nat} (h : Announced sent next)
    (hle : next ≤ next') {out : Sends N DIM}
    (hout : ∀ x ∈ out, x.2.type = .punct → x.2.paneId = next') : Announced (sent ++ out) next' := by
  -- all the punctuations of the batch are of the pane that is now next
  have hnew : ∀ p ∈ punctuations out, p = next' := by
    intro p hp
    obtain ⟨x, hx, hty, rfl⟩ := mem_punctuations.mp hp
    exact hout x hx hty
  refine ⟨?_, fun p hp => ?_⟩
  · rw [punctuations_append]
    refine List.pairwise_append.mpr ⟨h.ordered, ?_, fun p hp q hq => ?_⟩
    · refine List.pairwise_iff_forall_sublist.mpr fun {p q} hsub => ?_
      have hp := hnew p (hsub.subset List.mem_cons_self)
      have hq := hnew q (hsub.subset (List.mem_cons_of_mem _ List.mem_cons_self))
      exact (hp.trans hq.symm).le
    · rw [hnew q hq]
      exact (h.le p hp).trans hle
  · rw [punctuations_append] at hp
    rcases List.mem_append.mp hp with hp | hp
    · exact (h.le p hp).trans hle
    · exact (hnew p hp).le

/-! ## One call -/

variable [PrefQuery (Row ℚ DIM) R]

/-- A call of the emitter leads from `σ` to `σ'`, in order. -/
structure Called (c : PlqParams) (Rf : S.Refinement) (e : PlqEvent S) (σ σ' : PlqState S R)
    (sent : Sends N DIM) : Prop where
  handled : σ'.Handled c Rf
  next : σ'.nextPaneId = nextAfter c e σ.nextPaneId
  ended : Calls e → σ'.ended = σ.ended
  announced : Announced sent σ.nextPaneId → Announced (sent ++ σ.sends c e) σ'.nextPaneId

/-- Neither the end of the stream nor a delivery changes the next pane to complete. -/
theorem PlqState.nextPaneId_exec_of_not_calls (Rf : S.Refinement) {σ σ' : PlqState S R}
    {e : PlqEvent S} (hcall : ¬ Calls e) (he : σ.Enabled c e) (hσ : σ.exec c e = some σ') :
    σ'.nextPaneId = nextAfter c e σ.nextPaneId := by
  cases e with
  | finish =>
      cases hσ
      show (S.base (S.setBase _ σ.sched)).nextPaneId = _
      rw [Rf.base_setBase]
      rfl
  | worker w =>
      rcases exec_worker hσ with ⟨hq, -⟩ | ⟨m, ms, y, -, -, rfl⟩
      · exact absurd hq he
      · rfl
  | _ => exact absurd trivial hcall

/-- **Every call that may be made takes place.** -/
theorem PlqState.Handled.called {σ : PlqState S R} (h : σ.Handled c Rf) (hi : c.iop = false)
    {e : PlqEvent S} (he : σ.Enabled c e) (sent : Sends N DIM) :
    ∃ σ', σ.exec c e = some σ' ∧ Called c Rf e σ σ' sent := by
  obtain ⟨σ', hσ', hh⟩ := h.step hi he
  by_cases hcall : Calls e
  · obtain ⟨σ₁, hσ₁, hem⟩ := (h.ready hi).emits hcall he
      fun hi' => absurd (hi.symm.trans hi') Bool.false_ne_true
    rw [hσ'] at hσ₁
    cases hσ₁
    exact ⟨σ', hσ', hh, hem.nextPaneId, fun _ => hem.ended,
      fun ha => ha.append hem.next fun x hx hty => (hem.punct x hx hty).2⟩
  · -- neither the end of the stream nor a delivery sends a punctuation
    have hnext := nextPaneId_exec_of_not_calls Rf hcall he hσ'
    refine ⟨σ', hσ', hh, hnext, fun hc => absurd hc hcall,
      fun ha => ha.append (hnext ▸ le_nextAfter c e _) ?_⟩
    intro x hx hty
    cases e with
    | finish =>
        obtain ⟨i, -, rfl⟩ := List.mem_map.mp hx
        cases hty
    | worker w => exact absurd hx List.not_mem_nil
    | _ => exact absurd trivial hcall

namespace PlqPipe

/-- The first call of the emitter, then the rest. -/
theorem perform_cons {e : PlqEvent S} {es : List (PlqEvent S)} {σ σ' : PlqState S R}
    {sent : Sends N DIM} (h : σ.exec c e = some σ') :
    perform c (e :: es) σ sent = perform c es σ' (sent ++ σ.sends c e) := by
  rw [perform, h]

/-- Calls of the emitter in two parts. -/
theorem perform_append {es es' : List (PlqEvent S)} {σ σ' : PlqState S R} {sent sent' : Sends N DIM}
    (h : perform c es σ sent = .ok (σ', sent')) :
    perform c (es ++ es') σ sent = perform c es' σ' sent' := by
  induction es generalizing σ sent with
  | nil =>
      cases h
      rfl
  | cons e es ih =>
      cases he : σ.exec c e with
      | none =>
          rw [perform, he] at h
          cases h
      | some σ₁ =>
          rw [perform_cons he] at h
          rw [List.cons_append, perform_cons he]
          exact ih h

/-- An event whose calls take place. -/
theorem exec_eq_ok {x : PlqPipe S R} {e : PipeEvent S} {e' : PlqEmitter} {calls : List (PlqEvent S)}
    (hcalls : x.calls c.paneLength e = (e', calls)) {σ : PlqState S R} {sent : Sends N DIM}
    (hrun : perform c calls x.stage x.sent = .ok (σ, sent)) :
    x.exec c e = .ok ⟨e', σ, x.received ++ rows e, sent⟩ := by
  rw [exec, hcalls]
  dsimp only
  rw [hrun]

/-- **The order between the three notions of progress.** -/
structure Ordered (c : PlqParams) (Rf : S.Refinement) (x : PlqPipe S R) : Prop where
  handled : x.stage.Handled c Rf
  emitter : x.emitter.Inv
  next : x.stage.nextPaneId ≤ Tuple.paneOf c.paneLength x.emitter.lastP
  tcurr : ∀ ts, 0 ≤ ts → (∀ r ∈ x.received, r.appTs ≤ ts) → x.emitter.tcurr ≤ ts
  announced : Announced x.sent x.stage.nextPaneId

variable {x : PlqPipe S R}

/-- The calls of the punctuation mechanism take place, and leave no pane complete beyond the highest
punctuation. -/
theorem Ordered.progress (h : x.Ordered c Rf) (hi : c.iop = false) (hend : x.stage.ended = false)
    {env : ReceiveEnv S} {e' : PlqEmitter} (hmono : x.emitter.lastP ≤ e'.lastP)
    {calls : List (PlqEvent S)} (hcalls : PlqEmitter.Progresses c.paneLength env e' calls) :
    ∃ σ sent, perform c calls x.stage x.sent = .ok (σ, sent) ∧ σ.Handled c Rf ∧
      σ.ended = false ∧ Announced sent σ.nextPaneId ∧
      σ.nextPaneId ≤ Tuple.paneOf c.paneLength e'.lastP := by
  have hnext := h.next.trans (Tuple.paneOf_mono c.paneLength hmono)
  -- no punctuation is generated, or one that is not above `lastP`
  rcases hcalls with rfl | ⟨p, -, hp, rfl⟩
  · exact ⟨x.stage, x.sent, rfl, h.handled, hend, h.announced, hnext⟩
  · obtain ⟨σ, hσ, hc⟩ := h.handled.called hi
      (e := .progress env.progress p (Tuple.paneOf c.paneLength p)) ⟨hend, hi⟩ x.sent
    refine ⟨σ, _, perform_cons hσ, hc.handled, (hc.ended trivial).trans hend,
      hc.announced h.announced, ?_⟩
    rw [hc.next]
    exact max_le hnext (Tuple.paneOf_mono c.paneLength hp)

omit [PrefQuery (Row ℚ DIM) R] in
/-- The tuple that is scheduled afterwards finds its pane open. -/
theorem le_paneId {σ : PlqState S R} {e' : PlqEmitter} {row : Row ℚ DIM}
    (hnext : σ.nextPaneId ≤ Tuple.paneOf c.paneLength e'.lastP) (hlast : e'.lastP ≤ row.appTs) :
    σ.nextPaneId ≤ (Tuple.createRegular row c.paneLength).paneId :=
  hnext.trans (Tuple.paneOf_mono c.paneLength hlast)

/-- Receiving a tuple keeps the order. -/
theorem Ordered.receive (h : x.Ordered c Rf) (hi : c.iop = false) {env : ReceiveEnv S}
    {row : Row ℚ DIM} (he : x.Enabled c (.receive env row)) :
    ∃ x', x.exec c (.receive env row) = .ok x' ∧ x'.Ordered c Rf := by
  obtain ⟨hend, hts⟩ := he
  cases hproc : x.emitter.processNewTuple c.paneLength env
      (Tuple.createRegular row c.paneLength) with
  | mk e' calls =>
      obtain ⟨hinv, htcurr, hmono, pre, hpre, hcalls⟩ :=
        h.emitter.processNewTuple c.paneLength env hts hproc
      obtain ⟨σ, sent, hrun, hh, hend', ha, hnext⟩ := h.progress hi hend hmono hpre
      have htcurr' : ∀ ts, 0 ≤ ts → (∀ r ∈ x.received ++ rows (.receive env row), r.appTs ≤ ts) →
          e'.tcurr ≤ ts := by
        intro ts hts' hall
        rw [htcurr]
        refine max_le (h.tcurr ts hts' fun r hr => hall r (List.mem_append_left _ hr)) ?_
        exact hall row (List.mem_append_right _ (List.mem_singleton_self row))
      have hcalled : x.calls c.paneLength (.receive env row) = (e', calls) := hproc
      rcases hcalls with ⟨-, rfl⟩ | ⟨hlast, rfl⟩
      · -- the tuple is dropped
        exact ⟨_, exec_eq_ok hcalled hrun, hh, hinv, hnext, htcurr', ha⟩
      · -- the tuple is scheduled
        obtain ⟨σ', hσ', hc⟩ := hh.called hi
          (e := .tuple env.sched (Tuple.createRegular row c.paneLength))
          ⟨hend', rfl, by
            rw [hi, if_neg Bool.false_ne_true]
            exact le_paneId hnext hlast⟩ sent
        refine ⟨_, exec_eq_ok hcalled ((perform_append hrun).trans (perform_cons hσ')), hc.handled,
          hinv, ?_, htcurr', hc.announced ha⟩
        show σ'.nextPaneId ≤ _
        rw [hc.next, nextAfter, hi, if_neg Bool.false_ne_true]
        exact hnext

/-- An event that is passed on to the stage. -/
theorem exec_passed {e : PipeEvent S} {e' : PlqEvent S}
    (hcalls : x.calls c.paneLength e = (x.emitter, [e'])) {σ' : PlqState S R}
    (hσ : x.stage.exec c e' = some σ') :
    x.exec c e = .ok ⟨x.emitter, σ', x.received ++ rows e, x.sent ++ x.stage.sends c e'⟩ :=
  exec_eq_ok hcalls (perform_cons hσ)

/-- It keeps the order. -/
theorem Ordered.passed (h : x.Ordered c Rf) (hi : c.iop = false) {e : PipeEvent S} {e' : PlqEvent S}
    (hcalls : x.calls c.paneLength e = (x.emitter, [e'])) (hrows : rows e = [])
    (he : x.stage.Enabled c e') (hnext : nextAfter c e' x.stage.nextPaneId = x.stage.nextPaneId) :
    ∃ x', x.exec c e = .ok x' ∧ x'.Ordered c Rf := by
  obtain ⟨σ', hσ', hc⟩ := h.handled.called hi he x.sent
  refine ⟨_, exec_passed hcalls hσ', hc.handled, h.emitter, ?_, fun ts hts hall => ?_,
    hc.announced h.announced⟩
  · show σ'.nextPaneId ≤ _
    rw [hc.next, hnext]
    exact h.next
  · refine h.tcurr ts hts fun r hr => hall r ?_
    rw [hrows, List.append_nil]
    exact hr

/-- **Every event keeps the order, and none aborts.** -/
theorem Ordered.step (h : x.Ordered c Rf) (hi : c.iop = false) {e : PipeEvent S}
    (he : x.Enabled c e) : ∃ x', x.exec c e = .ok x' ∧ x'.Ordered c Rf := by
  cases e with
  | receive env row => exact h.receive hi he
  | add ws => exact h.passed hi rfl rfl (show x.stage.Enabled c (.add ws) from he) rfl
  | remove env ws => exact h.passed hi rfl rfl (show x.stage.Enabled c (.remove env ws) from he) rfl
  | finish => exact h.passed hi rfl rfl (show x.stage.Enabled c (.finish) from he) rfl
  | worker w => exact h.passed hi rfl rfl (show x.stage.Enabled c (.worker w) from he) rfl

/-- The emitter and the stage as constructed. -/
theorem init_ordered (c : PlqParams) (Rf : S.Refinement) {nw : Nat} (hpos : 0 < nw) (hle : nw ≤ N)
    (pidEnabled : Bool) : (init S R nw pidEnabled).Ordered c Rf where
  handled := init_handled c Rf hpos hle
  emitter := PlqEmitter.new_inv pidEnabled
  next := by
    have hnext : (init S R nw pidEnabled).stage.nextPaneId = 0 := by
      show (S.base (S.new nw)).nextPaneId = 0
      rw [Rf.base_new]
      rfl
    rw [hnext]
    exact Nat.zero_le _
  tcurr := by
    intro ts hts _
    -- which mechanism is in use does not matter, as none has seen a tuple
    cases pidEnabled <;> exact hts
  announced := ⟨List.Pairwise.nil, fun _ h => absurd h List.not_mem_nil⟩

/-- Closed panes are respected in a state: raw punctuations are not beyond the highest timestamp, the
punctuations sent are in order, a tuple that is received next is scheduled into a pane that is open at
that moment, or dropped, and it is not dropped if it is as recent as all the earlier ones. -/
structure PanesRespected (c : PlqParams) (x : PlqPipe S R) : Prop where
  raw : ∀ (env : ReceiveEnv S) row, x.Enabled c (.receive env row) → ∀ p,
    (x.emitter.receive.checkStreamProgress env.pid row.appTs).2 = some p →
      0 ≤ p ∧ p ≤ (x.emitter.receive.checkStreamProgress env.pid row.appTs).1.tcurr
  punctuations : (punctuations x.sent).Pairwise (· ≤ ·)
  paneOpen : ∀ env row, x.Enabled c (.receive env row) → ∀ pre env' t post,
    (x.calls c.paneLength (.receive env row)).2 = pre ++ .tuple env' t :: post →
      ∃ σ sent, perform c pre x.stage x.sent = .ok (σ, sent) ∧ σ.nextPaneId ≤ t.paneId
  kept : ∀ env row, x.Enabled c (.receive env row) → (∀ r ∈ x.received, r.appTs ≤ row.appTs) →
    .tuple env.sched (Tuple.createRegular row c.paneLength) ∈
      (x.calls c.paneLength (.receive env row)).2

/-- The calls of the punctuation mechanism schedule no tuple. -/
theorem tuple_not_mem_progresses {paneLength : Nat} {env : ReceiveEnv S} {e' : PlqEmitter}
    {calls : List (PlqEvent S)} (h : PlqEmitter.Progresses paneLength env e' calls) (env' : S.Env)
    (t : Tuple DIM) : .tuple env' t ∉ calls := by
  rcases h with rfl | ⟨p, -, -, rfl⟩
  · exact List.not_mem_nil
  · intro hmem
    cases List.mem_singleton.mp hmem

/-- What the invariant says about closed panes. -/
theorem Ordered.panesRespected (h : x.Ordered c Rf) (hi : c.iop = false) : x.PanesRespected c where
  raw := by
    intro env row he p hp
    have hslack : x.emitter.receive.Slack := ⟨h.emitter.kslack, h.emitter.kslackpid⟩
    exact (hslack.checkStreamProgress env.pid he.2 rfl).2.2.2 p hp
  punctuations := h.announced.ordered
  paneOpen := by
    intro env row he pre env' t post hsplit
    cases hproc : x.emitter.processNewTuple c.paneLength env (Tuple.createRegular row c.paneLength)
    obtain ⟨-, -, hmono, pre', hpre', hcalls⟩ :=
      h.emitter.processNewTuple c.paneLength env he.2 hproc
    rw [PlqPipe.calls, hproc] at hsplit
    obtain ⟨σ, sent, hrun, -, -, -, hnext⟩ := h.progress hi he.1 hmono hpre'
    have hnot := tuple_not_mem_progresses hpre' env' t
    rcases hcalls with ⟨-, rfl⟩ | ⟨hlast, rfl⟩
    · -- the tuple is dropped, so there is no such call
      dsimp only at hsplit
      rw [hsplit] at hnot
      exact absurd (List.mem_append_right _ List.mem_cons_self) hnot
    · dsimp only at hsplit
      -- the only such call is the last one
      have hpost : post = [] ∧ pre' = pre ∧ .tuple env.sched (Tuple.createRegular row c.paneLength)
          = PlqEvent.tuple (S := S) env' t := by
        rcases List.eq_nil_or_concat post with rfl | ⟨post, b, rfl⟩
        · obtain ⟨hp, ht⟩ := List.append_inj' hsplit rfl
          exact ⟨rfl, hp, (List.cons.inj ht).1⟩
        · rw [List.concat_eq_append, ← List.cons_append, ← List.append_assoc] at hsplit
          obtain ⟨hp, -⟩ := List.append_inj' hsplit rfl
          rw [hp] at hnot
          exact absurd (List.mem_append_right _ List.mem_cons_self) hnot
      obtain ⟨-, rfl, ht⟩ := hpost
      cases ht
      exact ⟨σ, sent, hrun, le_paneId hnext hlast⟩
  kept := by
    intro env row he hall
    cases hproc : x.emitter.processNewTuple c.paneLength env (Tuple.createRegular row c.paneLength)
    obtain ⟨hinv, htcurr, -, pre, -, hcalls⟩ :=
      h.emitter.processNewTuple c.paneLength env he.2 hproc
    rw [PlqPipe.calls, hproc]
    rcases hcalls with ⟨hlt, -⟩ | ⟨-, rfl⟩
    · -- the highest punctuation is not beyond this timestamp
      have hle := hinv.le
      rw [htcurr] at hle
      have hmax : max x.emitter.tcurr row.appTs ≤ row.appTs :=
        max_le (h.tcurr row.appTs he.2 hall) le_rfl
      exact absurd (hlt.trans_le (hle.trans hmax)) (lt_irrefl _)
    · exact List.mem_append_right _ (List.mem_singleton_self _)

/-- No run aborts, and each leads to a state in which closed panes are respected. -/
def RespectsClosedPanes (S : Strategy N DIM) (R : Type) [PrefQuery (Row ℚ DIM) R]
    (wp sp paneLength nw : Nat) (pidEnabled : Bool) : Prop :=
  ∀ es, Run.Valid (exec (oop wp sp paneLength)) (Enabled (oop wp sp paneLength)) es
      (init S R nw pidEnabled) →
    ∃ x, Run.run (exec (oop wp sp paneLength)) es (init S R nw pidEnabled) = .ok x ∧
      x.PanesRespected (oop wp sp paneLength)

end PlqPipe

open PlqPipe

/-- A run keeps the order. -/
theorem PlqPipe.Ordered.run (Rf : S.Refinement) (hi : c.iop = false) {nw : Nat} (hpos : 0 < nw)
    (hle : nw ≤ N) (pidEnabled : Bool) {es : List (PipeEvent S)}
    (hes : Run.Valid (exec c) (Enabled c) es (init S R nw pidEnabled)) :
    ∃ x, Run.run (exec c) es (init S R nw pidEnabled) = .ok x ∧ x.Ordered c Rf :=
  hes.induction (fun _ _ h he => h.step hi he) (init_ordered c Rf hpos hle pidEnabled)

/-- **Every strategy that refines the ledger respects closed panes.** -/
theorem Strategy.Refinement.respectsClosedPanes (Rf : S.Refinement) (wp sp paneLength : Nat)
    {nw : Nat} (hpos : 0 < nw) (hle : nw ≤ N) (pidEnabled : Bool) :
    RespectsClosedPanes S R wp sp paneLength nw pidEnabled := by
  intro es hes
  obtain ⟨x, hrun, hord⟩ := PlqPipe.Ordered.run Rf rfl hpos hle pidEnabled hes
  exact ⟨x, hrun, hord.panesRespected rfl⟩

/-- **No tuple is scheduled into a closed pane**, for each of the three strategies, with the standard
and with the adaptive slack. -/
theorem closed_panes_respected (R : Type) [PrefQuery (Row ℚ DIM) R] (wp sp paneLength : Nat)
    {nw : Nat} (hpos : 0 < nw) (hle : nw ≤ N) (pidEnabled : Bool) :
    RespectsClosedPanes (PbRrSched.strategy N DIM) R wp sp paneLength nw pidEnabled ∧
      RespectsClosedPanes (TbRrSched.strategy N DIM) R wp sp paneLength nw pidEnabled ∧
      RespectsClosedPanes (AdaptiveSched.strategy N DIM) R wp sp paneLength nw pidEnabled :=
  ⟨(PbRrSched.refinement N DIM).respectsClosedPanes wp sp paneLength hpos hle pidEnabled,
    (TbRrSched.refinement N DIM).respectsClosedPanes wp sp paneLength hpos hle pidEnabled,
    (AdaptiveSched.refinement N DIM).respectsClosedPanes wp sp paneLength hpos hle pidEnabled⟩

/-- A tuple of timestamp `ts` arrives, for runs on fixed inputs: the strategy hears of a punctuation
if `elapsed`, and the PID controller answers `pid`. -/
def arrival {N : Nat} (elapsed : Bool) (pid : Option ℚ) (ts : ℚ) :
    PipeEvent (PbRrSched.strategy N 1) :=
  .receive ⟨fun _ => pid, elapsed, (), ()⟩ ⟨fun _ => 0, ts, 0⟩

/-- The raw punctuations go backwards from 3000 to 1000, and further when the slack is used in full
again; in between a worker is removed and a tuple is dropped. -/
theorem closed_panes_respected_witness :
    ∃ x, Run.run (exec (oop 2 1 1)) [arrival true none 3000, arrival true none 1000, .remove () [0],
        arrival true none 4000, arrival false (some 1) 5000, arrival true (some (-1)) 6000,
        .add [0], arrival true none 6000, .worker 0, .finish, .worker 1]
        (init (PbRrSched.strategy 2 1) (Build (Row ℚ 1)) 2 true) = .ok x ∧
      x.PanesRespected (oop 2 1 1) :=
  (closed_panes_respected (Build (Row ℚ 1)) 2 1 1 (by decide) (by decide) true).1 _
    (by decide +kernel)

end ElasticPPQ
