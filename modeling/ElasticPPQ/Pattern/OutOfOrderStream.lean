import ElasticPPQ.Lib.Driver
import ElasticPPQ.Pattern.InOrderStream
import ElasticPPQ.Pattern.OutOfOrder
import ElasticPPQ.Plq.ClosedPanes
import ElasticPPQ.Plq.NoRemovals

/-! # From the stream to the windows, out of order

The out-of-order emitter in front of the pattern: each tuple is scheduled at once or dropped, after the
progress that its punctuation makes. What the emitter passes on is always a run of the pattern in which
the strategy finds what it needs, pane-based round-robin always, the other two as long as no worker of
the first stage is removed. So the client gets the windows of the tuples that have not been dropped; of a
stream in order that are all of them (`outOfOrder_stream`). -/

namespace ElasticPPQ

open FifoNet PlqState

variable {N DIM : Nat}

/-- What may happen to the pattern with its out-of-order emitter. -/
inductive SourceEvent (S : Strategy N DIM) (R : Type)
  /-- A tuple comes from the Generator. -/
  | receive (env : ReceiveEnv S) (row : Row ℚ DIM)
  /-- The stream is complete. -/
  | finish
  /-- Anything else. -/
  | inner (e : PfEvent S R)

/-- The event removes workers of the first stage. -/
def PfEvent.Removes {S : Strategy N DIM} {R : Type} : PfEvent S R → Prop
  | .plq e => e.Removes
  | _ => False

instance PfEvent.decidableRemoves {S : Strategy N DIM} {R : Type} :
    (e : PfEvent S R) → Decidable e.Removes
  | .plq e => PlqEvent.decidableRemoves e
  | .arrive _ | .eos _ | .wlq _ => isFalse not_false

/-- The out-of-order emitter, with the tuples received and the tuples dropped so far. -/
structure OutOfOrderRun (DIM : Nat) where
  emitter : PlqEmitter
  received : List (Tuple DIM)
  dropped : List (Tuple DIM)

namespace OutOfOrderRun

variable {S : Strategy N DIM} {R : Type}

variable (DIM) in
/-- The emitter as constructed. -/
def init (pidEnabled : Bool) : OutOfOrderRun DIM := ⟨PlqEmitter.new pidEnabled, [], []⟩

/-- `processNewTuple`, with the calls of the strategy. A tuple is dropped where the emitter counts
it as dropped. -/
def process (paneLength : Nat) (env : ReceiveEnv S) (t : Tuple DIM) (x : OutOfOrderRun DIM) :
    OutOfOrderRun DIM × List (PlqEvent S) :=
  let (e, calls) := x.emitter.processNewTuple paneLength env t
  ({ emitter := e
     received := x.received ++ [t]
     dropped := if e.droppedTotal = x.emitter.droppedTotal then x.dropped else x.dropped ++ [t] },
    calls)

/-- `svc` of the emitter: what it does to its own fields, and what it passes on. -/
def front (paneLength : Nat) (x : OutOfOrderRun DIM) :
    SourceEvent S R → Option (OutOfOrderRun DIM × List (PfEvent S R))
  | .receive env row =>
      let (x, calls) := x.process paneLength env (Tuple.createRegular row paneLength)
      some (x, calls.map .plq)
  | .finish => some (x, [.plq .finish])
  | .inner e => some (x, [e])

/-- What may come next, `removals` telling whether workers of the first stage may be removed. -/
def StreamPossible (removals : Bool) (c : PlqParams) (x : OutOfOrderRun DIM × PfState S R) :
    SourceEvent S R → Prop
  | .receive _ row => x.2.plq.ended = false ∧ 0 ≤ row.appTs
  | .finish => x.2.plq.ended = false
  | .inner e => e.Inner ∧ (removals = false → ¬ e.Removes) ∧ x.2.Possible c e

instance decidableStreamPossible (removals : Bool) (c : PlqParams)
    (x : OutOfOrderRun DIM × PfState S R) :
    (e : SourceEvent S R) → Decidable (StreamPossible removals c x e)
  | .receive _ row => inferInstanceAs (Decidable (x.2.plq.ended = false ∧ 0 ≤ row.appTs))
  | .finish => inferInstanceAs (Decidable (x.2.plq.ended = false))
  | .inner e => inferInstanceAs
      (Decidable (e.Inner ∧ (removals = false → ¬ e.Removes) ∧ x.2.Possible c e))

/-- When an event may happen. -/
def StreamEnabled (removals : Bool) (c : PlqParams) (x : OutOfOrderRun DIM × PfState S R)
    (e : SourceEvent S R) : Prop :=
  x.2.wlq.emitter.noReturn = false ∧ StreamPossible removals c x e

instance decidableStreamEnabled (removals : Bool) (c : PlqParams)
    (x : OutOfOrderRun DIM × PfState S R) (e : SourceEvent S R) :
    Decidable (StreamEnabled removals c x e) := inferInstanceAs (Decidable (_ ∧ _))

/-- The emitter and the pattern together. -/
def streamExec [PrefQuery (Row ℚ DIM) R] (c : PlqParams) :
    OutOfOrderRun DIM × PfState S R → SourceEvent S R →
      Except WlqError (OutOfOrderRun DIM × PfState S R) :=
  Run.drive (front c.paneLength) (PfState.exec c) .abort

end OutOfOrderRun

/-! ## The emitter -/

namespace PlqEmitter

variable {S : Strategy N DIM}

/-- The punctuation mechanism counts no tuple. -/
theorem punctuate_totals (paneLength : Nat) (env : ReceiveEnv S) (appTs : ℚ) (e : PlqEmitter) :
    (e.punctuate paneLength env appTs).1.droppedTotal = e.droppedTotal ∧
      (e.punctuate paneLength env appTs).1.rcvTotal = e.rcvTotal := by
  have hcheck : (e.checkStreamProgress env.pid appTs).1.droppedTotal = e.droppedTotal ∧
      (e.checkStreamProgress env.pid appTs).1.rcvTotal = e.rcvTotal := by
    unfold checkStreamProgress
    -- with the PID or with the standard slack, the counters of the tuples are not written
    split
    · generalize e.kslackpid.adapt (env.pid (e.droppedSample / e.rcvSample)) = x
      obtain ⟨ks, newSample⟩ := x
      cases newSample <;> exact ⟨rfl, rfl⟩
    · exact ⟨rfl, rfl⟩
  unfold punctuate
  generalize e.checkStreamProgress env.pid appTs = x at hcheck
  obtain ⟨e₁, p⟩ := x
  -- without a new punctuation no progress is called
  cases p with
  | none => exact hcheck
  | some p =>
      unfold generate
      cases env.elapsed <;> exact hcheck

/-- Every tuple is counted as received, and as dropped if it is older than the highest punctuation. -/
theorem processNewTuple_totals (paneLength : Nat) (env : ReceiveEnv S) (t : Tuple DIM)
    (e : PlqEmitter) {e' : PlqEmitter} (he' : (e.processNewTuple paneLength env t).1 = e') :
    e'.rcvTotal = e.rcvTotal + 1 ∧ (t.appTs < e'.lastP ∧ e'.droppedTotal = e.droppedTotal + 1 ∨
      e'.lastP ≤ t.appTs ∧ e'.droppedTotal = e.droppedTotal) := by
  obtain ⟨hdropped, hrcv⟩ := punctuate_totals paneLength env t.appTs e.receive
  unfold processNewTuple at he'
  generalize e.receive.punctuate paneLength env t.appTs = x at hdropped hrcv he'
  obtain ⟨e₁, calls⟩ := x
  dsimp only at he' hdropped hrcv
  -- the tuple is compared with the last punctuation and is counted as dropped below it
  split at he'
  · rename_i hlt
    obtain rfl := he'
    exact ⟨hrcv, Or.inl ⟨hlt, congrArg (· + 1) hdropped⟩⟩
  · rename_i hnlt
    obtain rfl := he'
    exact ⟨hrcv, Or.inr ⟨not_lt.mp hnlt, hdropped⟩⟩

end PlqEmitter

namespace OutOfOrderRun

open InOrderRun (Late InOrder)

/-- What has become of the tuples received: those dropped are as many as the emitter has counted, and
each of them is older than one received before it. -/
structure Sound (x : OutOfOrderRun DIM) : Prop where
  emitter : x.emitter.Inv
  tcurr : x.emitter.tcurr = 0 ∨ ∃ t ∈ x.received, x.emitter.tcurr ≤ t.appTs
  rcvTotal : x.emitter.rcvTotal = x.received.length
  droppedTotal : x.emitter.droppedTotal = x.dropped.length
  late : ∀ t ∈ x.dropped, Late 0 0 x.received t

/-- The emitter as constructed. -/
theorem init_sound (DIM : Nat) (pidEnabled : Bool) : (init DIM pidEnabled).Sound where
  emitter := PlqEmitter.new_inv pidEnabled
  tcurr := by
    refine Or.inl ?_
    cases pidEnabled <;> rfl
  rcvTotal := rfl
  droppedTotal := rfl
  late := fun _ ht => absurd ht List.not_mem_nil

variable {S : Strategy N DIM}

/-- **One tuple** is scheduled or dropped, after the progress of the stream. -/
theorem Sound.process {x : OutOfOrderRun DIM} (h : x.Sound) (paneLength : Nat) (env : ReceiveEnv S)
    {t : Tuple DIM} (hts : 0 ≤ t.appTs) {x' : OutOfOrderRun DIM} {calls : List (PlqEvent S)}
    (hx : x.process paneLength env t = (x', calls)) :
    x'.Sound ∧ x'.received = x.received ++ [t] ∧ x.emitter.lastP ≤ x'.emitter.lastP ∧
      ∃ pre, PlqEmitter.Progresses paneLength env x'.emitter pre ∧
        (calls = pre ∧ x'.dropped = x.dropped ++ [t] ∨
          x'.emitter.lastP ≤ t.appTs ∧ calls = pre ++ [.tuple env.sched t] ∧
            x'.dropped = x.dropped) := by
  cases hproc : x.emitter.processNewTuple paneLength env t with
  | mk e' calls' =>
      obtain ⟨hinv, htcurr, hmono, pre, hpre, hcalls⟩ :=
        h.emitter.processNewTuple paneLength env hts hproc
      obtain ⟨hrcv, htotal⟩ := PlqEmitter.processNewTuple_totals paneLength env t x.emitter
        (congrArg Prod.fst hproc)
      dsimp only at hrcv htotal
      rw [OutOfOrderRun.process, hproc] at hx
      dsimp only at hx
      have hmax : e'.tcurr = 0 ∨ ∃ u ∈ x.received ++ [t], e'.tcurr ≤ u.appTs := by
        rw [htcurr]
        rcases le_total x.emitter.tcurr t.appTs with hle | hle
        · rw [max_eq_right hle]
          exact Or.inr ⟨t, by simp, le_rfl⟩
        · rw [max_eq_left hle]
          refine h.tcurr.imp_right fun ⟨u, hu, hle'⟩ => ?_
          exact ⟨u, List.mem_append_left _ hu, hle'⟩
      have hreceived : e'.rcvTotal = (x.received ++ [t]).length := by
        rw [hrcv, h.rcvTotal, List.length_append]
        rfl
      have hlate : ∀ u ∈ x.dropped, Late 0 0 (x.received ++ [t]) u :=
        fun u hu => (h.late u hu).append [t]
      rcases hcalls with ⟨hlt, rfl⟩ | ⟨hle, rfl⟩
      · -- an older one than some tuple received before
        obtain ⟨-, htotal⟩ := htotal.resolve_right fun hle => absurd hle.1 (not_le.mpr hlt)
        rw [if_neg (by omega)] at hx
        obtain ⟨rfl, rfl⟩ := Prod.mk.inj hx
        have hcurr : t.appTs < x.emitter.tcurr := by
          have hle := hlt.trans_le hinv.le
          rw [htcurr] at hle
          exact (lt_max_iff.mp hle).resolve_right (lt_irrefl _)
        have hnew : Late 0 0 (x.received ++ [t]) t := by
          refine ⟨x.received, [], rfl, Or.inr ?_⟩
          rcases h.tcurr with hzero | ⟨u, hu, hle⟩
          · linarith
          · exact ⟨u, hu, by linarith⟩
        refine ⟨⟨hinv, hmax, hreceived, ?_, fun u hu => ?_⟩, rfl, hmono, calls', hpre,
          Or.inl ⟨rfl, rfl⟩⟩
        · show e'.droppedTotal = (x.dropped ++ [t]).length
          rw [htotal, h.droppedTotal, List.length_append]
          rfl
        · rcases List.mem_append.mp hu with hu | hu
          · exact hlate u hu
          · rw [List.mem_singleton.mp hu]
            exact hnew
      · obtain ⟨-, htotal⟩ := htotal.resolve_left fun hlt => absurd hlt.1 (not_lt.mpr hle)
        rw [if_pos htotal] at hx
        obtain ⟨rfl, rfl⟩ := Prod.mk.inj hx
        exact ⟨⟨hinv, hmax, hreceived, htotal.trans h.droppedTotal, hlate⟩, rfl, hmono, pre, hpre,
          Or.inr ⟨hle, rfl, rfl⟩⟩

end OutOfOrderRun
/-! ## What the emitter passes on -/

namespace PfState

variable {S : Strategy N DIM} {R : Type} {c : PlqParams} {Rf : S.Refinement} {σ σ' : PfState S R}

/-- The event may happen, and the strategy finds what it needs. -/
def Admits (c : PlqParams) (Rf : S.Refinement) (σ : PfState S R) (e : PfEvent S R) : Prop :=
  σ.Enabled c e ∧ σ.Meets (CallOk Rf) e

variable [PrefQuery (Row ℚ DIM) R]

/-- The first stage is ready for the next call of its emitter. -/
structure Serves (c : PlqParams) (Rf : S.Refinement) (σ : PfState S R) : Prop where
  handled : σ.plq.Handled c Rf
  filled : (S.base σ.plq.sched).Filled

/-- **An event of the first stage** takes place. -/
theorem Serves.plq (h : σ.Serves c Rf) (hi : c.iop = false)
    (hret : σ.wlq.emitter.noReturn = false) {e : PlqEvent S} (he : σ.plq.Enabled c e)
    (hfill : e.Removes → ∀ s, Rf.Inv s → (S.base s).Filled) :
    ∃ σ', Run.Leads (exec c) (Admits c Rf) [.plq e] σ σ' ∧ σ'.Serves c Rf ∧ σ'.wlq = σ.wlq ∧
      σ'.plq.nextPaneId = nextAfter c e σ.plq.nextPaneId ∧
      σ'.plq.scheduled = σ.plq.scheduled ++ scheduledBy e ∧
      (Calls e → σ'.plq.ended = σ.plq.ended) := by
  obtain ⟨s, hs, hc⟩ := h.handled.called hi he []
  have hok := h.handled.stepOk hi h.filled he
  have hmeets : σ.Meets (CallOk Rf) (.plq e) := by cases e <;> exact hok
  have hexec : σ.exec c (.plq e) = .ok { σ with plq := s } := by simp only [exec, hs]
  refine ⟨_, Run.Leads.one ⟨⟨hret, he⟩, hmeets⟩ hexec, ⟨hc.handled, ?_⟩, rfl, hc.next, (exec_log hs).1,
    hc.ended⟩
  -- a removal needs panes with tuples, any other call keeps them so
  by_cases hrem : e.Removes
  · exact hfill hrem _ hc.handled.inv
  · exact h.handled.filled hi he hrem hs h.filled

/-- The calls of the punctuation mechanism. -/
theorem Serves.progresses (h : σ.Serves c Rf) (hi : c.iop = false)
    (hret : σ.wlq.emitter.noReturn = false) (hend : σ.plq.ended = false) {env : ReceiveEnv S}
    {e : PlqEmitter} {calls : List (PlqEvent S)}
    (hcalls : PlqEmitter.Progresses c.paneLength env e calls)
    (hnext : σ.plq.nextPaneId ≤ Tuple.paneOf c.paneLength e.lastP) :
    ∃ σ', Run.Leads (exec c) (Admits c Rf) (calls.map .plq) σ σ' ∧ σ'.Serves c Rf ∧
      σ'.wlq = σ.wlq ∧ σ'.plq.nextPaneId ≤ Tuple.paneOf c.paneLength e.lastP ∧
      σ'.plq.scheduled = σ.plq.scheduled ∧ σ'.plq.ended = false := by
  -- at most one progress, to the pane of the new punctuation
  rcases hcalls with rfl | ⟨p, -, hp, rfl⟩
  · exact ⟨σ, Run.Leads.nil σ, h, rfl, hnext, rfl, hend⟩
  · obtain ⟨σ', hleads, hserves, hwlq, hnext', hsched, hend'⟩ := h.plq hi hret
      (e := .progress env.progress p (Tuple.paneOf c.paneLength p)) ⟨hend, hi⟩ False.elim
    refine ⟨σ', hleads, hserves, hwlq, ?_, hsched.trans (List.append_nil _),
      (hend' trivial).trans hend⟩
    rw [hnext']
    exact max_le hnext (Tuple.paneOf_mono c.paneLength hp)

end PfState

namespace OutOfOrderRun

open InOrderRun (Late InOrder)

variable {S : Strategy N DIM} {R : Type} [PrefQuery (Row ℚ DIM) R] {c : PlqParams}
  {Rf : S.Refinement} {x : OutOfOrderRun DIM} {σ : PfState S R}

/-- Every tuple received has been scheduled or dropped, and no pane is complete beyond the highest
punctuation. -/
structure Streams (c : PlqParams) (Rf : S.Refinement) (x : OutOfOrderRun DIM) (σ : PfState S R) :
    Prop extends Sound x where
  serves : σ.Serves c Rf
  next : σ.plq.nextPaneId ≤ Tuple.paneOf c.paneLength x.emitter.lastP
  kept : (σ.plq.scheduled ++ x.dropped).Perm x.received
  regular : ∀ t ∈ x.received, ∃ row : Row ℚ DIM, 0 ≤ row.appTs ∧
    t = Tuple.createRegular row c.paneLength

/-- The emitter and the pattern as constructed. -/
theorem init_streams (c : PlqParams) (Rf : S.Refinement) (pidEnabled : Bool) {nwPlq : Nat}
    (hpos : 0 < nwPlq) (hle : nwPlq ≤ N) (nwWlq : Nat) :
    Streams c Rf (init DIM pidEnabled) (PfState.init S R nwPlq nwWlq) where
  toSound := init_sound DIM pidEnabled
  serves := ⟨init_handled c Rf hpos hle, init_filled (R := R) Rf nwPlq⟩
  next := by
    show (S.base (S.new nwPlq)).nextPaneId ≤ _
    rw [Rf.base_new]
    exact Nat.zero_le _
  kept := List.Perm.refl _
  regular := fun _ ht => absurd ht List.not_mem_nil

/-- **A tuple** that comes in. -/
theorem Streams.receive (h : Streams c Rf x σ) (hi : c.iop = false)
    (hret : σ.wlq.emitter.noReturn = false) (hend : σ.plq.ended = false) (env : ReceiveEnv S)
    {row : Row ℚ DIM} (hts : 0 ≤ row.appTs) :
    ∃ x' es σ', front c.paneLength x (.receive env row) = some (x', es) ∧
      Run.Leads (PfState.exec c) (PfState.Admits c Rf) es σ σ' ∧ Streams c Rf x' σ' := by
  cases hx : x.process c.paneLength env (Tuple.createRegular row c.paneLength) with
  | mk x' calls =>
      obtain ⟨hsound, hrec, hmono, pre, hpre, hcalls⟩ := h.toSound.process c.paneLength env hts hx
      have hfront : front (R := R) c.paneLength x (.receive env row) =
          some (x', calls.map .plq) := by
        rw [front, hx]
      have hregular : ∀ t ∈ x'.received, ∃ row : Row ℚ DIM, 0 ≤ row.appTs ∧
          t = Tuple.createRegular row c.paneLength := by
        rw [hrec]
        exact Tuple.regular_append h.regular hts
      obtain ⟨σ₁, hleads, hserves, hwlq, hnext, hsched, hend₁⟩ :=
        h.serves.progresses hi hret hend hpre (h.next.trans (Tuple.paneOf_mono c.paneLength hmono))
      rcases hcalls with ⟨rfl, hdropped⟩ | ⟨hle, rfl, hdropped⟩
      · -- the tuple is dropped
        refine ⟨x', _, σ₁, hfront, hleads, hsound, hserves, hnext, ?_, hregular⟩
        rw [hsched, hdropped, hrec, ← List.append_assoc]
        exact h.kept.append_right _
      · -- the tuple is scheduled into a pane that is not closed
        have hopen : σ₁.plq.nextPaneId ≤ (Tuple.createRegular row c.paneLength).paneId :=
          hnext.trans (Tuple.paneOf_mono c.paneLength hle)
        obtain ⟨σ₂, hleads₂, hserves₂, -, hnext₂, hsched₂, -⟩ := hserves.plq hi (hwlq ▸ hret)
          (e := .tuple env.sched (Tuple.createRegular row c.paneLength))
          ⟨hend₁, rfl, by rw [hi, if_neg Bool.false_ne_true]; exact hopen⟩ False.elim
        have hall := hleads.append hleads₂
        refine ⟨x', _, σ₂, hfront, ?_, hsound, hserves₂, ?_, ?_, hregular⟩
        · rw [List.map_append]
          exact hall
        · rw [hnext₂, nextAfter, hi, if_neg Bool.false_ne_true]
          exact hnext
        · rw [hsched₂, hsched, hdropped, hrec]
          have hcomm : ([Tuple.createRegular row c.paneLength] ++ x.dropped).Perm
              (x.dropped ++ [Tuple.createRegular row c.paneLength]) := List.perm_append_comm
          have hswap := hcomm.append_left σ.plq.scheduled
          rw [← List.append_assoc, ← List.append_assoc] at hswap
          exact hswap.trans (h.kept.append_right _)

/-- **What the emitter passes on** at an event is always a run of the pattern in which the strategy finds
what it needs. -/
theorem Streams.step (h : Streams c Rf x σ) (hi : c.iop = false) {removals : Bool}
    (hfill : removals = true → ∀ s, Rf.Inv s → (S.base s).Filled) {e : SourceEvent S R}
    (he : StreamEnabled removals c (x, σ) e) :
    ∃ x' es, front c.paneLength x e = some (x', es) ∧
      Run.Valid (PfState.exec c) (PfState.Admits c Rf) es σ ∧
      ∀ σ', Run.run (PfState.exec c) es σ = .ok σ' → Streams c Rf x' σ' := by
  obtain ⟨hret, he⟩ := he
  -- an event of the first stage that the emitter does not take part in, or the end of the stream
  have hpassed : ∀ e' : PlqEvent S, σ.plq.Enabled c e' → (removals = false → ¬ e'.Removes) →
      (∀ next, nextAfter c e' next = next) → scheduledBy e' = [] →
      Run.Valid (PfState.exec c) (PfState.Admits c Rf) [.plq e'] σ ∧
        ∀ σ', Run.run (PfState.exec c) [.plq e'] σ = .ok σ' → Streams c Rf x σ' := by
    intro e' he' hrem hnext hsched
    obtain ⟨σ₁, hleads, hserves, -, hnext₁, hsched₁, -⟩ := h.serves.plq hi hret he' fun hr =>
      hfill (Bool.eq_true_of_not_eq_false fun hf => hrem hf hr)
    refine ⟨hleads.valid, fun σ' hσ' => ?_⟩
    obtain rfl := Except.ok.inj (hleads.run.symm.trans hσ')
    refine ⟨h.toSound, hserves, ?_, ?_, h.regular⟩
    · rw [hnext₁, hnext]
      exact h.next
    · rw [hsched₁, hsched, List.append_nil]
      exact h.kept
  cases e with
  | receive env row =>
      obtain ⟨hend, hts⟩ := he
      obtain ⟨x', es, σ₁, hfront, hleads, hstreams⟩ := h.receive hi hret hend env hts
      refine ⟨x', es, hfront, hleads.valid, fun σ' hσ' => ?_⟩
      obtain rfl := Except.ok.inj (hleads.run.symm.trans hσ')
      exact hstreams
  | finish => exact ⟨x, _, rfl, hpassed .finish he (fun _ => id) (fun _ => rfl) rfl⟩
  | inner e =>
      obtain ⟨hinner, hrem, he⟩ := he
      refine ⟨x, [e], rfl, ?_⟩
      -- the second stage does not change the first one
      have hsecond : (∀ e', e ≠ .plq e') →
          Run.Valid (PfState.exec c) (PfState.Admits c Rf) [e] σ ∧
            ∀ σ', Run.run (PfState.exec c) [e] σ = .ok σ' → Streams c Rf x σ' := by
        intro hne
        refine ⟨.one ⟨⟨hret, he⟩, ?_⟩, fun σ' hσ' => ?_⟩
        · cases e with
          | plq e' => exact absurd rfl (hne e')
          | _ => exact trivial
        · have hsame := PfState.exec_not_plq hne (Run.exec_of_run hσ')
          refine ⟨h.toSound, ⟨?_, ?_⟩, ?_, ?_, h.regular⟩ <;> rw [hsame]
          · exact h.serves.handled
          · exact h.serves.filled
          · exact h.next
          · exact h.kept
      cases e with
      | plq e =>
          cases e with
          | add ws => exact hpassed _ he (fun _ => id) (fun _ => rfl) rfl
          | remove env ws => exact hpassed _ he hrem (fun _ => rfl) rfl
          | worker w => exact hpassed _ he (fun _ => id) (fun _ => rfl) rfl
          | tuple env t => exact hinner.elim
          | progress env ts pId => exact hinner.elim
          | finish => exact hinner.elim
      | arrive w => exact hsecond fun e' he' => by cases he'
      | eos w => exact hsecond fun e' he' => by cases he'
      | wlq e => exact hsecond fun e' he' => by cases he'

end OutOfOrderRun

open OutOfOrderRun
open InOrderRun (Late InOrder)

/-- How the pattern answers the query for windows of `wlen` milliseconds that slide by `wslide`. Every
tuple received has been scheduled or dropped, and those dropped are counted and older than one received
before. The client has the skylines of the tuples scheduled; at the termination no window is missing before
the first one with a pane that is neither closed nor has a tuple. If the tuples have come in order, the
skylines are those of all the tuples received. -/
structure OutOfOrderAnswers {k : Nat} {S : Strategy N (k + 2)} (pf : PaneFarming) (wlen wslide : Nat)
    (x : OutOfOrderRun (k + 2)) (σ : PfState S (SkySet ℚ k)) : Prop where
  kept : (σ.plq.scheduled ++ x.dropped).Perm x.received
  counted : x.emitter.rcvTotal = x.received.length ∧ x.emitter.droppedTotal = x.dropped.length
  late : ∀ t ∈ x.dropped, Late 0 0 x.received t
  skylines : σ.TimeSkylines wlen wslide
  complete : σ.Terminated → ∀ k, k < σ.results.length ↔ ∀ j, j ≤ k → ∀ p, InWindow pf.wp pf.sp j p →
    p < σ.plq.nextPaneId ∨ ∃ t ∈ σ.plq.scheduled, t.paneId = p
  inOrder : InOrder x.received → ∀ r ∈ σ.results, (r.set.s.rows : Multiset (Row ℚ (k + 2))) =
    (PfState.timeRows wlen wslide x.received r.id).filter fun p =>
      ∀ q ∈ PfState.timeRows wlen wslide x.received r.id, ¬ q.Dominates p

/-- No run of the pattern with its out-of-order emitter aborts, whatever the slack mechanism, and each
answers the query; `removals` tells whether workers of the first stage may be removed. -/
def OutOfOrderStream {k : Nat} (S : Strategy N (k + 2)) (removals : Bool) (pf : PaneFarming)
    (wlen wslide nwPlq nwWlq : Nat) : Prop :=
  ∀ (pidEnabled : Bool) (es : List (SourceEvent S (SkySet ℚ k))),
    Run.Valid (streamExec (oop pf.wp pf.sp pf.paneLen))
      (StreamEnabled removals (oop pf.wp pf.sp pf.paneLen)) es
      (OutOfOrderRun.init _ pidEnabled, PfState.init _ _ nwPlq nwWlq) →
    ∃ x σ, Run.run (streamExec (oop pf.wp pf.sp pf.paneLen)) es
        (OutOfOrderRun.init _ pidEnabled, PfState.init _ _ nwPlq nwWlq) = .ok (x, σ) ∧
      OutOfOrderAnswers pf wlen wslide x σ

/-- The runs of the pattern in which the strategy finds what it needs. -/
theorem Strategy.Refinement.runAdmitted {S : Strategy N DIM} (Rf : S.Refinement) (R : Type)
    [PrefQuery (Row ℚ DIM) R] (wp sp paneLength : Nat) (hsp : 1 ≤ sp) (hle : sp ≤ wp)
    {nwPlq nwWlq : Nat} (hplq : 0 < nwPlq) (hplqN : nwPlq ≤ N) (hwlq : 0 < nwWlq) (hwlqN : nwWlq ≤ N)
    {es : List (PfEvent S R)}
    (hes : Run.Valid (PfState.exec (oop wp sp paneLength))
      (PfState.Admits (oop wp sp paneLength) Rf) es (PfState.init _ _ nwPlq nwWlq)) :
    ∃ σ β D, Run.run (PfState.exec (oop wp sp paneLength)) es (PfState.init _ _ nwPlq nwWlq) = .ok σ ∧
      PfState.KeptBy (oop wp sp paneLength) (CallOk Rf) (Tracked (oop wp sp paneLength) Rf) σ β D ∧
      (σ.Terminated → PfState.Complete wp sp σ β) :=
  PfState.run_keptBy (Rf.forecast wp sp paneLength) hsp hle (init_tracked _ Rf hplq hplqN) hwlq hwlqN
    hes

/-- **What the client gets** where the emitter and the pattern have come together. -/
theorem OutOfOrderRun.Streams.answers {k : Nat} {S : Strategy N (k + 2)} {Rf : S.Refinement}
    {wlen wslide : Nat} {pf : PaneFarming} (hpane : 1 ≤ pf.paneLen) (hwp : pf.wp * pf.paneLen = wlen)
    (hslide : pf.sp * pf.paneLen = wslide) (hsp : 1 ≤ pf.sp) (hle : pf.sp ≤ pf.wp) {nwPlq nwWlq : Nat}
    (hplq : 0 < nwPlq) (hplqN : nwPlq ≤ N) (hwlq : 0 < nwWlq) (hwlqN : nwWlq ≤ N)
    {x : OutOfOrderRun (k + 2)} {σ : PfState S (SkySet ℚ k)}
    (h : Streams (oop pf.wp pf.sp pf.paneLen) Rf x σ)
    (hσ : Run.Reached (PfState.exec (oop pf.wp pf.sp pf.paneLen))
      (PfState.Admits (oop pf.wp pf.sp pf.paneLen) Rf) (PfState.init _ _ nwPlq nwWlq) σ) :
    OutOfOrderAnswers pf wlen wslide x σ := by
  obtain ⟨es, hes, hreached⟩ := hσ
  -- what is known of the run of the pattern
  obtain ⟨σ₁, β, D, hσ₁, hby, hcomplete⟩ :=
    Rf.runAdmitted (SkySet ℚ k) pf.wp pf.sp pf.paneLen hsp hle hplq hplqN hwlq hwlqN hes
  obtain rfl := Except.ok.inj (hσ₁.symm.trans hreached)
  have hregular : ∀ t ∈ σ₁.plq.scheduled, ∃ row : Row ℚ (k + 2), 0 ≤ row.appTs ∧
      t = Tuple.createRegular row pf.paneLen :=
    fun t ht => h.regular t (h.kept.subset (List.mem_append_left _ ht))
  have hF := Rf.forecast pf.wp pf.sp pf.paneLen
  have hsky : σ₁.TimeSkylines wlen wslide := by
    refine (hby.skylines hF).timeSkylines hpane hwp hslide (fun t ht => ?_) fun t ht => ?_
    · obtain ⟨row, -, rfl⟩ := hregular t ht
      rfl
    · obtain ⟨row, hrow, rfl⟩ := hregular t ht
      exact hrow
  refine ⟨h.kept, ⟨h.rcvTotal, h.droppedTotal⟩, h.late, hsky, fun ht j => ?_, fun hord r hr => ?_⟩
  · have hfilled := h.serves.filled
    rw [hby.plq] at hfilled
    rw [PfState.outOfOrderComplete_of_complete hby.tracked hby.plq (hcomplete ht) j, hby.scheduled,
      hby.plq]
    have htouched := hby.tracked.good.touched_iff hby.tracked.sized hfilled
    exact forall₄_congr fun j _ p _ => htouched p
  · -- nothing of a stream in order is dropped
    have hnil : x.dropped = [] :=
      List.eq_nil_iff_forall_not_mem.mpr fun t ht => hord.not_late t (h.late t ht)
    have hall := h.kept
    rw [hnil, List.append_nil] at hall
    rw [← PfState.timeRows_perm hall]
    exact hsky.rows r hr

/-- **Every strategy that refines the ledger answers the query from the stream** as long as no worker of
the first stage is removed, and in all runs if it never gives a partition to a pane without tuples. -/
theorem Strategy.Refinement.outOfOrderStream {k : Nat} {S : Strategy N (k + 2)} (Rf : S.Refinement)
    {removals : Bool} (hfill : removals = true → ∀ s, Rf.Inv s → (S.base s).Filled)
    {wlen wslide : Nat} {pf : PaneFarming} (hpane : 1 ≤ pf.paneLen) (hwp : pf.wp * pf.paneLen = wlen)
    (hslide : pf.sp * pf.paneLen = wslide) (hsp : 1 ≤ pf.sp) (hle : pf.sp ≤ pf.wp) {nwPlq nwWlq : Nat}
    (hplq : 0 < nwPlq) (hplqN : nwPlq ≤ N) (hwlq : 0 < nwWlq) (hwlqN : nwWlq ≤ N) :
    OutOfOrderStream S removals pf wlen wslide nwPlq nwWlq := by
  intro pidEnabled events hevents
  obtain ⟨x, σ, hrun, hreached, h⟩ := hevents.drive
    (I := Streams (oop pf.wp pf.sp pf.paneLen) Rf)
    -- a run led to by the stream is one the specification admits
    (fun es hes => by
      obtain ⟨σ, -, -, hσ, -⟩ := Rf.runAdmitted (SkySet ℚ k) pf.wp pf.sp pf.paneLen hsp hle hplq hplqN
        hwlq hwlqN hes
      exact ⟨σ, hσ⟩)
    (fun _ _ _ h he => h.step rfl hfill he)
    (init_streams _ Rf pidEnabled hplq hplqN nwWlq)
  exact ⟨x, σ, hrun, h.answers hpane hwp hslide hsp hle hplq hplqN hwlq hwlqN hreached⟩

/-- **From the stream to the windows, out of order.** With out-of-order workers, the standard or the
adaptive slack, and pane-based round-robin, the client gets the skylines of the windows of the tuples that
are not dropped, whatever the interleaving and the reconfigurations; with the other two strategies as long
as no worker of the first stage is removed. -/
theorem outOfOrder_stream {k wlen wslide : Nat} (hslide : 1 ≤ wslide) (hlen : wslide ≤ wlen)
    {nwPlq nwWlq : Nat} (hplq : 0 < nwPlq) (hplqN : nwPlq ≤ N) (hwlq : 0 < nwWlq)
    (hwlqN : nwWlq ≤ N) :
    ∃ pf, PaneFarming.new wlen wslide = some pf ∧
      OutOfOrderStream (PbRrSched.strategy N (k + 2)) true pf wlen wslide nwPlq nwWlq ∧
      OutOfOrderStream (TbRrSched.strategy N (k + 2)) false pf wlen wslide nwPlq nwWlq ∧
      OutOfOrderStream (AdaptiveSched.strategy N (k + 2)) false pf wlen wslide nwPlq nwWlq := by
  obtain ⟨pf, hpf, hpane, hwp, hsp, hone, hle⟩ := PaneFarming.new_spec hslide hlen
  refine ⟨pf, hpf, ?_, ?_, ?_⟩
  -- in the table of the pane-based strategy a pane with a count has received tuples
  · refine (PbRrSched.refinement N (k + 2)).outOfOrderStream (fun _ s hs p hp hz => ?_) hpane hwp hsp
      hone hle hplq hplqN hwlq hwlqN
    by_contra hne
    exact PbRrSched.Inv.filled hs p hp hne hz
  · exact (TbRrSched.refinement N (k + 2)).outOfOrderStream (fun hf => absurd hf Bool.false_ne_true)
      hpane hwp hsp hone hle hplq hplqN hwlq hwlqN
  · exact (AdaptiveSched.refinement N (k + 2)).outOfOrderStream (fun hf => absurd hf Bool.false_ne_true)
      hpane hwp hsp hone hle hplq hplqN hwlq hwlqN

/-- A tuple on two dimensions comes from the Generator, and its punctuation is sent. -/
def comesLate (ts x y : ℚ) : SourceEvent (PbRrSched.strategy 2 2) (SkySet ℚ 0) :=
  .receive ⟨fun _ => none, true, (), ()⟩ ⟨![x, y], ts, 0⟩

/-- A tuple of the first millisecond is late, a worker of the first stage is removed, and the stream ends
in the third millisecond. -/
def lateStream : List (SourceEvent (PbRrSched.strategy 2 2) (SkySet ℚ 0)) :=
  [comesLate 500 1 3, comesLate 1500 2 4, comesLate 700 0 0, .inner (.plq (.remove () [0])),
    comesLate 2500 3 1, .finish] ++
    ([.plq (.worker 0), .plq (.worker 0), .plq (.worker 0), .plq (.worker 0), .plq (.worker 0),
      .plq (.worker 1), .plq (.worker 1), .plq (.worker 1), .plq (.worker 1), .plq (.worker 1),
      .arrive 0, .arrive 1, .arrive 1, .eos 0, .wlq (.exec 0), .wlq (.exec 1),
      .wlq (.feedback 0), .wlq (.exec 0), .wlq (.feedback 0), .wlq (.exec 0), .wlq (.feedback 0),
      .wlq (.feedback 1), .wlq (.exec 1), .wlq (.feedback 1), .eos 1, .wlq (.collect 0),
      .wlq (.collect 1)] : List (PfEvent _ _)).map .inner

/-- The emitter and the pattern after that. -/
def lateStreamEnd : OutOfOrderRun 2 × PfState (PbRrSched.strategy 2 2) (SkySet ℚ 0) :=
  Run.result (Run.run (streamExec (oop 2 1 1)) lateStream
    (OutOfOrderRun.init _ false, PfState.init _ _ 2 2)) (by decide +kernel)

/-- One tuple is dropped, and the client has got the two windows of 2 ms that there are. -/
theorem outOfOrder_stream_witness :
    lateStreamEnd.1.emitter.droppedTotal = 1 ∧ lateStreamEnd.2.results.map Rset.id = [0, 1] ∧
      OutOfOrderAnswers ⟨1, 2, 1⟩ 2 1 lateStreamEnd.1 lateStreamEnd.2 := by
  have htwo : 0 < 2 := by decide
  obtain ⟨pf, hpf, hstream, -, -⟩ := outOfOrder_stream (N := 2) (k := 0) (le_refl 1)
    (Nat.le_succ 1) htwo le_rfl htwo le_rfl
  have hnew : PaneFarming.new 2 1 = some ⟨1, 2, 1⟩ := by simp [PaneFarming.new, gcd_eq]
  obtain rfl := Option.some.inj (hpf.symm.trans hnew)
  obtain ⟨x, σ, hrun, hanswers⟩ := hstream false lateStream (by decide +kernel)
  have hend : (x, σ) = lateStreamEnd := Except.ok.inj (hrun.symm.trans (Run.eq_ok_result _ _))
  refine ⟨by decide +kernel, by decide +kernel, ?_⟩
  rw [← hend]
  exact hanswers

end ElasticPPQ
