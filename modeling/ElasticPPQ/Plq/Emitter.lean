import ElasticPPQ.Lib.Run
import ElasticPPQ.Plq.Handling
import ElasticPPQ.Slack.KSlack

/-! # The out-of-order emitter

`PLQ_Emitter::processNewTuple` in front of a strategy. A punctuation raises the highest one seen so
far (`last_P`), which decides which tuples are dropped; the strategy hears of it only if the last one
is long enough ago. The emitter and the stage behind it run together (`PlqPipe`): the calls that the
emitter makes are events of the stage. -/

namespace ElasticPPQ

open FifoNet

variable {N DIM : Nat} {R : Type}

/-- The fields of `PLQ_Emitter`, apart from the strategy. -/
structure PlqEmitter where
  /-- Whether the adaptive slack mechanism is enabled. -/
  pidEnabled : Bool
  /-- Standard slack punctuation mechanism. -/
  kslack : KSlackPunc
  /-- Adaptive slack punctuation mechanism. -/
  kslackpid : KSlackPidPunc
  /-- Number of tuples received in the last sample. -/
  rcvSample : Nat
  /-- Number of tuples dropped in the last sample. -/
  droppedSample : Nat
  /-- Total number of dropped tuples. -/
  droppedTotal : Nat
  /-- Total number of received tuples. -/
  rcvTotal : Nat
  /-- Value of the highest punctuation seen so far. -/
  lastP : ℚ
  /-- Number of punctuations generated. -/
  nPunc : Nat

/-- What `processNewTuple` reads from outside: clocks, the PID controller, and what the methods of
the strategy read. -/
structure ReceiveEnv (S : Strategy N DIM) where
  /-- Output of the PID controller for a drop probability, `none` while the sampling interval
  lasts. -/
  pid : ℚ → Option ℚ
  /-- Whether the last punctuation is long enough ago. -/
  elapsed : Bool
  /-- What `executeStreamProgress` reads. -/
  progress : S.Env
  /-- What `sched_to_worker` reads. -/
  sched : S.Env

namespace PlqEmitter

variable {S : Strategy N DIM}

/-- The constructor. -/
def new (pidEnabled : Bool) : PlqEmitter where
  pidEnabled := pidEnabled
  kslack := KSlack.new
  kslackpid := KSlackPid.new
  rcvSample := 0
  droppedSample := 0
  droppedTotal := 0
  rcvTotal := 0
  lastP := 0
  nPunc := 0

/-- A new sampling interval of the PID resets the counters of the sample. -/
def sample (newSample : Bool) (e : PlqEmitter) : PlqEmitter :=
  if newSample then { e with droppedSample := 0, rcvSample := 0 } else e

/-- The slack mechanism in use takes note of a timestamp, and may give a raw punctuation. -/
def checkStreamProgress (pid : ℚ → Option ℚ) (appTs : ℚ) (e : PlqEmitter) :
    PlqEmitter × Option ℚ :=
  if e.pidEnabled then
    -- the slack is adapted first
    let (ks, newSample) := e.kslackpid.adapt (pid (e.droppedSample / e.rcvSample))
    let (ks, p) := KSlackPidPunc.checkStreamProgress appTs ks
    ({ e.sample newSample with kslackpid := ks }, p)
  else
    let (ks, p) := KSlackPunc.checkStreamProgress appTs e.kslack
    ({ e with kslack := ks }, p)

/-- A raw punctuation: the strategy hears of it if the last one is long enough ago. -/
def generate (paneLength : Nat) (env : ReceiveEnv S) (p : ℚ) (e : PlqEmitter) :
    PlqEmitter × List (PlqEvent S) :=
  let (e, calls) :=
    if env.elapsed then
      ({ e with nPunc := e.nPunc + 1 },
        [PlqEvent.progress env.progress p (Tuple.paneOf paneLength p)])
    else (e, [])
  -- `last_p` grows even where no punctuation is sent
  ({ e with lastP := if e.lastP < p then p else e.lastP }, calls)

/-- The punctuation mechanism. -/
def punctuate (paneLength : Nat) (env : ReceiveEnv S) (appTs : ℚ) (e : PlqEmitter) :
    PlqEmitter × List (PlqEvent S) :=
  match e.checkStreamProgress env.pid appTs with
  | (e, none) => (e, [])
  | (e, some p) => e.generate paneLength env p

/-- The tuple is counted as received. -/
def receive (e : PlqEmitter) : PlqEmitter :=
  { e with rcvSample := e.rcvSample + 1, rcvTotal := e.rcvTotal + 1 }

/-- `processNewTuple`: the new state, and the calls of methods of the strategy. -/
def processNewTuple (paneLength : Nat) (env : ReceiveEnv S) (t : Tuple DIM) (e : PlqEmitter) :
    PlqEmitter × List (PlqEvent S) :=
  let (e, calls) := e.receive.punctuate paneLength env t.appTs
  -- the punctuation of the tuple itself counts: a tuple that is late after it is dropped
  if t.appTs < e.lastP then
    ({ e with droppedSample := e.droppedSample + 1, droppedTotal := e.droppedTotal + 1 }, calls)
  else (e, calls ++ [.tuple env.sched t])

/-- The tuples come one after the other. -/
def processAll (paneLength : Nat) (xs : List (ReceiveEnv S × Tuple DIM)) (e : PlqEmitter) :
    PlqEmitter :=
  xs.foldl (fun e x => (e.processNewTuple paneLength x.1 x.2).1) e

/-- Highest timestamp seen by the slack mechanism in use. -/
def tcurr (e : PlqEmitter) : ℚ := if e.pidEnabled then e.kslackpid.tcurr else e.kslack.tcurr

/-! ## What the emitter knows about progress -/

/-- The slack mechanisms are sound. -/
structure Slack (e : PlqEmitter) : Prop where
  kslack : KSlack.Inv e.kslack
  kslackpid : KSlackPid.Inv e.kslackpid

/-- No punctuation was beyond the highest timestamp. -/
structure Inv (e : PlqEmitter) : Prop extends Slack e where
  nonneg : 0 ≤ e.lastP
  le : e.lastP ≤ e.tcurr

/-- The emitter as constructed. -/
theorem new_inv (pidEnabled : Bool) : (new pidEnabled).Inv where
  kslack := KSlack.new_inv
  kslackpid := KSlackPid.new_inv
  nonneg := le_rfl
  le := by cases pidEnabled <;> exact le_rfl

/-- Resetting the counters of the sample changes nothing else. -/
theorem sample_fields (newSample : Bool) (e : PlqEmitter) :
    (e.sample newSample).pidEnabled = e.pidEnabled ∧ (e.sample newSample).kslack = e.kslack ∧
      (e.sample newSample).lastP = e.lastP := by
  cases newSample <;> exact ⟨rfl, rfl, rfl⟩

/-- The slack mechanism in use takes note of a timestamp. -/
theorem Slack.checkStreamProgress {e : PlqEmitter} (h : e.Slack) (pid : ℚ → Option ℚ) {appTs : ℚ}
    (hts : 0 ≤ appTs) {e' : PlqEmitter} {p : Option ℚ}
    (he : e.checkStreamProgress pid appTs = (e', p)) :
    e'.Slack ∧ e'.lastP = e.lastP ∧ e'.tcurr = max e.tcurr appTs ∧
      ∀ q, p = some q → 0 ≤ q ∧ q ≤ e'.tcurr := by
  unfold PlqEmitter.checkStreamProgress at he
  -- the adaptive mechanism samples first, the standard one does not
  by_cases hpid : e.pidEnabled = true
  · rw [if_pos hpid] at he
    have hadapt := h.kslackpid.adapt (pid (e.droppedSample / e.rcvSample))
    have hsame := KSlackPid.adapt_toKSlack e.kslackpid (pid (e.droppedSample / e.rcvSample))
    generalize e.kslackpid.adapt (pid (e.droppedSample / e.rcvSample)) = x at he hadapt hsame
    obtain ⟨ks, newSample⟩ := x
    obtain ⟨hinv, hk, htcurr, hbounds⟩ := KSlackPidPunc.checkStreamProgress_spec hadapt hts
    dsimp only at he hsame
    generalize KSlackPidPunc.checkStreamProgress appTs ks = y at he hinv hk htcurr hbounds
    cases he
    obtain ⟨hpid', hkslack, hlast⟩ := sample_fields newSample e
    have ht : ∀ ks, tcurr { e.sample newSample with kslackpid := ks } = ks.tcurr := by
      intro ks
      rw [tcurr, hpid', if_pos hpid]
    refine ⟨⟨?_, hinv⟩, hlast, ?_, fun q hq => ?_⟩
    · show KSlack.Inv (e.sample newSample).kslack
      rw [hkslack]
      exact h.kslack
    · rw [ht, htcurr, hsame, tcurr, if_pos hpid]
    · rw [ht]
      exact hbounds q hq
  · rw [if_neg hpid] at he
    obtain ⟨hk, htcurr, hbounds⟩ := KSlackPunc.checkStreamProgress_spec h.kslack hts
    dsimp only at he
    generalize KSlackPunc.checkStreamProgress appTs e.kslack = y at he hk htcurr hbounds
    cases he
    have ht : ∀ ks, tcurr { e with kslack := ks } = ks.tcurr := by
      intro ks
      rw [tcurr, if_neg hpid]
    refine ⟨⟨hk, h.kslackpid⟩, rfl, ?_, fun q hq => ?_⟩
    · rw [ht, htcurr, tcurr, if_neg hpid]
    · rw [ht]
      exact hbounds q hq

/-- A raw punctuation `p` that the slack mechanism has given. -/
theorem Inv.generate {e : PlqEmitter} (hs : e.Slack) (hnonneg : 0 ≤ e.lastP)
    (hle : e.lastP ≤ e.tcurr) {p : ℚ} (hp : 0 ≤ p ∧ p ≤ e.tcurr) (paneLength : Nat)
    (env : ReceiveEnv S) {e' : PlqEmitter} {calls : List (PlqEvent S)}
    (he : e.generate paneLength env p = (e', calls)) :
    e'.Inv ∧ e'.tcurr = e.tcurr ∧ e.lastP ≤ e'.lastP ∧ p ≤ e'.lastP ∧
      (calls = [] ∨ calls = [.progress env.progress p (Tuple.paneOf paneLength p)]) := by
  -- the punctuation is raised to `p`, never lowered
  obtain ⟨hmono, hlast, hbound⟩ : e.lastP ≤ (if e.lastP < p then p else e.lastP) ∧
      p ≤ (if e.lastP < p then p else e.lastP) ∧
      (if e.lastP < p then p else e.lastP) ≤ e.tcurr := by
    split
    · rename_i hlt
      exact ⟨hlt.le, le_rfl, hp.2⟩
    · rename_i hnlt
      exact ⟨le_rfl, not_lt.mp hnlt, hle⟩
  unfold PlqEmitter.generate at he
  -- the scheduler is called where the interval since the last punctuation has elapsed
  cases hel : env.elapsed with
  | true =>
      simp only [hel, if_true, Prod.mk.injEq] at he
      obtain ⟨rfl, rfl⟩ := he
      exact ⟨⟨⟨hs.kslack, hs.kslackpid⟩, hnonneg.trans hmono, hbound⟩, rfl, hmono, hlast,
        Or.inr rfl⟩
  | false =>
      simp only [hel, Bool.false_eq_true, if_false, Prod.mk.injEq] at he
      obtain ⟨rfl, rfl⟩ := he
      exact ⟨⟨⟨hs.kslack, hs.kslackpid⟩, hnonneg.trans hmono, hbound⟩, rfl, hmono, hlast,
        Or.inl rfl⟩

/-- The calls of the punctuation mechanism, `e'` being the emitter afterwards: none, or a progress
to the pane of a punctuation that is not beyond the highest one. -/
def Progresses (paneLength : Nat) (env : ReceiveEnv S) (e' : PlqEmitter)
    (calls : List (PlqEvent S)) : Prop :=
  calls = [] ∨ ∃ p, 0 ≤ p ∧ p ≤ e'.lastP ∧
    calls = [.progress env.progress p (Tuple.paneOf paneLength p)]

/-- **The punctuation mechanism.** -/
theorem Inv.punctuate {e : PlqEmitter} (h : e.Inv) (paneLength : Nat) (env : ReceiveEnv S) {appTs : ℚ}
    (hts : 0 ≤ appTs) {e' : PlqEmitter} {calls : List (PlqEvent S)}
    (he : e.punctuate paneLength env appTs = (e', calls)) :
    e'.Inv ∧ e'.tcurr = max e.tcurr appTs ∧ e.lastP ≤ e'.lastP ∧
      Progresses paneLength env e' calls := by
  unfold PlqEmitter.punctuate at he
  cases hcheck : e.checkStreamProgress env.pid appTs with
  | mk e₁ p =>
      obtain ⟨hs, hlast, htcurr, hbounds⟩ := h.toSlack.checkStreamProgress env.pid hts hcheck
      have hnonneg : 0 ≤ e₁.lastP := hlast ▸ h.nonneg
      have hle : e₁.lastP ≤ e₁.tcurr := by
        rw [hlast, htcurr]
        exact h.le.trans (le_max_left _ _)
      rw [hcheck] at he
      -- without a raw punctuation nothing is generated
      cases p with
      | none =>
          obtain ⟨rfl, rfl⟩ := Prod.mk.inj he
          exact ⟨⟨hs, hnonneg, hle⟩, htcurr, hlast.ge, Or.inl rfl⟩
      | some p =>
          obtain ⟨hinv, ht, hmono, hp, hcalls⟩ :=
            Inv.generate hs hnonneg hle (hbounds p rfl) paneLength env he
          refine ⟨hinv, ht.trans htcurr, hlast ▸ hmono, ?_⟩
          rcases hcalls with rfl | rfl
          · exact Or.inl rfl
          · exact Or.inr ⟨p, (hbounds p rfl).1, hp, rfl⟩

/-- **`processNewTuple`.** The tuple is dropped if it is older than the highest punctuation, its own
one included; otherwise it is scheduled after the progress of the stream. -/
theorem Inv.processNewTuple {e : PlqEmitter} (h : e.Inv) (paneLength : Nat) (env : ReceiveEnv S)
    {t : Tuple DIM} (hts : 0 ≤ t.appTs) {e' : PlqEmitter} {calls : List (PlqEvent S)}
    (he : e.processNewTuple paneLength env t = (e', calls)) :
    e'.Inv ∧ e'.tcurr = max e.tcurr t.appTs ∧ e.lastP ≤ e'.lastP ∧
      ∃ pre, Progresses paneLength env e' pre ∧
        (t.appTs < e'.lastP ∧ calls = pre ∨
          e'.lastP ≤ t.appTs ∧ calls = pre ++ [.tuple env.sched t]) := by
  unfold PlqEmitter.processNewTuple at he
  have hrec : e.receive.Inv := ⟨⟨h.kslack, h.kslackpid⟩, h.nonneg, h.le⟩
  cases hpun : e.receive.punctuate paneLength env t.appTs with
  | mk e₁ pre =>
      obtain ⟨hinv, htcurr, hmono, hpre⟩ := hrec.punctuate paneLength env hts hpun
      rw [hpun] at he
      dsimp only at he
      -- the tuple is dropped below the last punctuation, and scheduled otherwise
      by_cases hdrop : t.appTs < e₁.lastP
      · rw [if_pos hdrop] at he
        obtain ⟨rfl, rfl⟩ := Prod.mk.inj he
        exact ⟨⟨⟨hinv.kslack, hinv.kslackpid⟩, hinv.nonneg, hinv.le⟩, htcurr, hmono, pre, hpre,
          Or.inl ⟨hdrop, rfl⟩⟩
      · rw [if_neg hdrop] at he
        obtain ⟨rfl, rfl⟩ := Prod.mk.inj he
        exact ⟨hinv, htcurr, hmono, pre, hpre, Or.inr ⟨not_lt.mp hdrop, rfl⟩⟩

end PlqEmitter

/-! ## The emitter and the stage -/

/-- The emitter, the stage behind it, and what has been received and sent so far. -/
structure PlqPipe (S : Strategy N DIM) (R : Type) where
  /-- The fields of the emitter. -/
  emitter : PlqEmitter
  /-- The strategy, the workers and the channels. -/
  stage : PlqState S R
  /-- The tuples received so far. -/
  received : List (Row ℚ DIM)
  /-- The messages sent to the workers so far, in order. -/
  sent : Sends N DIM

/-- What may happen next. -/
inductive PipeEvent (S : Strategy N DIM)
  /-- A tuple comes from the Generator. -/
  | receive (env : ReceiveEnv S) (row : Row ℚ DIM)
  /-- A reconfiguration `ADD`. -/
  | add (ws : List (Fin N))
  /-- A reconfiguration `REMOVE`. -/
  | remove (env : S.Env) (ws : List (Fin N))
  /-- The stream is complete. -/
  | finish
  /-- A worker consumes a message. -/
  | worker (w : Fin N)

namespace PlqPipe

variable {S : Strategy N DIM}

/-- Everything as constructed. -/
def init (S : Strategy N DIM) (R : Type) (nw : Nat) (pidEnabled : Bool) : PlqPipe S R where
  emitter := PlqEmitter.new pidEnabled
  stage := PlqState.init S R nw
  received := []
  sent := []

/-- The emitter after an event, and the calls that it makes. -/
def calls (paneLength : Nat) (x : PlqPipe S R) : PipeEvent S → PlqEmitter × List (PlqEvent S)
  | .receive env row =>
      x.emitter.processNewTuple paneLength env (Tuple.createRegular row paneLength)
  | .add ws => (x.emitter, [.add ws])
  | .remove env ws => (x.emitter, [.remove env ws])
  | .finish => (x.emitter, [.finish])
  | .worker w => (x.emitter, [.worker w])

/-- The tuple received at an event, if it is one. -/
def rows : PipeEvent S → List (Row ℚ DIM)
  | .receive _ row => [row]
  | _ => []

variable [PrefQuery (Row ℚ DIM) R]

/-- The calls take place, with the messages they send; the first one that aborts is an error. -/
def perform (c : PlqParams) : List (PlqEvent S) → PlqState S R → Sends N DIM →
    Except (PlqEvent S) (PlqState S R × Sends N DIM)
  | [], σ, sent => .ok (σ, sent)
  | e :: es, σ, sent =>
      match σ.exec c e with
      -- the stage aborts: the calls that follow are not made
      | none => .error e
      | some σ' => perform c es σ' (sent ++ σ.sends c e)

/-- The effect of an event. -/
def exec (c : PlqParams) (x : PlqPipe S R) (e : PipeEvent S) :
    Except (PlqEvent S) (PlqPipe S R) :=
  let (emitter, calls) := x.calls c.paneLength e
  match perform c calls x.stage x.sent with
  | .error call => .error call
  | .ok (stage, sent) => .ok ⟨emitter, stage, x.received ++ rows e, sent⟩

/-- When an event may happen. Timestamps are not negative; reconfigurations come from the
controller. -/
def Enabled (c : PlqParams) (x : PlqPipe S R) : PipeEvent S → Prop
  | .receive _ row => x.stage.ended = false ∧ 0 ≤ row.appTs
  | .add ws => x.stage.Enabled c (.add ws)
  | .remove env ws => x.stage.Enabled c (.remove env ws)
  | .finish => x.stage.Enabled c .finish
  | .worker w => x.stage.Enabled c (.worker w)

instance decidableEnabled (c : PlqParams) (x : PlqPipe S R) :
    (e : PipeEvent S) → Decidable (x.Enabled c e)
  | .receive _ row => inferInstanceAs (Decidable (x.stage.ended = false ∧ 0 ≤ row.appTs))
  | .add ws => PlqState.decidableEnabled c x.stage (.add ws)
  | .remove env ws => PlqState.decidableEnabled c x.stage (.remove env ws)
  | .finish => PlqState.decidableEnabled c x.stage .finish
  | .worker w => PlqState.decidableEnabled c x.stage (.worker w)

end PlqPipe

end ElasticPPQ
