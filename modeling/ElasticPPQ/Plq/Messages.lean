import ElasticPPQ.Lib.Run
import ElasticPPQ.Plq.Handling
import ElasticPPQ.Plq.InOrder
import ElasticPPQ.Plq.Ownership

/-! # The lifetime of the messages

The stage together with the objects of its messages (`MsgState`): the emitter creates them, a worker
takes an address and makes its accesses one at a time, and the accesses of the workers interleave. A
multicast is one step here; that a worker is ahead of a send is a run in which the others are late.

In a run of either pipeline, whatever the strategy, every object is released once, by its last
recipient, and none is read afterwards, exactly as long as no worker takes a `LULL` message, which
nobody ever deletes, and no worker of the in-order pipeline compares the pane of a `FLUSH` message
after the other recipients are done with it (`lifetimes_iff`). -/

namespace ElasticPPQ

open Lifetime FifoNet Sends
open Function (update update_self update_of_ne)

variable {N DIM : Nat} {R : Type}

/-! ## What the emitter sends -/

/-- A progress sends single `LULL` messages and, in the out-of-order pipeline, one punctuation. -/
theorem Sched.Progressed.multicasts {iop : Bool} {held : Nat → List (Fin N)} {pId : Nat}
    {s s' : Sched N} {out : Sends N DIM} (h : Sched.Progressed iop held pId s s' out)
    (hnw : s.nwPlq = s.numActive) {rest : Sends N DIM} (hrest : Multicasts rest)
    (hlast : iop = false → rest = []) : Multicasts (out ++ rest) := by
  rcases h.sends with ⟨-, rfl⟩ | ⟨-, lulls, ts, rfl, -, -⟩
  · exact hrest
  · rw [progressSends, List.append_assoc]
    apply Multicasts.singles _ fun _ => rfl
    cases iop with
    | true => exact hrest
    | false =>
        rw [hlast rfl, List.append_nil]
        exact Multicasts.alone _ rfl hnw

namespace PlqState

variable {S : Strategy N DIM} {c : PlqParams} {Rf : S.Refinement} {σ σ' : PlqState S R}

/-- The messages sent are whole multicasts and single messages, and there are no punctuations in the
in-order pipeline. -/
structure SendsObjects (c : PlqParams) (out : Sends N DIM) : Prop where
  multicasts : Multicasts out
  noPunct : c.iop = true → ∀ x ∈ out, x.2.type ≠ .punct

/-- No message, no object. -/
theorem SendsObjects.nil (c : PlqParams) : SendsObjects c ([] : Sends N DIM) :=
  ⟨Multicasts.nil, fun _ _ hx => absurd hx List.not_mem_nil⟩

variable [PrefQuery (Row ℚ DIM) R]

omit [PrefQuery (Row ℚ DIM) R] in
/-- **Whatever the emitter sends is made of objects with the right counters.** -/
theorem Ready.sendsObjects (h : σ.Ready c Rf) (hM : S.Multicasting)
    (hnw : σ.ended = false → (S.base σ.sched).nwPlq = (S.base σ.sched).numActive) {e : PlqEvent S}
    (he : σ.Enabled c e) (hle : c.iop = true → ∀ t ∈ scheduledBy e, σ.nextPaneId ≤ t.paneId) :
    SendsObjects c (σ.sends c e) := by
  cases e with
  | tuple env t =>
      obtain ⟨hend, ht, -⟩ := he
      cases hi : c.iop with
      | false =>
          have hsched : schedule c env t σ.sched = S.schedToWorker env t σ.sched := by
            rw [schedule, hi, if_neg Bool.false_ne_true]
          refine ⟨?_, fun hi' => absurd (hi.symm.trans hi') Bool.false_ne_true⟩
          rw [sends, hsched]
          cases hrun : S.schedToWorker env t σ.sched with
          | none => exact Multicasts.nil
          | some x => exact hM.schedToWorker ht hrun
      | true =>
          -- the lulls of the closed panes come before the messages of the tuple
          obtain ⟨s₁, lulls, s', out, hsched, hrun, -, -, -, -, hpr, hsch⟩ :=
            h.scheduleIop hi hend env ht (hle hi t (List.mem_singleton_self t))
          have hsends : σ.sends c (.tuple env t) = lulls ++ out := by
            rw [sends, hsched]
            rfl
          rw [hsends]
          refine ⟨hpr.multicasts (hnw hend) (hM.schedToWorker ht hrun)
            (fun hno => absurd hno Bool.true_eq_false.mp), fun _ x hx hty => ?_⟩
          rcases List.mem_append.mp hx with hx | hx
          · exact absurd (punct_progressed hpr x hx hty).1 Bool.true_eq_false.mp
          · exact absurd hty (punct_scheduled ht hsch x hx)
  | progress env ts pId =>
      obtain ⟨hend, hi⟩ := he
      obtain ⟨s', out, hrun, -, -, hpr⟩ :=
        Rf.executeStreamProgress h.inv h.hasActive env c.iop ts pId
      have hsends : σ.sends c (.progress env ts pId) = out := by
        rw [sends, hrun]
        rfl
      have hmult := hpr.multicasts (hnw hend) Multicasts.nil fun _ => rfl
      rw [List.append_nil] at hmult
      rw [hsends]
      exact ⟨hmult, fun hi' => absurd (hi.symm.trans hi') Bool.false_ne_true⟩
  | add ws => exact SendsObjects.nil c
  | remove env ws =>
      obtain ⟨hend, hws, hactive, hleft⟩ := he
      obtain ⟨s', out, hrun, -, hrem⟩ := Rf.removeWorkers h.inv hws hactive hleft
        (h.heldActive hend) h.single env ws.length
      have hsends : σ.sends c (.remove env ws) = out := by
        rw [sends, hrun]
        rfl
      rw [hsends]
      exact ⟨hM.removeWorkers hrun, fun _ x hx => (hrem.control x hx).2⟩
  | finish =>
      constructor
      · exact Multicasts.alone (List.finRange N) rfl List.length_finRange.symm
      · intro _ x hx
        obtain ⟨w, -, rfl⟩ := List.mem_map.mp hx
        exact TypeMsg.noConfusion
  | worker w => exact SendsObjects.nil c

/-- **The invariant of the stage in either pipeline.** -/
structure Steady (c : PlqParams) (Rf : S.Refinement) (σ : PlqState S R) : Prop where
  outOfOrder : c.iop = false → σ.Handled c Rf
  inOrder : c.iop = true → σ.Good c Rf
  nwPlq : σ.ended = false → (S.base σ.sched).nwPlq = (S.base σ.sched).numActive

/-- The stage as constructed. -/
theorem init_steady (c : PlqParams) (Rf : S.Refinement) {nw : Nat} (hpos : 0 < nw) (hle : nw ≤ N) :
    (init S R nw).Steady c Rf where
  outOfOrder := fun _ => init_handled c Rf hpos hle
  inOrder := fun _ => init_good c Rf hpos hle
  nwPlq := (init_handled c Rf hpos hle).nwPlq

/-- The messages on their way may be handled. -/
theorem Steady.ready (h : σ.Steady c Rf) : σ.Ready c Rf := by
  cases hi : c.iop with
  | false => exact (h.outOfOrder hi).ready hi
  | true => exact (h.inOrder hi).ready

/-- Every event keeps the invariant, and none aborts. -/
theorem Steady.step (h : σ.Steady c Rf) {e : PlqEvent S} (he : σ.Enabled c e) :
    ∃ σ', σ.exec c e = some σ' ∧ σ'.Steady c Rf := by
  cases hi : c.iop with
  | false =>
      obtain ⟨σ', hσ', h'⟩ := (h.outOfOrder hi).step hi he
      exact ⟨σ', hσ', fun _ => h', fun hi' => absurd (hi.symm.trans hi') Bool.false_ne_true,
        h'.nwPlq⟩
  | true =>
      obtain ⟨σ', hσ', h', -⟩ := (h.inOrder hi).stepIop hi he
      exact ⟨σ', hσ', fun hi' => absurd (hi.symm.trans hi') Bool.true_eq_false.mp, fun _ => h',
        (h.inOrder hi).nwPlq hi h.nwPlq he hσ'⟩

/-- What an event sends are objects of the kinds that the workers expect. -/
theorem Steady.sendsObjects (h : σ.Steady c Rf) (hM : S.Multicasting) {e : PlqEvent S}
    (he : σ.Enabled c e) : SendsObjects c (σ.sends c e) :=
  h.ready.sendsObjects hM h.nwPlq he fun hi => (h.inOrder hi).tuple_le hi he

end PlqState

/-! ## The stage and its objects -/

/-- The stage and the objects of its messages. -/
structure MsgState (S : Strategy N DIM) (R : Type) where
  /-- The stage. -/
  stage : PlqState S R
  /-- The objects of its messages. -/
  store : MsgStore N DIM

/-- What may happen next. -/
inductive MsgEvent (S : Strategy N DIM)
  /-- The emitter processes an event. -/
  | emit (e : PlqEvent S)
  /-- A worker takes its next message. -/
  | take (w : Fin N)
  /-- A worker makes its next access to the message it has taken. -/
  | access (w : Fin N)

/-- What may go wrong. -/
inductive MsgFault
  /-- The source aborts. -/
  | abort
  /-- A faulty access to an object. -/
  | access (x : Fault)
  deriving DecidableEq

namespace MsgState

variable {S : Strategy N DIM}

/-- The stage as constructed. -/
def init (S : Strategy N DIM) (R : Type) (nw : Nat) : MsgState S R :=
  ⟨PlqState.init S R nw, MsgStore.new N DIM⟩

variable [PrefQuery (Row ℚ DIM) R]

/-- The effect of an event. -/
def exec (c : PlqParams) (σ : MsgState S R) : MsgEvent S → Except MsgFault (MsgState S R)
  | .emit e =>
      match σ.stage.exec c e with
      | none => .error .abort
      | some stage => .ok ⟨stage, σ.store.createAll (objects (σ.stage.sends c e))⟩
  -- the worker takes the oldest pointer of its channel, and runs the accesses of that message
  | .take w =>
      match σ.store.channel w with
      | [] => .ok σ
      | m :: _ =>
          match σ.stage.exec c (.worker w) with
          | none => .error .abort
          | some stage => .ok ⟨stage, { σ.store with
              memory := σ.store.memory.take w
                (PlqWorker.accesses c.iop (σ.stage.net.node w).1 m) }⟩
  -- the accesses of the workers interleave in any order
  | .access w =>
      match σ.store.memory.access w with
      | .error x => .error (.access x)
      | .ok memory => .ok { σ with store := { σ.store with memory := memory } }

/-- When an event may happen: a worker takes a message when it is done with the one before. -/
def Enabled (c : PlqParams) (σ : MsgState S R) : MsgEvent S → Prop
  | .emit e => PlqState.ofEmitter e = true ∧ σ.stage.Enabled c e
  | .take w => (σ.store.memory.running w).2 = [] ∧ σ.store.memory.queue w ≠ []
  | .access w => (σ.store.memory.running w).2 ≠ []

/-- A step that keeps the lifetimes right: the message that a worker takes is no `LULL`, and a worker
that reads a message after it has decremented its counter does so while another recipient has still
to take the message, to decrement its counter or to release it. -/
def Safe (σ : MsgState S R) : MsgEvent S → Prop
  | .emit _ => True
  | .take w => ∀ m ∈ (σ.store.channel w).head?, m.type ≠ .lull
  | .access w => σ.store.memory.LateRead w →
      σ.store.memory.Pending (σ.store.memory.running w).1

instance decidableEnabled (c : PlqParams) (σ : MsgState S R) :
    (e : MsgEvent S) → Decidable (σ.Enabled c e)
  | .emit e => inferInstanceAs (Decidable (PlqState.ofEmitter e = true ∧ σ.stage.Enabled c e))
  | .take w => inferInstanceAs
      (Decidable ((σ.store.memory.running w).2 = [] ∧ σ.store.memory.queue w ≠ []))
  | .access w => inferInstanceAs (Decidable ((σ.store.memory.running w).2 ≠ []))

instance decidableSafe (σ : MsgState S R) : (e : MsgEvent S) → Decidable (σ.Safe e)
  | .emit _ => isTrue trivial
  | .take w => inferInstanceAs (Decidable (∀ m ∈ (σ.store.channel w).head?, m.type ≠ .lull))
  | .access w => inferInstanceAs (Decidable (σ.store.memory.LateRead w →
      σ.store.memory.Pending (σ.store.memory.running w).1))

/-- **What the messages promise**: the lifetimes of their objects are right, and the addresses in a
channel are those of the messages in it. -/
structure Sound (σ : MsgState S R) : Prop where
  lifetimes : σ.store.memory.Exact
  channels : ∀ w, σ.stage.net.queue w = σ.store.channel w

/-! ## The steps -/

variable {c : PlqParams} {Rf : S.Refinement} {σ : MsgState S R}

/-- **The invariant.** -/
structure Kept (c : PlqParams) (Rf : S.Refinement) (σ : MsgState S R) : Prop where
  steady : σ.stage.Steady c Rf
  store : σ.store.Inv
  channels : ∀ w, σ.stage.net.queue w = σ.store.channel w
  noPunct : c.iop = true → ∀ w, ∀ m ∈ σ.store.channel w, m.type ≠ .punct

/-- Every object in use is alive. -/
theorem Kept.sound (h : σ.Kept c Rf) : σ.Sound := ⟨Memory.Inv.exact h.store, h.channels⟩

/-- The stage as constructed, with no object. -/
theorem init_kept (c : PlqParams) (Rf : S.Refinement) {nw : Nat} (hpos : 0 < nw) (hle : nw ≤ N) :
    (init S R nw).Kept c Rf where
  steady := PlqState.init_steady c Rf hpos hle
  store := MsgStore.new_inv N DIM
  channels := fun _ => rfl
  noPunct := fun _ _ _ hm => absurd hm List.not_mem_nil

/-- The emitter keeps the invariant. -/
theorem Kept.emit (h : σ.Kept c Rf) (hM : S.Multicasting) {e : PlqEvent S}
    (he : σ.Enabled c (.emit e)) : ∃ σ', σ.exec c (.emit e) = .ok σ' ∧ σ'.Kept c Rf := by
  obtain ⟨hof, hen⟩ := he
  obtain ⟨stage, hstage, hsteady⟩ := h.steady.step hen
  have hsends := h.steady.sendsObjects hM hen
  obtain ⟨hstore, hchannel⟩ := MsgStore.Inv.sends h.store hsends.multicasts
  -- the stage and its messages advance together, and no punctuation is sent in order
  refine ⟨⟨stage, _⟩, by rw [exec, hstage], hsteady, hstore, fun w => ?_, fun hi w m hm => ?_⟩
  · show stage.net.queue w = _
    rw [hchannel, ← h.channels, PlqState.exec_net hof hstage]
    rfl
  · rw [hchannel] at hm
    rcases List.mem_append.mp hm with hm | hm
    · exact h.noPunct hi w m hm
    · obtain ⟨x, hx, rfl⟩ := List.mem_map.mp hm
      exact hsends.noPunct hi x (List.mem_filter.mp hx).1

/-- What a worker takes. -/
theorem Kept.take_eq (h : σ.Kept c Rf) {w : Fin N} (he : σ.Enabled c (.take w)) :
    ∃ a as stage, σ.store.memory.queue w = a :: as ∧
      σ.store.channel w = σ.store.message a :: as.map σ.store.message ∧
      stage.Steady c Rf ∧ stage.net.queue = update σ.stage.net.queue w (as.map σ.store.message) ∧
      σ.exec c (.take w) = .ok ⟨stage, { σ.store with
        memory := σ.store.memory.take w
          (PlqWorker.accesses c.iop (σ.stage.net.node w).1 (σ.store.message a)) }⟩ := by
  obtain ⟨-, hne⟩ := he
  obtain ⟨a, as, hq⟩ := List.exists_cons_of_ne_nil hne
  have hchannel : σ.store.channel w = σ.store.message a :: as.map σ.store.message := by
    rw [MsgStore.channel, hq, List.map_cons]
  have hnet : σ.stage.net.queue w = σ.store.message a :: as.map σ.store.message :=
    (h.channels w).trans hchannel
  obtain ⟨stage, hstage, hsteady⟩ := h.steady.step (e := .worker w) (by
    show σ.stage.net.queue w ≠ []
    rw [hnet]
    exact List.cons_ne_nil _ _)
  refine ⟨a, as, stage, hq, hchannel, hsteady, ?_, by simp only [exec, hchannel, hstage]⟩
  simp only [PlqState.exec, hnet] at hstage
  obtain ⟨y, -, rfl⟩ := Option.map_eq_some_iff.mp hstage
  rfl

omit [PrefQuery (Row ℚ DIM) R] in
/-- The rest of the channels after a worker has taken a message. -/
theorem channel_take {w : Fin N} {a : Nat} {as : List Nat} (hq : σ.store.memory.queue w = a :: as)
    (prog : List (Access MsgField)) (v : Fin N) :
    ({ σ.store with memory := σ.store.memory.take w prog } : MsgStore N DIM).channel v =
      update (fun v => σ.store.channel v) w (as.map σ.store.message) v := by
  show ((σ.store.memory.take w prog).queue v).map σ.store.message = _
  have htake : (σ.store.memory.take w prog).queue = update σ.store.memory.queue w as := by
    rw [Memory.take, hq]
  rw [htake]
  by_cases hv : v = w
  · rw [hv, update_self, update_self]
  · rw [update_of_ne hv, update_of_ne hv]
    rfl

/-- A worker that takes a message other than `LULL` keeps the invariant. -/
theorem Kept.take (h : σ.Kept c Rf) {w : Fin N} (he : σ.Enabled c (.take w))
    (hsafe : σ.Safe (.take w)) : ∃ σ', σ.exec c (.take w) = .ok σ' ∧ σ'.Kept c Rf := by
  obtain ⟨a, as, stage, hq, hchannel, hsteady, hnet, hexec⟩ := h.take_eq he
  refine ⟨_, hexec, hsteady, ?_, fun v => ?_, fun hi v m hm => ?_⟩
  -- the worker has taken a message that is not a `LULL`
  · apply Memory.Inv.take h.store he.1 hq
    apply PlqWorker.accesses_disciplined
    · apply hsafe
      rw [hchannel]
      rfl
    · intro hi
      apply h.noPunct hi w
      rw [hchannel]
      exact List.mem_cons_self
  · rw [channel_take hq]
    show stage.net.queue v = _
    rw [hnet]
    -- the worker's own channel has lost its head, the others are as before
    by_cases hv : v = w
    · rw [hv, update_self, update_self]
    · rw [update_of_ne hv, update_of_ne hv]
      exact h.channels v
  · rw [channel_take hq] at hm
    by_cases hv : v = w
    · rw [hv, update_self] at hm
      apply h.noPunct hi w m
      rw [hchannel]
      exact List.mem_cons_of_mem _ hm
    · rw [update_of_ne hv] at hm
      exact h.noPunct hi v m hm

/-- A worker that takes a `LULL` message keeps it for ever. -/
theorem Kept.take_lull (h : σ.Kept c Rf) {w : Fin N} (he : σ.Enabled c (.take w))
    (hno : ¬ σ.Safe (.take w)) {σ' : MsgState S R} (hσ' : σ.exec c (.take w) = .ok σ') :
    ¬ σ'.Sound := by
  obtain ⟨a, as, stage, hq, hchannel, -, -, hexec⟩ := h.take_eq he
  -- the only unsafe message is a `LULL`, which the worker reads but never releases
  have hlull : (σ.store.message a).type = .lull := by
    by_contra hne
    apply hno
    intro m hm
    rw [hchannel] at hm
    obtain rfl := Option.some.inj hm
    exact hne
  have hreads := PlqWorker.accesses_lull c.iop (σ.stage.net.node w).1 hlull
  rw [hexec] at hσ'
  obtain rfl := Except.ok.inj hσ'
  intro hsound
  apply Memory.Inv.take_leaks h.store he.1 hq ?_ hreads.not_mem.1 hreads.not_mem.2 hsound.lifetimes
  rw [hlull]
  exact Bool.false_ne_true

/-- An access keeps the invariant, unless it comes too late. -/
theorem Kept.access (h : σ.Kept c Rf) {w : Fin N} (he : σ.Enabled c (.access w))
    (hsafe : σ.Safe (.access w)) : ∃ σ', σ.exec c (.access w) = .ok σ' ∧ σ'.Kept c Rf := by
  obtain ⟨memory, hacc, hinv, hqueue, -⟩ := Memory.Inv.access h.store he hsafe
  -- an access leaves the channels alone
  have hchannel : ∀ v, (⟨memory, σ.store.message⟩ : MsgStore N DIM).channel v =
      σ.store.channel v := by
    intro v
    show (memory.queue v).map σ.store.message = _
    rw [hqueue]
    rfl
  refine ⟨⟨σ.stage, memory, σ.store.message⟩, by simp only [exec, hacc], h.steady, hinv,
    fun v => ?_, fun hi v => ?_⟩
  · rw [hchannel]
    exact h.channels v
  · rw [hchannel]
    exact h.noPunct hi v

/-- An access that comes too late is to an object that has been released. -/
theorem Kept.access_late (h : σ.Kept c Rf) {w : Fin N} (hno : ¬ σ.Safe (.access w)) :
    σ.exec c (.access w) = .error (.access .released) := by
  obtain ⟨hlate, hpending⟩ := Classical.not_imp.mp hno
  simp only [exec, Memory.Inv.access_late h.store hlate hpending]

/-- A safe step keeps the invariant. -/
theorem Kept.step (h : σ.Kept c Rf) (hM : S.Multicasting) {e : MsgEvent S} (he : σ.Enabled c e)
    (hsafe : σ.Safe e) : ∃ σ', σ.exec c e = .ok σ' ∧ σ'.Kept c Rf := by
  cases e with
  | emit e => exact h.emit hM he
  | take w => exact h.take he hsafe
  | access w => exact h.access he hsafe

/-- Another step is a fault, or leaves a message that nobody releases. -/
theorem Kept.step_fails (h : σ.Kept c Rf) {e : MsgEvent S} (he : σ.Enabled c e)
    (hno : ¬ σ.Safe e) {σ' : MsgState S R} (hσ' : σ.exec c e = .ok σ') : ¬ σ'.Sound := by
  cases e with
  | emit e => exact absurd trivial hno
  | take w => exact h.take_lull he hno hσ'
  | access w =>
      rw [h.access_late hno] at hσ'
      cases hσ'

/-! ## Runs -/

/-- The messages are sound all the way. -/
def SoundAlong (c : PlqParams) (es : List (MsgEvent S)) (σ : MsgState S R) : Prop :=
  ∀ es', es' <+: es → ∃ σ', Run.run (exec c) es' σ = .ok σ' ∧ σ'.Sound

/-- The messages are sound in every run. -/
def LifetimesRight (S : Strategy N DIM) (R : Type) [PrefQuery (Row ℚ DIM) R] (c : PlqParams)
    (nw : Nat) : Prop :=
  ∀ es, Run.Valid (exec c) (Enabled c) es (init S R nw) → SoundAlong c es (init S R nw)

/-- In every run, the messages are sound all the way if and only if all the steps are safe. -/
def LifetimesIff (S : Strategy N DIM) (R : Type) [PrefQuery (Row ℚ DIM) R] (c : PlqParams)
    (nw : Nat) : Prop :=
  ∀ es, Run.Valid (exec c) (Enabled c) es (init S R nw) →
    (SoundAlong c es (init S R nw) ↔ Run.Valid (exec c) Safe es (init S R nw))

end MsgState

open MsgState

/-- **Every strategy that refines the ledger and multicasts with the right counters.** -/
theorem Strategy.Refinement.lifetimesIff {S : Strategy N DIM} (Rf : S.Refinement)
    (hM : S.Multicasting) (R : Type) [PrefQuery (Row ℚ DIM) R] (c : PlqParams) {nw : Nat}
    (hpos : 0 < nw) (hle : nw ≤ N) : LifetimesIff S R c nw := by
  intro es hes
  apply Run.Valid.sound_iff (P := fun σ => σ.Kept c Rf) (fun σ h => h.sound)
  · intro σ e h he hsafe
    exact h.step hM he hsafe
  · intro σ e σ' h he hno hσ'
    exact h.step_fails he hno hσ'
  · exact hes
  · exact init_kept c Rf hpos hle

/-- **When the messages live as long as they should**, for each of the three strategies, with
out-of-order and with in-order workers. -/
theorem lifetimes_iff (R : Type) [PrefQuery (Row ℚ DIM) R] (c : PlqParams) {nw : Nat}
    (hpos : 0 < nw) (hle : nw ≤ N) :
    LifetimesIff (PbRrSched.strategy N DIM) R c nw ∧
      LifetimesIff (TbRrSched.strategy N DIM) R c nw ∧
      LifetimesIff (AdaptiveSched.strategy N DIM) R c nw :=
  ⟨(PbRrSched.refinement N DIM).lifetimesIff (PbRrSched.multicasting N DIM) R c hpos hle,
    (TbRrSched.refinement N DIM).lifetimesIff (TbRrSched.multicasting N DIM) R c hpos hle,
    (AdaptiveSched.refinement N DIM).lifetimesIff (AdaptiveSched.multicasting N DIM) R c hpos hle⟩

/-- Two workers share a punctuation: the first decrements its counter, the second also deletes it. -/
theorem lifetimes_iff_witness :
    SoundAlong (oop 2 1 1) ([.emit (.tuple () (tupleOf 0)), .emit (.progress () 0 1), .take 0,
        .take 1, .access 1, .access 0, .access 1, .access 1]) (init (PbRrSched.strategy 2 1) (Build (Row ℚ 1)) 2) :=
  ((lifetimes_iff (Build (Row ℚ 1)) (oop 2 1 1) (by decide) (by decide)).1 _
    (by decide +kernel)).mpr (by decide +kernel)

/-- Pane 0 is empty when it is closed: worker 0 takes the `LULL` message and is done with it. -/
def lullRun : List (MsgEvent (PbRrSched.strategy 2 1)) :=
  [.emit (.progress () 0 1), .take 0] ++ List.replicate 8 (.access 0)

/-- The state after that run. -/
def lullEnd : MsgState (PbRrSched.strategy 2 1) (Build (Row ℚ 1)) :=
  Run.result (Run.run (exec (oop 2 1 1)) lullRun (init _ _ 1)) (by decide +kernel)

/-- Worker 0 opens pane 0, is removed and, in the in-order pipeline, looks at the pane of the `FLUSH`
message that it has just deleted. -/
def flushRun : List (MsgEvent (PbRrSched.strategy 2 1)) :=
  [.emit (.tuple () (tupleOf 0)), .take 0] ++ List.replicate 11 (.access 0) ++
    [.emit (.remove () [0]), .take 0] ++ List.replicate 6 (.access 0)

/-- A `LULL` message is never released, and a `FLUSH` message is read after its release. -/
theorem message_lifetimes_fail :
    ¬ LifetimesRight (PbRrSched.strategy 2 1) (Build (Row ℚ 1)) (oop 2 1 1) 1 ∧
      ¬ LifetimesRight (PbRrSched.strategy 2 1) (Build (Row ℚ 1)) (inOrder 2 1 1) 2 := by
  constructor
  -- the `LULL` is read and never released
  · intro h
    obtain ⟨σ, hσ, hsound⟩ := h lullRun (by decide +kernel) lullRun (List.prefix_refl _)
    obtain rfl : lullEnd = σ := Except.ok.inj ((Run.eq_ok_result _ _).symm.trans hσ)
    have hreleased := hsound.lifetimes.released_iff 0 (by decide +kernel)
    exact absurd hreleased (by decide +kernel)
  -- the `FLUSH` is read after it has been released
  · intro h
    obtain ⟨σ, hσ, -⟩ := h flushRun (by decide +kernel) flushRun (List.prefix_refl _)
    have hfault : (Run.run (exec (inOrder 2 1 1)) flushRun
        (init _ (Build (Row ℚ 1)) 2)).isOk = false := by decide +kernel
    rw [hσ] at hfault
    cases hfault

end ElasticPPQ
