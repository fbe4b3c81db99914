import ElasticPPQ.Plq.Strategy

/-! # The pane-level query stage: emitter, channels and workers

The system around a strategy: `PLQ_Emitter` (out-of-order) or `PLQ_Emitter_IOP` (in-order) calls the
methods of the strategy, whose messages travel to the workers through FIFO channels; a worker
consumes its next message at any moment. A run is a list of events. -/

namespace ElasticPPQ

open FifoNet

variable {N DIM : Nat}

/-- The parameters of the stage. -/
structure PlqParams where
  /-- Panes per window. -/
  wp : Nat
  /-- Panes per slide. -/
  sp : Nat
  /-- Length of a pane (milliseconds). -/
  paneLength : Nat
  /-- Whether the in-order pipeline is compiled (`IOP`). -/
  iop : Bool

/-- The state of the stage: the strategy, the workers with what they have emitted and the channels
into them, all the tuples scheduled so far, and whether the stream has ended. -/
structure PlqState (S : Strategy N DIM) (R : Type) where
  /-- The state of the strategy. -/
  sched : S.State
  /-- The workers and their input channels. -/
  net : Net (Fin N) (PlqWorker R) (Tuple DIM) (Rset R)
  /-- The tuples scheduled so far. -/
  scheduled : List (Tuple DIM)
  /-- Whether the end-of-stream message has been sent. -/
  ended : Bool

/-- What may happen next. -/
inductive PlqEvent (S : Strategy N DIM)
  /-- A tuple is processed. -/
  | tuple (env : S.Env) (t : Tuple DIM)
  /-- The stream progresses (out-of-order pipeline). -/
  | progress (env : S.Env) (ts : ℚ) (pId : Nat)
  /-- A reconfiguration `ADD`. -/
  | add (ws : List (Fin N))
  /-- A reconfiguration `REMOVE`. -/
  | remove (env : S.Env) (ws : List (Fin N))
  /-- The stream ends. -/
  | finish
  /-- A worker consumes a message. -/
  | worker (w : Fin N)

namespace PlqState

variable {S : Strategy N DIM} {R : Type}

/-- The stage as constructed, with the first `nw` workers utilized. -/
def init (S : Strategy N DIM) (R : Type) (nw : Nat) : PlqState S R where
  sched := S.new nw
  net := ⟨fun _ => (PlqWorker.new R, []), fun _ => []⟩
  scheduled := []
  ended := false

/-- The identifier of the next pane to complete. -/
def nextPaneId (σ : PlqState S R) : Nat := (S.base σ.sched).nextPaneId

/-- The number of partitions of pane `p`. -/
def pInstances (σ : PlqState S R) (p : Nat) : Nat := (S.base σ.sched).instances p

/-- Whether worker `w` is activated. -/
def activated (σ : PlqState S R) (w : Fin N) : Bool := (S.base σ.sched).activatedWorker w

/-- The results sets emitted so far, by worker. -/
def emitted (σ : PlqState S R) (w : Fin N) : List (Rset R) := (σ.net.node w).2

/-- All the channels are empty. -/
def Drained (σ : PlqState S R) : Prop := ∀ w, σ.net.queue w = []

instance (σ : PlqState S R) : Decidable σ.Drained := by
  unfold Drained
  have : ∀ w, Decidable (σ.net.queue w = []) := fun w =>
    match σ.net.queue w with
    | [] => isTrue rfl
    | _ :: _ => isFalse (List.cons_ne_nil _ _)
  infer_instance

/-- The state after a method of the strategy. -/
def sent (σ : PlqState S R) (x : S.State × Sends N DIM) : PlqState S R :=
  { σ with sched := x.1, net := σ.net.sendAll x.2 }

/-- `processNewTuple` up to the scheduling of `t`: in the in-order pipeline the panes before the one
of the tuple are complete. -/
def schedule (c : PlqParams) (env : S.Env) (t : Tuple DIM) (s : S.State) :
    Option (S.State × Sends N DIM) :=
  if c.iop then do
    let (s, lulls) ← S.executeStreamProgress env true t.appTs t.paneId s
    let (s, out) ← S.schedToWorker env t s
    some (s, lulls ++ out)
  else S.schedToWorker env t s

variable [PrefQuery (Row ℚ DIM) R]

/-- The effect of an event, `none` where the source aborts. -/
def exec (c : PlqParams) (σ : PlqState S R) : PlqEvent S → Option (PlqState S R)
  | .tuple env t =>
      (schedule c env t σ.sched).map fun x =>
        { σ.sent x with scheduled := σ.scheduled ++ [t] }
  | .progress env ts pId => (S.executeStreamProgress env c.iop ts pId σ.sched).map σ.sent
  | .add ws => (S.addWorkers ws.length ws σ.sched).map fun s => σ.sent (s, [])
  | .remove env ws => (S.removeWorkers env ws.length ws σ.sched).map σ.sent
  | .finish => some { σ.sent (S.broadcastEndToW σ.sched) with ended := true }
  | .worker w =>
      match σ.net.queue w with
      | [] => some σ
      | m :: ms =>
          (feed (PlqWorker.svcOf c.iop c.wp c.sp) (σ.net.node w) m).map fun y =>
            { σ with net := ⟨Function.update σ.net.node w y, Function.update σ.net.queue w ms⟩ }

/-- When an event may happen. Reconfigurations come from the controller: they activate de-activated
workers, or de-activate activated ones and leave at least one. In the out-of-order pipeline the
tuples of closed panes have been dropped; in the in-order pipeline the timestamps do not decrease. -/
def Enabled (c : PlqParams) (σ : PlqState S R) : PlqEvent S → Prop
  | .tuple _ t =>
      σ.ended = false ∧ t.type = .regular ∧
        if c.iop then
          t.paneId = Tuple.paneOf c.paneLength t.appTs ∧ ∀ u ∈ σ.scheduled, u.appTs ≤ t.appTs
        else σ.nextPaneId ≤ t.paneId
  | .progress _ _ _ => σ.ended = false ∧ c.iop = false
  | .add ws => σ.ended = false ∧ ws.Nodup ∧ ∀ w ∈ ws, σ.activated w = false
  | .remove _ ws => σ.ended = false ∧ ws.Nodup ∧ (∀ w ∈ ws, σ.activated w = true) ∧
      ∃ w, w ∉ ws ∧ σ.activated w = true
  | .finish => σ.ended = false
  | .worker w => σ.net.queue w ≠ []

instance decidableEnabled (c : PlqParams) (σ : PlqState S R) :
    (e : PlqEvent S) → Decidable (σ.Enabled c e)
  | .tuple _ t => inferInstanceAs (Decidable (σ.ended = false ∧ t.type = .regular ∧
        if c.iop then
          t.paneId = Tuple.paneOf c.paneLength t.appTs ∧ ∀ u ∈ σ.scheduled, u.appTs ≤ t.appTs
        else σ.nextPaneId ≤ t.paneId))
  | .progress _ _ _ => inferInstanceAs (Decidable (σ.ended = false ∧ c.iop = false))
  | .add ws => inferInstanceAs
      (Decidable (σ.ended = false ∧ ws.Nodup ∧ ∀ w ∈ ws, σ.activated w = false))
  | .remove _ ws => inferInstanceAs (Decidable (σ.ended = false ∧ ws.Nodup ∧
      (∀ w ∈ ws, σ.activated w = true) ∧ ∃ w, w ∉ ws ∧ σ.activated w = true))
  | .finish => inferInstanceAs (Decidable (σ.ended = false))
  -- a worker may run when a message waits for it
  | .worker w =>
      match h : σ.net.queue w with
      | [] => isFalse fun hne => hne h
      | _ :: _ => isTrue fun hnil => List.cons_ne_nil _ _ (h.symm.trans hnil)

/-- **A delivery**: the worker takes the first message of its channel, if there is one. -/
theorem exec_worker {c : PlqParams} {σ σ' : PlqState S R} {w : Fin N}
    (h : σ.exec c (.worker w) = some σ') :
    (σ.net.queue w = [] ∧ σ' = σ) ∨
      ∃ m ms y, σ.net.queue w = m :: ms ∧
        feed (PlqWorker.svcOf c.iop c.wp c.sp) (σ.net.node w) m = some y ∧
        σ' = { σ with
          net := ⟨Function.update σ.net.node w y, Function.update σ.net.queue w ms⟩ } := by
  -- the worker takes the first message of its queue, or does nothing
  cases hq : σ.net.queue w with
  | nil =>
      simp only [exec, hq, Option.some.injEq] at h
      exact Or.inl ⟨rfl, h.symm⟩
  | cons m ms =>
      simp only [exec, hq] at h
      obtain ⟨y, hy, rfl⟩ := Option.map_eq_some_iff.mp h
      exact Or.inr ⟨m, ms, y, rfl, hy, rfl⟩

omit [PrefQuery (Row ℚ DIM) R] in
/-- After the end of the stream the workers empty their channels, and nothing else happens. -/
theorem Enabled.eq_worker {c : PlqParams} {σ : PlqState S R} {e : PlqEvent S} (he : σ.Enabled c e)
    (hend : σ.ended = true) : ∃ w, e = .worker w ∧ σ.net.queue w ≠ [] := by
  have hno : σ.ended ≠ false := by
    rw [hend]
    exact Bool.true_eq_false.mp
  cases e with
  | tuple env t => exact absurd he.1 hno
  | progress env ts pId => exact absurd he.1 hno
  | add ws => exact absurd he.1 hno
  | remove env ws => exact absurd he.1 hno
  | finish => exact absurd he hno
  | worker w => exact ⟨w, rfl, he⟩

/-- The state after a list of events, `none` if one of them aborts. -/
def run (c : PlqParams) : List (PlqEvent S) → PlqState S R → Option (PlqState S R)
  | [], σ => some σ
  | e :: es, σ => (σ.exec c e).bind (run c es)

/-- A run: every event may happen when it does, and satisfies `C`. -/
def Valid (c : PlqParams) (C : PlqState S R → PlqEvent S → Prop) :
    List (PlqEvent S) → PlqState S R → Prop
  | [], _ => True
  | e :: es, σ => σ.Enabled c e ∧ C σ e ∧
      match σ.exec c e with
      | none => True
      | some σ' => Valid c C es σ'

instance decidableValid (c : PlqParams) (C : PlqState S R → PlqEvent S → Prop)
    [∀ σ e, Decidable (C σ e)] :
    (es : List (PlqEvent S)) → (σ : PlqState S R) → Decidable (Valid c C es σ)
  | [], _ => isTrue trivial
  | e :: es, σ =>
      have : Decidable (match σ.exec c e with
          | none => True
          | some σ' => Valid c C es σ') :=
        match σ.exec c e with
        | none => isTrue trivial
        | some σ' => decidableValid c C es σ'
      inferInstanceAs (Decidable (_ ∧ _ ∧ _))

end PlqState

/-- **The count protocol for pane `p`**: `n ≥ 1` results sets have been emitted; each carries no
number of instances or the number `n`, and one carries `n`. -/
structure CountProtocol {R : Type} (out : Fin N → List (Rset R)) (p n : Nat) : Prop where
  pos : 1 ≤ n
  total : ∑ w, ((out w).filter fun r => r.id = p).length = n
  values : ∀ w, ∀ r ∈ out w, r.id = p → r.noInstances = 0 ∨ r.noInstances = n
  final : ∃ w, ∃ r ∈ out w, r.id = p ∧ r.noInstances = n

instance {R : Type} (out : Fin N → List (Rset R)) (p n : Nat) : Decidable (CountProtocol out p n) :=
  decidable_of_iff (1 ≤ n ∧ ∑ w, ((out w).filter fun r => r.id = p).length = n ∧
    (∀ w, ∀ r ∈ out w, r.id = p → r.noInstances = 0 ∨ r.noInstances = n) ∧
    ∃ w, ∃ r ∈ out w, r.id = p ∧ r.noInstances = n)
    ⟨fun h => ⟨h.1, h.2.1, h.2.2.1, h.2.2.2⟩, fun h => ⟨h.pos, h.total, h.values, h.final⟩⟩

end ElasticPPQ
