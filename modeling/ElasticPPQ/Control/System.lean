import ElasticPPQ.Control.Coherence
import ElasticPPQ.Wlq.Activation

/-! # The controller, its channels and the two emitters

The three of them know which workers each stage uses: the controller has the counters and the resource
pool, the emitters their vectors `activatedWorker`, and the reconfigurations are on their way for any
time. In every run until the PLQ emitter is terminated they agree: the counters are those of the pool,
an emitter lags behind the pool by the messages in flight (`Replica.Lags`), and none of the messages
is more than an emitter is able to process. -/

namespace ElasticPPQ

open FifoNet Replica

variable {N DIM : Nat} {R : Type}

/-! ## The PLQ emitter until it is terminated -/

namespace PlqState

variable {S : Strategy N DIM} {c : PlqParams} {Rf : S.Refinement} {σ σ' : PlqState S R}

/-- The event is not the end of the stream. -/
def Proceeds : PlqEvent S → Prop
  | .finish => False
  | _ => True

variable [PrefQuery (Row ℚ DIM) R]

/-- The invariant of either pipeline before the end of the stream. -/
structure Live (c : PlqParams) (Rf : S.Refinement) (σ : PlqState S R) : Prop where
  ended : σ.ended = false
  handled : c.iop = false → σ.Handled c Rf
  good : c.iop = true → σ.Good c Rf

/-- The first stage as constructed, with an activated worker. -/
theorem init_live (c : PlqParams) (Rf : S.Refinement) {nw : Nat} (hpos : 0 < nw) (hle : nw ≤ N) :
    (init S R nw).Live c Rf where
  ended := rfl
  handled := fun _ => init_handled c Rf hpos hle
  good := fun _ => init_good c Rf hpos hle

/-- The emitter finds what it needs. -/
theorem Live.ready (h : σ.Live c Rf) : σ.Ready c Rf := by
  cases hi : c.iop with
  | false => exact (h.handled hi).ready hi
  | true => exact (h.good hi).ready

/-- A delivery is no concern of the emitter. -/
theorem sched_exec_worker {w : Fin N} (hσ : σ.exec c (.worker w) = some σ') :
    σ'.sched = σ.sched ∧ σ'.ended = σ.ended := by
  rcases exec_worker hσ with ⟨-, rfl⟩ | ⟨m, ms, y, -, -, rfl⟩
  · exact ⟨rfl, rfl⟩
  · exact ⟨rfl, rfl⟩

/-- **No event aborts, and only reconfigurations change the activated workers.** -/
theorem Live.step (h : σ.Live c Rf) {e : PlqEvent S} (he : σ.Enabled c e) (hp : Proceeds e) :
    ∃ σ', σ.exec c e = some σ' ∧ σ'.Live c Rf ∧ σ'.activated = activatedAfter e σ.activated := by
  -- whatever the pipeline, the event succeeds and keeps its invariant
  have hkeep : ∃ σ', σ.exec c e = some σ' ∧ (c.iop = false → σ'.Handled c Rf) ∧
      (c.iop = true → σ'.Good c Rf) := by
    cases hi : c.iop with
    | false =>
        obtain ⟨σ', hσ', hh⟩ := (h.handled hi).step hi he
        exact ⟨σ', hσ', fun _ => hh, fun hi' => absurd hi' Bool.false_ne_true⟩
    | true =>
        obtain ⟨σ', hσ', hg, -⟩ := (h.good hi).stepIop hi he
        exact ⟨σ', hσ', fun hi' => absurd hi' Bool.true_eq_false.mp, fun _ => hg⟩
  obtain ⟨σ', hσ', hhandled, hgood⟩ := hkeep
  have hframe : σ'.ended = σ.ended ∧ σ'.activated = activatedAfter e σ.activated := by
    by_cases hcall : Calls e
    · obtain ⟨σ₁, hσ₁, hem⟩ := h.ready.emits hcall he fun hi => (h.good hi).tuple_le hi he
      rw [hσ'] at hσ₁
      cases hσ₁
      exact ⟨hem.ended, hem.activated⟩
    · cases e with
      | worker w =>
          obtain ⟨hsched, hended⟩ := sched_exec_worker hσ'
          refine ⟨hended, ?_⟩
          funext v
          rw [activated, hsched]
          rfl
      | finish => exact absurd hp id
      | _ => exact absurd trivial hcall
  exact ⟨σ', hσ', ⟨hframe.1.trans h.ended, hhandled, hgood⟩, hframe.2⟩

end PlqState

/-! ## The system -/

/-- The parameters of both stages. -/
structure ElasticParams where
  /-- The pane-level query. -/
  plq : PlqParams
  /-- The window-level query. -/
  wlq : WlqParams

/-- The state of the system. -/
structure ElasticState (S : Strategy N DIM) (R : Type) where
  /-- The controller. -/
  controller : Controller N
  /-- The channel to the PLQ emitter (`ch_plq`). -/
  chPlq : List (Reconf N)
  /-- The channel to the WLQ emitter (`ch_wlq`). -/
  chWlq : List (Reconf N)
  /-- The first stage. -/
  plq : PlqState S R
  /-- The second stage. -/
  wlq : WlqState N R

/-- What may happen next. -/
inductive ElasticEvent (S : Strategy N DIM) (R : Type)
  /-- A control step. -/
  | control (env : ControlEnv N)
  /-- The PLQ emitter receives a reconfiguration. -/
  | plqReconf (env : S.Env)
  /-- Something else happens in the first stage. -/
  | plq (e : PlqEvent S)
  /-- The WLQ emitter receives a reconfiguration. -/
  | wlqReconf
  /-- Something else happens in the second stage. -/
  | wlq (e : WlqEvent N R)

/-- What may abort. -/
inductive ElasticError
  /-- The controller. -/
  | controller
  /-- The first stage. -/
  | plq
  /-- The second stage. -/
  | wlq (x : WlqError)

namespace Reconf

/-- What the PLQ emitter does with a message, if it recognizes it. -/
def plqEvent {S : Strategy N DIM} (env : S.Env) (m : Reconf N) : Option (PlqEvent S) :=
  match m.type with
  | .add => some (.add m.wIds)
  | .remove => some (.remove env m.wIds)
  | .noreconf => none

/-- What the WLQ emitter does with a message, if it recognizes it. -/
def wlqEvent (m : Reconf N) : Option (WlqEvent N R) :=
  match m.type with
  | .add => some (.add m.wIds)
  | .remove => some (.remove m.wIds)
  | .noreconf => none

end Reconf

namespace ElasticState

variable {S : Strategy N DIM}

variable [PrefQuery (Row ℚ DIM) R]

/-- The system as constructed. -/
def init (S : Strategy N DIM) (R : Type) [PrefQuery (Row ℚ DIM) R] (nwPlq nwWlq : Nat) :
    ElasticState S R where
  controller := .new N nwPlq nwWlq
  chPlq := []
  chWlq := []
  plq := .init S R nwPlq
  wlq := .init N R nwWlq

/-- An event of the first stage; `ch` is what is left in the channel from the controller. -/
def execPlq (c : PlqParams) (σ : ElasticState S R) (ch : List (Reconf N)) (e : PlqEvent S) :
    Except ElasticError (ElasticState S R) :=
  match σ.plq.exec c e with
  | none => .error .plq
  | some plq => .ok { σ with chPlq := ch, plq := plq }

/-- An event of the second stage. -/
def execWlq (c : WlqParams) (σ : ElasticState S R) (ch : List (Reconf N)) (e : WlqEvent N R) :
    Except ElasticError (ElasticState S R) :=
  match σ.wlq.exec c e with
  | .error x => .error (.wlq x)
  | .ok wlq => .ok { σ with chWlq := ch, wlq := wlq }

/-- The effect of an event. -/
def exec (c : ElasticParams) (σ : ElasticState S R) :
    ElasticEvent S R → Except ElasticError (ElasticState S R)
  | .control env =>
      -- the end of the stream at the PLQ is what the controller sees as its termination
      match σ.controller.svc σ.plq.ended env with
      | none => .error .controller
      | some (controller, ms, ms') => .ok { σ with
          controller := controller
          chPlq := σ.chPlq ++ ms
          chWlq := σ.chWlq ++ ms' }
  | .plqReconf env =>
      -- `plqReconf` reads the oldest message of the channel from the controller, if there is one
      match σ.chPlq with
      | [] => .ok σ
      | m :: ms =>
          match m.plqEvent env with
          | none => .error .plq
          | some e => σ.execPlq c.plq ms e
  | .plq e => σ.execPlq c.plq σ.chPlq e
  | .wlqReconf =>
      match σ.chWlq with
      | [] => .ok σ
      | m :: ms =>
          match m.wlqEvent with
          | none => .error (.wlq .abort)
          | some e => σ.execWlq c.wlq ms e
  | .wlq e => σ.execWlq c.wlq σ.chWlq e

/-- The event is neither a reconfiguration nor the end of the stream. -/
def OrdinaryPlq : PlqEvent S → Prop
  | .tuple _ _ | .progress _ _ _ | .worker _ => True
  | .add _ | .remove _ _ | .finish => False

instance decidableOrdinaryPlq : (e : PlqEvent S) → Decidable (OrdinaryPlq e)
  | .tuple _ _ => isTrue trivial
  | .progress _ _ _ => isTrue trivial
  | .worker _ => isTrue trivial
  | .add _ => isFalse id
  | .remove _ _ => isFalse id
  | .finish => isFalse id

/-- When an event may happen: the engine varies a degree by half of it at most, and the stages work
on their own between the reconfigurations. Of the second stage it is only asked that a step of its
own has an effect. -/
def Enabled (c : ElasticParams) (σ : ElasticState S R) : ElasticEvent S R → Prop
  | .control env => (1 / 2 ≤ env.plqVar ∧ env.plqVar ≤ 3 / 2) ∧
      (1 / 2 ≤ env.wlqVar ∧ env.wlqVar ≤ 3 / 2)
  | .plqReconf _ => σ.chPlq ≠ []
  | .plq e => OrdinaryPlq e ∧ σ.plq.Enabled c.plq e
  | .wlqReconf => σ.chWlq ≠ []
  | .wlq e => WlqState.Ordinary e ∧ (σ.wlq.exec c.wlq e).isOk = true

instance decidableEnabled (c : ElasticParams) (σ : ElasticState S R) :
    (e : ElasticEvent S R) → Decidable (σ.Enabled c e)
  | .control env => inferInstanceAs (Decidable ((1 / 2 ≤ env.plqVar ∧ env.plqVar ≤ 3 / 2) ∧
      (1 / 2 ≤ env.wlqVar ∧ env.wlqVar ≤ 3 / 2)))
  | .plqReconf _ => decidable_of_iff (σ.chPlq.isEmpty = false) (by simp [Enabled])
  | .plq e =>
      have := PlqState.decidableEnabled c.plq σ.plq e
      inferInstanceAs (Decidable (OrdinaryPlq e ∧ σ.plq.Enabled c.plq e))
  | .wlqReconf => decidable_of_iff (σ.chWlq.isEmpty = false) (by simp [Enabled])
  | .wlq e => inferInstanceAs
      (Decidable (WlqState.Ordinary e ∧ (σ.wlq.exec c.wlq e).isOk = true))

/-- **Controller, resource pool and emitters agree**: the counters are the numbers of resources owned,
each stage has workers and there are enough resources, and with the messages in flight the emitters use
the workers that their stage owns. -/
structure Coherent (σ : ElasticState S R) : Prop where
  nwPlq : σ.controller.nwPlq = σ.controller.rPool.owned .plq
  nwWlq : σ.controller.nwWlq = σ.controller.rPool.owned .wlq
  plq_pos : 1 ≤ σ.controller.nwPlq
  wlq_pos : 1 ≤ σ.controller.nwWlq
  le : σ.controller.nwPlq + σ.controller.nwWlq ≤ N
  plqView : σ.chPlq.foldlM Reconf.handle σ.plq.activated = some (σ.controller.rPool.owns .plq)
  wlqView : σ.chWlq.foldlM Reconf.handle σ.wlq.emitter.activatedWorker =
    some (σ.controller.rPool.owns .wlq)

/-- **The invariant of the system.** -/
structure Inv (c : ElasticParams) (Rf : S.Refinement) (σ : ElasticState S R) : Prop where
  controller : σ.controller.Coherent
  plqLags : Lags Reconf.Applicable Reconf.apply σ.plq.activated σ.chPlq
    (σ.controller.rPool.owns .plq)
  wlqLags : Lags Reconf.Applicable Reconf.apply σ.wlq.emitter.activatedWorker σ.chWlq
    (σ.controller.rPool.owns .wlq)
  plq : σ.plq.Live c.plq Rf
  eosReceived : σ.wlq.emitter.eosReceived = 0

end ElasticState

end ElasticPPQ
