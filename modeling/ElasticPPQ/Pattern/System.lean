import ElasticPPQ.Lib.Run
import ElasticPPQ.Plq.System
import ElasticPPQ.Wlq.System

/-! # The pattern: the two stages one after the other

The class `PF` (`pane_farming.hpp`) puts the two stages into a pipeline. The first stage has no
collector: its workers send the results sets of the pane partitions to the emitter of the second stage
directly, each through a channel of its own, and the two farms have the same number of workers. The
windows leave the second stage through its collector. Every component takes its next message at any
moment. -/

namespace ElasticPPQ

variable {N DIM : Nat}

/-- The second stage of the pattern. -/
def PlqParams.wlq (c : PlqParams) : WlqParams := ⟨c.wp, c.sp⟩

/-- The state of the pattern. -/
structure PfState (S : Strategy N DIM) (R : Type) where
  /-- The first stage. -/
  plq : PlqState S R
  /-- The second stage. -/
  wlq : WlqState N R
  /-- How many of the results sets that a worker of the first stage has emitted the emitter of the
  second one has received. -/
  received : Fin N → Nat
  /-- The workers of the first stage of which it has received the end-of-stream message. -/
  eos : Finset (Fin N)
  /-- The windows as handed to the client. -/
  results : List (Rset R)

/-- What may happen next. -/
inductive PfEvent (S : Strategy N DIM) (R : Type)
  /-- An event of the first stage. -/
  | plq (e : PlqEvent S)
  /-- The emitter of the second stage receives the next results set of a worker of the first one. -/
  | arrive (w : Fin N)
  /-- It receives the end-of-stream message of a worker of the first stage. -/
  | eos (w : Fin N)
  /-- Any other event of the second stage. -/
  | wlq (e : WlqEvent N R)

/-- The event comes from within the second stage, or from its controller. -/
def WlqEvent.Inner {R : Type} : WlqEvent N R → Prop
  | .arrive _ => False
  | .eos => False
  | _ => True

instance WlqEvent.decidableInner {R : Type} : (e : WlqEvent N R) → Decidable e.Inner
  | .arrive _ | .eos => isFalse not_false
  | .exec _ | .feedback _ | .add _ | .remove _ | .collect _ => isTrue trivial

namespace PfState

variable {S : Strategy N DIM} {R : Type}

/-- The pattern as constructed, with `nwPlq` and `nwWlq` workers activated. -/
def init (S : Strategy N DIM) (R : Type) [PrefQuery (Row ℚ DIM) R] (nwPlq nwWlq : Nat) :
    PfState S R where
  plq := .init S R nwPlq
  wlq := .init N R nwWlq
  received := fun _ => 0
  eos := ∅
  results := []

/-- The state after a step of the second stage, which has come to `s`: the windows that have left it
are handed to the client. -/
def reached (σ : PfState S R) (s : WlqState N R) : PfState S R :=
  { σ with
    wlq := s
    results := σ.results ++ (s.client.drop σ.wlq.client.length).map s.mem.heap }

variable [PrefQuery (Row ℚ DIM) R]

/-- The effect of an event. -/
def exec (c : PlqParams) (σ : PfState S R) : PfEvent S R → Except WlqError (PfState S R)
  | .plq e =>
      match σ.plq.exec c e with
      | none => .error .abort
      | some s => .ok { σ with plq := s }
  | .arrive w =>
      match (σ.plq.emitted w)[σ.received w]? with
      | none => .ok σ
      | some r => (σ.wlq.exec c.wlq (.arrive r)).map fun s =>
          { σ.reached s with received := Function.update σ.received w (σ.received w + 1) }
  | .eos w => (σ.wlq.exec c.wlq .eos).map fun s => { σ.reached s with eos := insert w σ.eos }
  | .wlq e => (σ.wlq.exec c.wlq e).map σ.reached

omit [PrefQuery (Row ℚ DIM) R] in
/-- What may come next. The channels between the stages are FIFO: the end-of-stream message of a worker
comes after the end of the stream and after all that the worker has emitted. A removal leaves an activated
worker. -/
def Possible (c : PlqParams) (σ : PfState S R) : PfEvent S R → Prop
  | .plq e => σ.plq.Enabled c e
  | .arrive w => σ.received w < (σ.plq.emitted w).length
  | .eos w => w ∉ σ.eos ∧ σ.plq.ended = true ∧ σ.plq.net.queue w = [] ∧
      σ.received w = (σ.plq.emitted w).length
  | .wlq e => e.Inner ∧ σ.wlq.Possible 0 e ∧ σ.wlq.LeavesWorker e

omit [PrefQuery (Row ℚ DIM) R] in
instance decidablePossible (c : PlqParams) (σ : PfState S R) :
    (e : PfEvent S R) → Decidable (σ.Possible c e)
  | .plq e => PlqState.decidableEnabled c σ.plq e
  | .arrive w => inferInstanceAs (Decidable (σ.received w < (σ.plq.emitted w).length))
  | .eos w =>
      have : Decidable (σ.plq.net.queue w = []) := decidable_of_iff _ List.isEmpty_iff
      inferInstanceAs (Decidable (w ∉ σ.eos ∧ σ.plq.ended = true ∧ σ.plq.net.queue w = [] ∧
        σ.received w = (σ.plq.emitted w).length))
  | .wlq e => inferInstanceAs (Decidable (e.Inner ∧ σ.wlq.Possible 0 e ∧ σ.wlq.LeavesWorker e))

omit [PrefQuery (Row ℚ DIM) R] in
/-- When an event may happen. A run ends where a call of `svc` has come to its end without a `return`. -/
def Enabled (c : PlqParams) (σ : PfState S R) (e : PfEvent S R) : Prop :=
  σ.wlq.emitter.noReturn = false ∧ σ.Possible c e

omit [PrefQuery (Row ℚ DIM) R] in
instance decidableEnabled (c : PlqParams) (σ : PfState S R) (e : PfEvent S R) :
    Decidable (σ.Enabled c e) := inferInstanceAs (Decidable (_ ∧ _))

/-! ## The second stage in a run of the pattern -/

omit [PrefQuery (Row ℚ DIM) R] in
/-- What an event of the pattern is to the second stage. -/
def wlqEvent (σ : PfState S R) : PfEvent S R → Option (WlqEvent N R)
  | .plq _ => none
  | .arrive w => ((σ.plq.emitted w)[σ.received w]?).map .arrive
  | .eos _ => some .eos
  | .wlq e => some e

/-- The events of the second stage in a run. -/
def wlqEvents (c : PlqParams) : List (PfEvent S R) → PfState S R → List (WlqEvent N R)
  | [], _ => []
  | e :: es, σ => (σ.wlqEvent e).toList ++
      match σ.exec c e with
      | .error _ => []
      | .ok σ' => wlqEvents c es σ'

variable {c : PlqParams} {σ σ' : PfState S R} {e : PfEvent S R}

/-- An event of the first stage only. -/
theorem wlq_exec_of_none (h : σ.wlqEvent e = none) (hσ' : σ.exec c e = .ok σ') :
    σ'.wlq = σ.wlq := by
  -- an event of the first stage, or an arrival with nothing left to arrive
  cases e with
  | plq e =>
      simp only [exec] at hσ'
      split at hσ'
      · cases hσ'
      · cases hσ'
        rfl
  | arrive w =>
      have hget : (σ.plq.emitted w)[σ.received w]? = none := Option.map_eq_none_iff.mp h
      simp only [exec, hget, Except.ok.injEq] at hσ'
      rw [hσ']
  | eos w => cases h
  | wlq e => cases h

/-- An event that the second stage takes part in. -/
theorem wlq_exec_of_some {e' : WlqEvent N R} (h : σ.wlqEvent e = some e')
    (hσ' : σ.exec c e = .ok σ') : σ.wlq.exec c.wlq e' = .ok σ'.wlq := by
  -- the step of the pattern has succeeded, so the one of the WLQ has too
  have hmap : ∀ {x : Except WlqError (WlqState N R)} {f : WlqState N R → PfState S R},
      x.map f = .ok σ' → (∀ s, (f s).wlq = s) → x = .ok σ'.wlq := by
    intro x f hx hf
    cases x with
    | error err => cases hx
    | ok s =>
        cases hx
        rw [hf]
  cases e with
  | plq e => cases h
  | arrive w =>
      obtain ⟨r, hget, rfl⟩ := Option.map_eq_some_iff.mp h
      simp only [exec, hget] at hσ'
      exact hmap hσ' fun _ => rfl
  | eos w =>
      cases h
      exact hmap (f := fun s => { σ.reached s with eos := insert w σ.eos }) hσ' fun _ => rfl
  | wlq e =>
      cases h
      exact hmap hσ' fun _ => rfl

end PfState

end ElasticPPQ
