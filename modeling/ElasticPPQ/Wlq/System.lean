import ElasticPPQ.Lib.Channels
import ElasticPPQ.Lib.Run
import ElasticPPQ.Wlq.Collector
import ElasticPPQ.Wlq.Worker

/-! # The window-level query stage: emitter, workers, collector and channels

The stage as a machine. Every component takes a message from one of its FIFO channels at any moment;
the results sets of the first stage, its end-of-stream messages and the reconfigurations of the
controller come at any moment too. What the first stage delivers over the whole run is fixed by a
plan: the pane identifiers of the results sets, each as often as it will have been delivered. -/

namespace ElasticPPQ

/-- The parameters of the stage. -/
structure WlqParams where
  /-- Panes per window. -/
  wp : Nat
  /-- Panes per slide. -/
  sp : Nat

/-- The state of the stage. -/
structure WlqState (N : Nat) (R : Type) where
  /-- The emitter. -/
  emitter : WlqEmitter N
  /-- The results sets. -/
  mem : WlqMemory R
  /-- The channels from the emitter to the workers. -/
  toWorker : Fin N → List WTask
  /-- The channels from the workers back to the emitter. -/
  toEmitter : Fin N → List WTask
  /-- The channels from the workers to the collector. -/
  toCollector : Fin N → List Addr
  /-- The collector. -/
  collector : WlqCollector Addr
  /-- The windows handed to the client so far. -/
  client : List Addr
  /-- The results sets delivered by the first stage so far; the `i`-th is at address `pane i`. -/
  delivered : List (Rset R)
  /-- The windows of which a finalizing task has been created, in that order. -/
  created : List Nat
  /-- The windows of which a finalizing task has been executed, in that order. -/
  executed : List Nat

/-- What may happen next. -/
inductive WlqEvent (N : Nat) (R : Type)
  /-- A results set arrives from the first stage. -/
  | arrive (r : Rset R)
  /-- A worker executes a task. -/
  | exec (w : Fin N)
  /-- The emitter receives the feedback of a worker. -/
  | feedback (w : Fin N)
  /-- An end-of-stream message arrives from the first stage. -/
  | eos
  /-- A reconfiguration `ADD`. -/
  | add (ws : List (Fin N))
  /-- A reconfiguration `REMOVE`. -/
  | remove (ws : List (Fin N))
  /-- The collector receives a window from a worker. -/
  | collect (w : Fin N)

namespace WlqState

open Channels

variable {N : Nat} {τ R : Type}

/-- The pane identifiers of the results sets delivered so far. -/
def deliveredIds (σ : WlqState N R) : List Nat := σ.delivered.map Rset.id

/-- The tasks in flight: sent to a worker, and not yet received back. -/
def inFlight (σ : WlqState N R) : Multiset WTask := contents σ.toWorker + contents σ.toEmitter

/-- The tasks in flight of window `k`. -/
def tasksOf (σ : WlqState N R) (k : Nat) : Multiset WTask :=
  σ.inFlight.filter fun t => t.winId = k

/-- The state after the emitter has sent tasks. -/
def sent (σ : WlqState N R) (x : WlqEmitter N × List (Fin N × WTask)) : WlqState N R :=
  { σ with
    emitter := x.1
    toWorker := pushAll σ.toWorker x.2
    created := σ.created ++ (x.2.filter fun p => p.2.finalize).map fun p => p.2.winId }

/-- The state after worker `w` has executed a task: the memory is `m'`, the task comes back as `t'`,
and `q` and `l` are what the collector gets to see. -/
def afterTask (σ : WlqState N R) (w : Fin N) (m' : WlqMemory R) (ts : List WTask) (t' : WTask)
    (q : Fin N → List Addr) (l : List Nat) : WlqState N R :=
  { σ with
    mem := m'
    toWorker := Function.update σ.toWorker w ts
    toEmitter := push σ.toEmitter w t'
    toCollector := q
    executed := l }

variable [PrefQuery τ R]

variable (N R) in
/-- The stage as constructed, with `nw` workers activated. -/
def init (nw : Nat) : WlqState N R where
  emitter := .new N nw
  mem := .new R
  toWorker := fun _ => []
  toEmitter := fun _ => []
  toCollector := fun _ => []
  collector := .new Addr
  client := []
  delivered := []
  created := []
  executed := []

/-- The effect of an event. -/
def exec (c : WlqParams) (σ : WlqState N R) : WlqEvent N R → Except WlqError (WlqState N R)
  | .arrive r =>
      let p := .pane σ.delivered.length
      let σ := { σ with mem := σ.mem.write p r, delivered := σ.delivered ++ [r] }
      (σ.emitter.arrive c.wp c.sp p r.id r.noInstances).map σ.sent
  | .exec w =>
      match σ.toWorker w with
      | [] => .ok σ
      | t :: ts => do
          let (mem, t') ← σ.mem.svc t
          let σ := { σ with
            mem := mem
            toWorker := Function.update σ.toWorker w ts
            toEmitter := push σ.toEmitter w t' }
          -- the last task of a window also hands it to the collector
          if t.type = .winUpdate ∧ t.finalize = true then
            .ok { σ with
              toCollector := push σ.toCollector w t'.p1
              executed := σ.executed ++ [t.winId] }
          else .ok σ
  | .feedback w =>
      match σ.toEmitter w with
      | [] => .ok σ
      | t :: ts =>
          let σ := { σ with toEmitter := Function.update σ.toEmitter w ts }
          (σ.emitter.feedback w t).map σ.sent
  | .eos => .ok { σ with emitter := σ.emitter.eosnotify }
  | .add ws => (σ.emitter.addWorkers ws.length ws).map fun s => { σ with emitter := s }
  | .remove ws => (σ.emitter.removeWorkers ws.length ws).map fun s => { σ with emitter := s }
  | .collect w =>
      match σ.toCollector w with
      | [] => .ok σ
      | a :: as =>
          (σ.collector.svc (σ.mem.heap a).id a).map fun x =>
            { σ with
              toCollector := Function.update σ.toCollector w as
              collector := x.1
              client := σ.client ++ x.2 }

/-- What an event does where it does not fail. -/
inductive Effect (c : WlqParams) (σ : WlqState N R) : WlqEvent N R → WlqState N R → Prop
  /-- There is nothing in the channel. -/
  | idle (e : WlqEvent N R) : Effect c σ e σ
  | arrive (r : Rset R) (x : WlqEmitter N × List (Fin N × WTask))
      (hx : σ.emitter.arrive c.wp c.sp (.pane σ.delivered.length) r.id r.noInstances = .ok x) :
      Effect c σ (.arrive r) (sent { σ with
        mem := σ.mem.write (.pane σ.delivered.length) r
        delivered := σ.delivered ++ [r] } x)
  | exec (w : Fin N) (t : WTask) (ts : List WTask) (m' : WlqMemory R) (t' : WTask)
      (q : Fin N → List Addr) (l : List Nat) (hq : σ.toWorker w = t :: ts)
      (hsvc : σ.mem.svc t = .ok (m', t'))
      (hout : (q, l) = if t.type = .winUpdate ∧ t.finalize = true then
        (push σ.toCollector w t'.p1, σ.executed ++ [t.winId]) else (σ.toCollector, σ.executed)) :
      Effect c σ (.exec w) (σ.afterTask w m' ts t' q l)
  | feedback (w : Fin N) (t : WTask) (ts : List WTask) (x : WlqEmitter N × List (Fin N × WTask))
      (hq : σ.toEmitter w = t :: ts) (hx : σ.emitter.feedback w t = .ok x) :
      Effect c σ (.feedback w)
        (sent { σ with toEmitter := Function.update σ.toEmitter w ts } x)
  | eos : Effect c σ .eos { σ with emitter := σ.emitter.eosnotify }
  | add (ws : List (Fin N)) (s : WlqEmitter N) (hs : σ.emitter.addWorkers ws.length ws = .ok s) :
      Effect c σ (.add ws) { σ with emitter := s }
  | remove (ws : List (Fin N)) (s : WlqEmitter N)
      (hs : σ.emitter.removeWorkers ws.length ws = .ok s) :
      Effect c σ (.remove ws) { σ with emitter := s }
  | collect (w : Fin N) (a : Addr) (as : List Addr) (x : WlqCollector Addr × List Addr)
      (hq : σ.toCollector w = a :: as) (hx : σ.collector.svc (σ.mem.heap a).id a = .ok x) :
      Effect c σ (.collect w) { σ with
        toCollector := Function.update σ.toCollector w as
        collector := x.1
        client := σ.client ++ x.2 }

/-- The effect of an event, by cases. -/
theorem effect_of_exec {c : WlqParams} {σ σ' : WlqState N R} {e : WlqEvent N R}
    (h : exec c σ e = .ok σ') : Effect c σ e σ' := by
  cases e with
  | arrive r =>
      obtain ⟨x, hx, rfl⟩ := Run.exists_of_map_eq_ok h
      exact .arrive r x hx
  | exec w =>
      cases hq : σ.toWorker w with
      | nil =>
          simp only [exec, hq, Except.ok.injEq] at h
          exact h ▸ .idle _
      | cons t ts =>
          simp only [exec, hq] at h
          obtain ⟨⟨m', t'⟩, hsvc, h⟩ := Run.exists_of_bind_eq_ok h
          dsimp only at h
          -- a window is handed to the collector with its last update
          by_cases hfin : t.type = .winUpdate ∧ t.finalize = true
          · rw [if_pos hfin] at h
            cases h
            exact .exec w t ts m' t' _ _ hq hsvc (if_pos hfin).symm
          · rw [if_neg hfin] at h
            cases h
            exact .exec w t ts m' t' _ _ hq hsvc (if_neg hfin).symm
  | feedback w =>
      cases hq : σ.toEmitter w with
      | nil =>
          simp only [exec, hq, Except.ok.injEq] at h
          exact h ▸ .idle _
      | cons t ts =>
          simp only [exec, hq] at h
          obtain ⟨x, hx, rfl⟩ := Run.exists_of_map_eq_ok h
          exact .feedback w t ts x hq hx
  | eos =>
      cases h
      exact .eos
  | add ws =>
      obtain ⟨s, hs, rfl⟩ := Run.exists_of_map_eq_ok h
      exact .add ws s hs
  | remove ws =>
      obtain ⟨s, hs, rfl⟩ := Run.exists_of_map_eq_ok h
      exact .remove ws s hs
  | collect w =>
      cases hq : σ.toCollector w with
      | nil =>
          simp only [exec, hq, Except.ok.injEq] at h
          exact h ▸ .idle _
      | cons a as =>
          simp only [exec, hq] at h
          obtain ⟨x, hx, rfl⟩ := Run.exists_of_map_eq_ok h
          exact .collect w a as x hq hx

omit [PrefQuery τ R] in
/-- What may come next. The results sets are delivered according to the plan and satisfy the count
protocol: each carries no number of instances or the one of its pane, and one of them carries that
number. The last end-of-stream message comes after all of them. Reconfigurations activate de-activated
workers, or de-activate activated ones. -/
def Possible (plan : Multiset Nat) (σ : WlqState N R) : WlqEvent N R → Prop
  | .arrive r =>
      σ.emitter.eosReceived < N ∧ σ.deliveredIds.count r.id < plan.count r.id ∧
        (r.noInstances = 0 ∨ r.noInstances = plan.count r.id) ∧
        (σ.deliveredIds.count r.id + 1 = plan.count r.id →
          ∃ r' ∈ r :: σ.delivered, r'.id = r.id ∧ r'.noInstances = plan.count r.id)
  | .exec w => σ.toWorker w ≠ []
  | .feedback w => σ.toEmitter w ≠ []
  | .eos => σ.emitter.eosReceived < N ∧
      (σ.emitter.eosReceived + 1 = N → (σ.deliveredIds : Multiset Nat) = plan)
  | .add ws => ws.Nodup ∧ ∀ w ∈ ws, σ.emitter.activatedWorker w = false
  | .remove ws => ws.Nodup ∧ ∀ w ∈ ws, σ.emitter.activatedWorker w = true
  | .collect w => σ.toCollector w ≠ []

omit [PrefQuery τ R] in
instance decidablePossible (plan : Multiset Nat) (σ : WlqState N R) :
    (e : WlqEvent N R) → Decidable (σ.Possible plan e)
  | .arrive r => inferInstanceAs (Decidable
      (σ.emitter.eosReceived < N ∧ σ.deliveredIds.count r.id < plan.count r.id ∧
        (r.noInstances = 0 ∨ r.noInstances = plan.count r.id) ∧
        (σ.deliveredIds.count r.id + 1 = plan.count r.id →
          ∃ r' ∈ r :: σ.delivered, r'.id = r.id ∧ r'.noInstances = plan.count r.id)))
  | .exec w => inferInstanceAs (Decidable (σ.toWorker w ≠ []))
  | .feedback w => inferInstanceAs (Decidable (σ.toEmitter w ≠ []))
  | .eos => inferInstanceAs (Decidable (σ.emitter.eosReceived < N ∧
      (σ.emitter.eosReceived + 1 = N → (σ.deliveredIds : Multiset Nat) = plan)))
  | .add ws => inferInstanceAs
      (Decidable (ws.Nodup ∧ ∀ w ∈ ws, σ.emitter.activatedWorker w = false))
  | .remove ws => inferInstanceAs
      (Decidable (ws.Nodup ∧ ∀ w ∈ ws, σ.emitter.activatedWorker w = true))
  | .collect w => inferInstanceAs (Decidable (σ.toCollector w ≠ []))

omit [PrefQuery τ R] in
/-- When an event may happen. A run ends where a call of `svc` has come to its end without a `return`:
nothing is known of what the program does next. -/
def Enabled (plan : Multiset Nat) (σ : WlqState N R) (e : WlqEvent N R) : Prop :=
  σ.emitter.noReturn = false ∧ σ.Possible plan e

omit [PrefQuery τ R] in
instance decidableEnabled (plan : Multiset Nat) (σ : WlqState N R) (e : WlqEvent N R) :
    Decidable (σ.Enabled plan e) := inferInstanceAs (Decidable (_ ∧ _))

omit [PrefQuery τ R] in
/-- A removal leaves an activated worker. -/
def LeavesWorker (σ : WlqState N R) : WlqEvent N R → Prop
  | .remove ws => ∃ w, w ∉ ws ∧ σ.emitter.activatedWorker w = true
  | _ => True

omit [PrefQuery τ R] in
instance decidableLeavesWorker (σ : WlqState N R) : (e : WlqEvent N R) → Decidable (σ.LeavesWorker e)
  | .remove ws => inferInstanceAs (Decidable (∃ w, w ∉ ws ∧ σ.emitter.activatedWorker w = true))
  | .arrive _ | .exec _ | .feedback _ | .eos | .add _ | .collect _ => isTrue trivial

end WlqState

end ElasticPPQ
