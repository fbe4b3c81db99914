import ElasticPPQ.Control.System

/-! # Controller, resource pool and emitters agree

One step lemma for each kind of event, and the run. A control step sends what it changes in the pool; a
reconfiguration received brings an emitter closer to the pool; nothing else changes the pool or the
activated workers. -/

namespace ElasticPPQ

open Replica

variable {N DIM : Nat} {R : Type}

namespace Reconf

/-- What a control step sends is added to the messages in flight. -/
theorem Informs.lags {o : Owner} {p p' : ResourcePool N} {ms ch : List (Reconf N)}
    {active : Fin N → Bool} (h : Informs o p ms p')
    (hl : Lags Applicable apply active ch (p.owns o)) :
    Lags Applicable apply active (ch ++ ms) (p'.owns o) := by
  cases h with
  | silent h =>
      rw [List.append_nil, h]
      exact hl
  | message m hm h =>
      rw [h]
      exact hl.send hm

/-- The PLQ emitter recognizes a message that it is able to process. -/
theorem Applicable.plqEvent {S : Strategy N DIM} {c : PlqParams} {σ : PlqState S R} {m : Reconf N}
    (h : m.Applicable σ.activated) (hend : σ.ended = false) (env : S.Env) :
    ∃ e, m.plqEvent env = some e ∧ σ.Enabled c e ∧ PlqState.Proceeds e ∧
      PlqState.activatedAfter e σ.activated = apply σ.activated m := by
  obtain ⟨ty, wIds⟩ := m
  cases ty with
  | add => exact ⟨.add wIds, rfl, ⟨hend, h.nodup, h.add rfl⟩, trivial, rfl⟩
  | remove =>
      obtain ⟨hactive, hleft⟩ := h.remove rfl
      exact ⟨.remove env wIds, rfl, ⟨hend, h.nodup, hactive, hleft⟩, trivial, rfl⟩
  | noreconf => exact absurd rfl h.type

/-- So does the WLQ emitter. -/
theorem Applicable.wlqEvent [PrefQuery (Row ℚ DIM) R] {c : WlqParams} {σ : WlqState N R}
    {m : Reconf N} (h : m.Applicable σ.emitter.activatedWorker) :
    ∃ e σ', m.wlqEvent = some e ∧ σ.exec c e = .ok σ' ∧
      σ'.emitter.activatedWorker = apply σ.emitter.activatedWorker m ∧
      σ'.emitter.eosReceived = σ.emitter.eosReceived := by
  obtain ⟨ty, wIds⟩ := m
  cases ty with
  -- no worker of the message is activated, so the assertion of `addWorkers` holds
  | add =>
      have hadd : σ.emitter.addWorkers wIds.length wIds = .ok { σ.emitter with
          nwWlq := σ.emitter.nwWlq + wIds.length
          activatedWorker := fun v => σ.emitter.activatedWorker v || decide (v ∈ wIds) } := by
        rw [WlqEmitter.addWorkers, Sched.activate_spec h.nodup (h.add rfl)]
      have hrun : σ.exec c (.add wIds) = .ok { σ with emitter := { σ.emitter with
          nwWlq := σ.emitter.nwWlq + wIds.length
          activatedWorker := fun v => σ.emitter.activatedWorker v || decide (v ∈ wIds) } } := by
        rw [WlqState.exec, hadd]
        rfl
      exact ⟨.add wIds, _, rfl, hrun, rfl, rfl⟩
  -- all of them are activated, so that of `removeWorkers` holds
  | remove =>
      have hremove : σ.emitter.removeWorkers wIds.length wIds = .ok { σ.emitter with
          nwWlq := σ.emitter.nwWlq - wIds.length
          activatedWorker := fun v => σ.emitter.activatedWorker v && !decide (v ∈ wIds) } := by
        rw [WlqEmitter.removeWorkers, Sched.deactivate_spec h.nodup (h.remove rfl).1]
      have hrun : σ.exec c (.remove wIds) = .ok { σ with emitter := { σ.emitter with
          nwWlq := σ.emitter.nwWlq - wIds.length
          activatedWorker := fun v => σ.emitter.activatedWorker v && !decide (v ∈ wIds) } } := by
        rw [WlqState.exec, hremove]
        rfl
      exact ⟨.remove wIds, _, rfl, hrun, rfl, rfl⟩
  | noreconf => exact absurd rfl h.type

end Reconf

namespace ElasticState

variable {S : Strategy N DIM} [PrefQuery (Row ℚ DIM) R] {c : ElasticParams} {Rf : S.Refinement}
  {σ : ElasticState S R}

/-- As constructed everybody agrees. -/
theorem inv_init (c : ElasticParams) (Rf : S.Refinement) {nwPlq nwWlq : Nat} (hplq : 1 ≤ nwPlq)
    (hwlq : 1 ≤ nwWlq) (hle : nwPlq + nwWlq ≤ N) : (init S R nwPlq nwWlq).Inv c Rf where
  controller := Controller.coherent_new hplq hwlq hle
  plqLags := by
    show (S.base (S.new nwPlq)).activatedWorker = _
    rw [Rf.base_new]
    exact (ResourcePool.owns_new_plq nwPlq nwWlq).symm
  wlqLags := (ResourcePool.owns_new_wlq hle).symm
  plq := PlqState.init_live c.plq Rf hplq (by omega)
  eosReceived := rfl

/-- The agreement that the invariant stands for. -/
theorem Inv.coherent (h : σ.Inv c Rf) : σ.Coherent where
  nwPlq := h.controller.nwPlq
  nwWlq := h.controller.nwWlq
  plq_pos := h.controller.plq_pos
  wlq_pos := h.controller.wlq_pos
  le := h.controller.le
  plqView := h.plqLags.foldlM fun _ _ hm => hm.handle
  wlqView := h.wlqLags.foldlM fun _ _ hm => hm.handle

/-- A control step. -/
theorem Inv.control (h : σ.Inv c Rf) (hN : 2 ≤ N) {env : ControlEnv N}
    (he : σ.Enabled c (.control env)) :
    ∃ σ', σ.exec c (.control env) = .ok σ' ∧ σ'.Inv c Rf := by
  obtain ⟨controller, ms, ms', hrun, hcoherent, hplq, hwlq⟩ := h.controller.svc hN he.1 he.2
  rw [← h.plq.ended] at hrun
  refine ⟨_, by rw [exec, hrun], ?_⟩
  exact {
    controller := hcoherent
    plqLags := hplq.lags h.plqLags
    wlqLags := hwlq.lags h.wlqLags
    plq := h.plq
    eosReceived := h.eosReceived }

/-- An event of the first stage, after which the PLQ emitter lags by the messages `ch`. -/
theorem Inv.execPlq (h : σ.Inv c Rf) {e : PlqEvent S} (he : σ.plq.Enabled c.plq e)
    (hp : PlqState.Proceeds e) {ch : List (Reconf N)}
    (hch : Lags Reconf.Applicable Reconf.apply (PlqState.activatedAfter e σ.plq.activated) ch
      (σ.controller.rPool.owns .plq)) :
    ∃ σ', σ.execPlq c.plq ch e = .ok σ' ∧ σ'.Inv c Rf := by
  obtain ⟨plq, hrun, hlive, hactive⟩ := h.plq.step he hp
  rw [← hactive] at hch
  refine ⟨{ σ with chPlq := ch, plq := plq }, by rw [ElasticState.execPlq, hrun], ?_⟩
  exact ⟨h.controller, hch, h.wlqLags, hlive, h.eosReceived⟩

/-- The PLQ emitter receives a reconfiguration. -/
theorem Inv.plqReconf (h : σ.Inv c Rf) {env : S.Env} (he : σ.Enabled c (.plqReconf env)) :
    ∃ σ', σ.exec c (.plqReconf env) = .ok σ' ∧ σ'.Inv c Rf := by
  have hlags := h.plqLags
  cases hch : σ.chPlq with
  | nil => exact absurd hch he
  | cons m ms =>
      rw [hch] at hlags
      obtain ⟨hm, hms⟩ := hlags.receive
      obtain ⟨e, hevent, hen, hp, hafter⟩ := hm.plqEvent (c := c.plq) h.plq.ended env
      obtain ⟨σ', hrun, hinv⟩ := h.execPlq hen hp (hafter ▸ hms)
      refine ⟨σ', ?_, hinv⟩
      simp only [exec, hch, hevent]
      exact hrun

/-- The first stage works. -/
theorem Inv.plqStep (h : σ.Inv c Rf) {e : PlqEvent S} (he : σ.Enabled c (.plq e)) :
    ∃ σ', σ.exec c (.plq e) = .ok σ' ∧ σ'.Inv c Rf := by
  obtain ⟨hord, hen⟩ := he
  -- an event of the stage itself leaves the activated workers alone
  have hkeep : PlqState.Proceeds e ∧
      PlqState.activatedAfter e σ.plq.activated = σ.plq.activated := by
    cases e with
    | tuple env t => exact ⟨trivial, rfl⟩
    | progress env ts pId => exact ⟨trivial, rfl⟩
    | worker w => exact ⟨trivial, rfl⟩
    | add ws => exact absurd hord id
    | remove env ws => exact absurd hord id
    | finish => exact absurd hord id
  apply h.execPlq hen hkeep.1
  rw [hkeep.2]
  exact h.plqLags

/-- The WLQ emitter receives a reconfiguration. -/
theorem Inv.wlqReconf (h : σ.Inv c Rf) (he : σ.Enabled c .wlqReconf) :
    ∃ σ', σ.exec c .wlqReconf = .ok σ' ∧ σ'.Inv c Rf := by
  have hlags := h.wlqLags
  cases hch : σ.chWlq with
  | nil => exact absurd hch he
  | cons m ms =>
      rw [hch] at hlags
      obtain ⟨hm, hms⟩ := hlags.receive
      obtain ⟨e, wlq, hevent, hrun, hactive, heos⟩ := hm.wlqEvent (c := c.wlq)
      rw [← hactive] at hms
      refine ⟨{ σ with chWlq := ms, wlq := wlq }, ?_, ?_⟩
      · simp only [exec, hch, hevent, execWlq, hrun]
      · exact ⟨h.controller, h.plqLags, hms, h.plq, heos.trans h.eosReceived⟩

/-- The second stage works. -/
theorem Inv.wlqStep (h : σ.Inv c Rf) (hN : 0 < N) {e : WlqEvent N R}
    (he : σ.Enabled c (.wlq e)) : ∃ σ', σ.exec c (.wlq e) = .ok σ' ∧ σ'.Inv c Rf := by
  obtain ⟨hord, hok⟩ := he
  have hrun := Run.eq_ok_result _ hok
  obtain ⟨wlq, hwlq⟩ : ∃ wlq, wlq = Run.result _ hok := ⟨_, rfl⟩
  rw [← hwlq] at hrun
  have hsame := WlqState.exec_same hord (by rw [h.eosReceived]; exact hN) hrun
  refine ⟨{ σ with wlq := wlq }, by simp only [exec, execWlq, hrun], ?_⟩
  refine ⟨h.controller, h.plqLags, ?_, h.plq, hsame.eosReceived.trans h.eosReceived⟩
  show Lags _ _ wlq.emitter.activatedWorker σ.chWlq _
  rw [hsame.activatedWorker]
  exact h.wlqLags

/-- **Every event keeps the agreement, and none aborts.** -/
theorem Inv.step (h : σ.Inv c Rf) (hN : 2 ≤ N) {e : ElasticEvent S R} (he : σ.Enabled c e) :
    ∃ σ', σ.exec c e = .ok σ' ∧ σ'.Inv c Rf := by
  cases e with
  | control env => exact h.control hN he
  | plqReconf env => exact h.plqReconf he
  | plq e => exact h.plqStep he
  | wlqReconf => exact h.wlqReconf he
  | wlq e => exact h.wlqStep (by omega) he

/-- No run of the system aborts, and each leads to a state in which everybody agrees. -/
def Agrees (S : Strategy N DIM) (R : Type) [PrefQuery (Row ℚ DIM) R] (c : ElasticParams)
    (nwPlq nwWlq : Nat) : Prop :=
  ∀ es, Run.Valid (exec c) (Enabled c) es (init S R nwPlq nwWlq) →
    ∃ σ, Run.run (exec c) es (init S R nwPlq nwWlq) = .ok σ ∧ σ.Coherent

end ElasticState

open ElasticState

/-- **Every strategy that refines the ledger keeps up with the controller.** -/
theorem Strategy.Refinement.agrees {S : Strategy N DIM} (Rf : S.Refinement)
    [PrefQuery (Row ℚ DIM) R] (c : ElasticParams) (hN : 2 ≤ N) {nwPlq nwWlq : Nat}
    (hplq : 1 ≤ nwPlq) (hwlq : 1 ≤ nwWlq) (hle : nwPlq + nwWlq ≤ N) :
    Agrees S R c nwPlq nwWlq := by
  intro es hes
  obtain ⟨σ, hrun, hinv⟩ := Run.Valid.induction (P := fun σ => σ.Inv c Rf)
    (fun σ e h he => h.step hN he) hes (inv_init c Rf hplq hwlq hle)
  exact ⟨σ, hrun, hinv.coherent⟩

/-- **Controller, resource pool and emitters stay coherent**, for each of the three strategies, with
out-of-order and with in-order workers. -/
theorem controller_coherent (R : Type) [PrefQuery (Row ℚ DIM) R] (c : ElasticParams) (hN : 2 ≤ N)
    {nwPlq nwWlq : Nat} (hplq : 1 ≤ nwPlq) (hwlq : 1 ≤ nwWlq) (hle : nwPlq + nwWlq ≤ N) :
    Agrees (PbRrSched.strategy N DIM) R c nwPlq nwWlq ∧
      Agrees (TbRrSched.strategy N DIM) R c nwPlq nwWlq ∧
      Agrees (AdaptiveSched.strategy N DIM) R c nwPlq nwWlq :=
  ⟨(PbRrSched.refinement N DIM).agrees c hN hplq hwlq hle,
    (TbRrSched.refinement N DIM).agrees c hN hplq hwlq hle,
    (AdaptiveSched.refinement N DIM).agrees c hN hplq hwlq hle⟩

/-- A control step with the given variations, all the queues being empty. -/
def stepOf (plqVar wlqVar : ℚ) : ElasticEvent (TbRrSched.strategy 4 1) (Build (Row ℚ 1)) :=
  .control ⟨plqVar, wlqVar, fun _ _ => 0, fun _ _ => 0⟩

/-- The WLQ gives up a worker that the PLQ acquires in the next step, before the messages are
received. -/
theorem controller_coherent_witness :
    ∃ σ, Run.run (exec ⟨oop 2 1 1, ⟨2, 1⟩⟩) [stepOf (3 / 2) (1 / 2), stepOf (3 / 2) 1,
        .plqReconf (), .plq (.tuple () (tupleOf 0)), stepOf (1 / 2) (3 / 2), .wlqReconf,
        .plqReconf ()]
        (init (TbRrSched.strategy 4 1) (Build (Row ℚ 1)) 1 2) = .ok σ ∧ σ.Coherent :=
  (controller_coherent (Build (Row ℚ 1)) ⟨oop 2 1 1, ⟨2, 1⟩⟩ (by decide) (by decide) (by decide)
    (by decide)).2.1 _ (by decide +kernel)

end ElasticPPQ
