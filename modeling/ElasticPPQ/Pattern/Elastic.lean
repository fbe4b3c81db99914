import ElasticPPQ.Control.Shutdown
import ElasticPPQ.Pattern.OutOfOrderStream
import ElasticPPQ.Pattern.Termination

/-! # The elastic pattern

The controller beside the pattern with its emitter. The emitters receive the reconfigurations that the
controller has sent, one after the other, and the stages work in between; the controller goes on with the
second stage after the end of the stream. Whatever it decides, no message is more than an emitter is able
to process, until that emitter is terminated (`Elastic.Inv`). So a run with the controller is a run of the
pattern behind its emitter, if that one admits the reconfigurations (`Elastic.Fits.run`). -/

namespace ElasticPPQ

open PlqState Replica

variable {N DIM : Nat} {φ ψ : Type}

/-- The controller, the channels to the two emitters, and whether it knows that the PLQ emitter is
terminated. -/
structure Elastic (N : Nat) where
  controller : Controller N
  /-- The channel to the PLQ emitter (`ch_plq`). -/
  chPlq : List (Reconf N)
  /-- The channel to the WLQ emitter (`ch_wlq`). -/
  chWlq : List (Reconf N)
  plqTerminated : Bool

/-- What may happen to the pattern with its controller; the events of the pattern with its emitter are
those of `ψ`. -/
inductive ControlEvent (S : Strategy N DIM) (ψ : Type)
  /-- A control step. -/
  | control (env : ControlEnv N)
  /-- The PLQ emitter receives a reconfiguration. -/
  | plqReconf (env : S.Env)
  /-- The WLQ emitter receives a reconfiguration. -/
  | wlqReconf
  /-- The stages work. -/
  | work (e : ψ)

namespace PfEvent

variable {S : Strategy N DIM} {R : Type}

/-- The event is the end of the stream. -/
def ends : PfEvent S R → Bool
  | .plq .finish => true
  | _ => false

end PfEvent

namespace Elastic

variable {S : Strategy N DIM} {R : Type}

/-- As constructed. -/
def new (N nwPlq nwWlq : Nat) : Elastic N := ⟨.new N nwPlq nwWlq, [], [], false⟩

/-- A control step of `svc`. -/
def control (env : ControlEnv N) (x : Elastic N) : Option (Elastic N) :=
  (x.controller.svc x.plqTerminated env).map fun y =>
    { x with
      controller := y.1
      chPlq := x.chPlq ++ y.2.1
      chWlq := x.chWlq ++ y.2.2 }

/-- The PLQ emitter receives the next reconfiguration. -/
def plqReconf (R : Type) (env : S.Env) (x : Elastic N) : Option (Elastic N × List (PfEvent S R)) :=
  match x.chPlq with
  | [] => some (x, [])
  | m :: ms => (m.plqEvent env).map fun e => ({ x with chPlq := ms }, [.plq e])

/-- The WLQ emitter receives the next reconfiguration. -/
def wlqReconf (S : Strategy N DIM) (R : Type) (x : Elastic N) :
    Option (Elastic N × List (PfEvent S R)) :=
  match x.chWlq with
  | [] => some (x, [])
  | m :: ms => m.wlqEvent.map fun e => ({ x with chWlq := ms }, [.wlq e])

/-- The events `es` of the pattern have taken place. -/
def work (es : List (PfEvent S R)) (x : Elastic N) : Elastic N :=
  { x with plqTerminated := x.plqTerminated || es.any PfEvent.ends }

/-- The controller beside an emitter `front`, and what the two of them pass on. -/
def front (front : φ → ψ → Option (φ × List (PfEvent S R))) (x : Elastic N × φ) :
    ControlEvent S ψ → Option ((Elastic N × φ) × List (PfEvent S R))
  | .control env => (x.1.control env).map fun y => ((y, x.2), [])
  | .plqReconf env => (x.1.plqReconf R env).map fun y => ((y.1, x.2), y.2)
  | .wlqReconf => (x.1.wlqReconf S R).map fun y => ((y.1, x.2), y.2)
  | .work e => (front x.2 e).map fun y => ((x.1.work y.2, y.1), y.2)

/-- What may come next: the engine varies a degree by half of it at most, an emitter that is terminated
does not receive anything any more, and the stages work without reconfigurations. -/
def Possible (En : φ × PfState S R → ψ → Prop) (Works : ψ → Prop)
    (x : (Elastic N × φ) × PfState S R) : ControlEvent S ψ → Prop
  | .control env => (1 / 2 ≤ env.plqVar ∧ env.plqVar ≤ 3 / 2) ∧
      (1 / 2 ≤ env.wlqVar ∧ env.wlqVar ≤ 3 / 2)
  | .plqReconf _ => x.2.plq.ended = false ∧ x.1.1.chPlq ≠ []
  | .wlqReconf => x.2.wlq.emitter.wlqTerminated = false ∧ x.1.1.chWlq ≠ []
  | .work e => Works e ∧ En (x.1.2, x.2) e

instance decidablePossible (En : φ × PfState S R → ψ → Prop) [∀ x e, Decidable (En x e)]
    (Works : ψ → Prop) [∀ e, Decidable (Works e)] (x : (Elastic N × φ) × PfState S R) :
    (e : ControlEvent S ψ) → Decidable (Possible En Works x e)
  | .control env => inferInstanceAs (Decidable ((1 / 2 ≤ env.plqVar ∧ env.plqVar ≤ 3 / 2) ∧
      (1 / 2 ≤ env.wlqVar ∧ env.wlqVar ≤ 3 / 2)))
  | .plqReconf _ => decidable_of_iff (x.2.plq.ended = false ∧ x.1.1.chPlq.isEmpty = false)
      (by simp [Possible])
  | .wlqReconf => decidable_of_iff
      (x.2.wlq.emitter.wlqTerminated = false ∧ x.1.1.chWlq.isEmpty = false) (by simp [Possible])
  | .work e => inferInstanceAs (Decidable (Works e ∧ En (x.1.2, x.2) e))

/-- When an event may happen. -/
def Enabled (En : φ × PfState S R → ψ → Prop) (Works : ψ → Prop)
    (x : (Elastic N × φ) × PfState S R) (e : ControlEvent S ψ) : Prop :=
  x.2.wlq.emitter.noReturn = false ∧ Possible En Works x e

instance decidableEnabled (En : φ × PfState S R → ψ → Prop) [∀ x e, Decidable (En x e)]
    (Works : ψ → Prop) [∀ e, Decidable (Works e)] (x : (Elastic N × φ) × PfState S R)
    (e : ControlEvent S ψ) : Decidable (Enabled En Works x e) :=
  inferInstanceAs (Decidable (_ ∧ _))

variable [PrefQuery (Row ℚ DIM) R] {c : PlqParams} {Rf : S.Refinement} {x : Elastic N}
  {σ σ' : PfState S R}

/-- **The invariant of the controller and the pattern.** The counters are those of the pool; as long as an
emitter is not terminated, it lags behind the pool by the messages in flight, each of which it is able to
process. -/
structure Inv (c : PlqParams) (Rf : S.Refinement) (x : Elastic N) (σ : PfState S R) : Prop where
  terminated : x.plqTerminated = σ.plq.ended
  balanced : x.controller.Balanced
  plq : σ.plq.ended = false → σ.plq.Live c Rf ∧ x.controller.Coherent ∧
    Lags Reconf.Applicable Reconf.apply σ.plq.activated x.chPlq (x.controller.rPool.owns .plq)
  wlq : σ.wlq.emitter.wlqTerminated = false → Lags Reconf.Applicable Reconf.apply
    σ.wlq.emitter.activatedWorker x.chWlq (x.controller.rPool.owns .wlq)

/-- The controller and the pattern as constructed. -/
theorem inv_new (c : PlqParams) (Rf : S.Refinement) {nwPlq nwWlq : Nat} (hplq : 1 ≤ nwPlq)
    (hwlq : 1 ≤ nwWlq) (hle : nwPlq + nwWlq ≤ N) :
    Inv c Rf (new N nwPlq nwWlq) (PfState.init S R nwPlq nwWlq) where
  terminated := rfl
  balanced := (Controller.coherent_new hplq hwlq hle).balanced
  plq := by
    refine fun _ => ⟨init_live c Rf hplq (by omega), Controller.coherent_new hplq hwlq hle, ?_⟩
    show (S.base (S.new nwPlq)).activatedWorker = _
    rw [Rf.base_new]
    exact (ResourcePool.owns_new_plq nwPlq nwWlq).symm
  wlq := fun _ => (ResourcePool.owns_new_wlq hle).symm

/-- **A control step** does not abort, neither before nor after the end of the stream. -/
theorem Inv.control (h : x.Inv c Rf σ) (hN : 2 ≤ N) {env : ControlEnv N}
    (hp : 1 / 2 ≤ env.plqVar ∧ env.plqVar ≤ 3 / 2) (hw : 1 / 2 ≤ env.wlqVar ∧ env.wlqVar ≤ 3 / 2) :
    ∃ x', x.control env = some x' ∧ x'.Inv c Rf σ := by
  -- once the PLQ has terminated its degree is no longer kept coherent, only balanced
  cases hend : σ.plq.ended with
  | false =>
      obtain ⟨hlive, hcoherent, hlags⟩ := h.plq hend
      obtain ⟨y, ms, ms', hrun, hy, hplq, hwlq⟩ := hcoherent.svc hN hp hw
      rw [← hend, ← h.terminated] at hrun
      refine ⟨_, by rw [Elastic.control, hrun, Option.map_some], ?_⟩
      exact {
        terminated := h.terminated
        balanced := hy.balanced
        plq := fun _ => ⟨hlive, hy, hplq.lags hlags⟩
        wlq := fun hno => hwlq.lags (h.wlq hno) }
  | true =>
      obtain ⟨y, ms, ms', hrun, hy, -, hwlq⟩ := h.balanced.svc hN hp hw
      rw [← hend, ← h.terminated] at hrun
      refine ⟨_, by rw [Elastic.control, hrun, Option.map_some], ?_⟩
      exact {
        terminated := h.terminated
        balanced := hy
        plq := fun hno => absurd (hend.symm.trans hno) Bool.true_eq_false.mp
        wlq := fun hno => hwlq.lags (h.wlq hno) }

/-- **The PLQ emitter receives a reconfiguration**, which is an event of the pattern. -/
theorem Inv.plqReconf (h : x.Inv c Rf σ) (hret : σ.wlq.emitter.noReturn = false)
    (hend : σ.plq.ended = false) (hne : x.chPlq ≠ []) (env : S.Env) :
    ∃ x' e, x.plqReconf R env = some (x', [e]) ∧ e.Reconfigures ∧ σ.Enabled c e ∧
      ∀ σ', σ.exec c e = .ok σ' → x'.Inv c Rf σ' := by
  obtain ⟨hlive, hcoherent, hlags⟩ := h.plq hend
  -- the oldest message of the channel is the one the emitter reads
  cases hch : x.chPlq with
  | nil => exact absurd hch hne
  | cons m ms =>
      rw [hch] at hlags
      obtain ⟨hm, hms⟩ := hlags.receive
      obtain ⟨e, hevent, hen, hp, hafter⟩ := hm.plqEvent (c := c) hend env
      refine ⟨{ x with chPlq := ms }, .plq e, ?_, ?_, ⟨hret, hen⟩, fun σ' hσ' => ?_⟩
      · rw [Elastic.plqReconf, hch]
        show (m.plqEvent env).map _ = _
        rw [hevent, Option.map_some]
      · obtain ⟨ty, wIds⟩ := m
        -- the controller sends no NORECONF
        cases ty with
        | add => exact Option.some.inj hevent ▸ trivial
        | remove => exact Option.some.inj hevent ▸ trivial
        | noreconf => exact absurd rfl hm.type
      · obtain ⟨s, hs, hlive', hactive⟩ := hlive.step hen hp
        obtain rfl := Option.some.inj (hs.symm.trans (PfState.exec_plq hσ'))
        -- a message to the PLQ leaves the WLQ alone
        have hwlq : σ'.wlq = σ.wlq := PfState.wlq_exec_of_none (e := .plq e) rfl hσ'
        refine ⟨h.terminated.trans (hend.trans hlive'.ended.symm), h.balanced,
          fun _ => ⟨hlive', hcoherent, ?_⟩, fun hno => ?_⟩
        · rw [hactive, hafter]
          exact hms
        · rw [hwlq] at hno ⊢
          exact h.wlq hno

/-- **The WLQ emitter receives a reconfiguration**, which is an event of the pattern. -/
theorem Inv.wlqReconf (h : x.Inv c Rf σ) (hret : σ.wlq.emitter.noReturn = false)
    (hno : σ.wlq.emitter.wlqTerminated = false) (hne : x.chWlq ≠ []) :
    ∃ x' e, x.wlqReconf S R = some (x', [e]) ∧ e.Reconfigures ∧ σ.Enabled c e ∧
      ∀ σ', σ.exec c e = .ok σ' → x'.Inv c Rf σ' := by
  have hlags := h.wlq hno
  -- the oldest message of the channel is the one the emitter reads
  cases hch : x.chWlq with
  | nil => exact absurd hch hne
  | cons m ms =>
      rw [hch] at hlags
      obtain ⟨hm, hms⟩ := hlags.receive
      obtain ⟨e, s, hevent, hrun, hactive, -⟩ := hm.wlqEvent (c := c.wlq)
      have hkind : (PfEvent.wlq e : PfEvent S R).Reconfigures ∧ σ.Enabled c (.wlq e) := by
        obtain ⟨ty, wIds⟩ := m
        cases ty with
        | add =>
            obtain rfl := Option.some.inj hevent
            exact ⟨trivial, hret, trivial, ⟨hm.nodup, hm.add rfl⟩, trivial⟩
        | remove =>
            obtain rfl := Option.some.inj hevent
            obtain ⟨hactive, hleaves⟩ := hm.remove rfl
            exact ⟨trivial, hret, trivial, ⟨hm.nodup, hactive⟩, hleaves⟩
        | noreconf => exact absurd rfl hm.type
      refine ⟨{ x with chWlq := ms }, .wlq e, ?_, hkind.1, hkind.2, fun σ' hσ' => ?_⟩
      · rw [Elastic.wlqReconf, hch]
        show m.wlqEvent.map _ = _
        rw [hevent, Option.map_some]
      -- a message to the WLQ leaves the PLQ alone
      · have hplq : σ'.plq = σ.plq := PfState.exec_not_plq (fun e' he' => by cases he') hσ'
        have hwlq := PfState.wlq_exec_of_some (e := .wlq e) rfl hσ'
        obtain rfl := Except.ok.inj (hrun.symm.trans hwlq)
        refine ⟨by rw [hplq]; exact h.terminated, h.balanced, by rw [hplq]; exact h.plq, fun _ => ?_⟩
        rw [hactive]
        exact hms

/-- **An event of the stages** that is not a reconfiguration. -/
theorem Inv.workOne (h : x.Inv c Rf σ) {e : PfEvent S R} (he : σ.Enabled c e)
    (hno : ¬ e.Reconfigures) (hσ' : σ.exec c e = .ok σ') : (x.work [e]).Inv c Rf σ' := by
  -- an event beyond the PLQ ends nothing there, and keeps the workers while the WLQ runs
  have hsecond : (∀ e', e ≠ .plq e') → (∀ e', σ.wlqEvent e = some e' → WlqState.NoReconf e') →
      (x.work [e]).Inv c Rf σ' := by
    intro hne hwlq
    have hplq : σ'.plq = σ.plq := PfState.exec_not_plq hne hσ'
    have hends : e.ends = false := by
      cases e with
      | plq e' => exact absurd rfl (hne e')
      | _ => rfl
    refine ⟨?_, h.balanced, by rw [hplq]; exact h.plq, fun hterm => ?_⟩
    · show (x.plqTerminated || [e].any PfEvent.ends) = σ'.plq.ended
      rw [hplq, List.any_cons, hends, List.any_nil, Bool.or_false, Bool.or_false]
      exact h.terminated
    · cases hevent : σ.wlqEvent e with
      | none =>
          have hsame := PfState.wlq_exec_of_none hevent hσ'
          rw [hsame] at hterm ⊢
          exact h.wlq hterm
      | some e' =>
          have hrun := PfState.wlq_exec_of_some hevent hσ'
          obtain ⟨hterm₀, hactive⟩ := WlqState.exec_until (hwlq e' hevent) hrun hterm
          rw [hactive]
          exact h.wlq hterm₀
  cases e with
  | plq e =>
      have hrun := PfState.exec_plq hσ'
      have hended := (exec_log hrun).2
      have hwlq : σ'.wlq = σ.wlq := PfState.wlq_exec_of_none (e := .plq e) rfl hσ'
      refine ⟨?_, h.balanced, fun hend' => ?_, by rw [hwlq]; exact h.wlq⟩
      -- only `finish` ends the PLQ
      · show (x.plqTerminated || [PfEvent.plq e].any PfEvent.ends) = σ'.plq.ended
        rw [hended, h.terminated, List.any_cons, List.any_nil, Bool.or_false]
        cases e with
        | finish => exact Bool.or_true _
        | _ => exact Bool.or_false _
      · have hp : Proceeds e := by
          cases e with
          | finish => exact absurd (hended.symm.trans hend') Bool.true_eq_false.mp
          | _ => exact trivial
        have hend : σ.plq.ended = false := by
          cases e with
          | finish => exact absurd hp id
          | _ => exact hended.symm.trans hend'
        obtain ⟨hlive, hcoherent, hlags⟩ := h.plq hend
        obtain ⟨s, hs, hlive', hactive⟩ := hlive.step he.2 hp
        obtain rfl := Option.some.inj (hs.symm.trans hrun)
        refine ⟨hlive', hcoherent, ?_⟩
        -- activated workers change by reconfigurations only, which do not count as work
        rw [hactive]
        cases e with
        | add ws => exact absurd trivial hno
        | remove env ws => exact absurd trivial hno
        | finish => exact absurd hp id
        | _ => exact hlags
  | arrive w =>
      refine hsecond (fun e' he' => by cases he') fun e' he' => ?_
      obtain ⟨r, -, rfl⟩ := Option.map_eq_some_iff.mp he'
      exact trivial
  | eos w =>
      refine hsecond (fun e' he' => by cases he') fun e' he' => ?_
      obtain rfl := Option.some.inj he'
      exact trivial
  | wlq e =>
      refine hsecond (fun e' he' => by cases he') fun e' he' => ?_
      obtain rfl := Option.some.inj he'
      cases e with
      | add ws => exact absurd trivial hno
      | remove ws => exact absurd trivial hno
      | _ => exact trivial

/-- A run of the stages without reconfigurations. -/
theorem Inv.works (h : x.Inv c Rf σ) {es : List (PfEvent S R)}
    (hes : Run.Valid (PfState.exec c) (PfState.Enabled c) es σ) (hno : ∀ e ∈ es, ¬ e.Reconfigures)
    (hσ' : Run.run (PfState.exec c) es σ = .ok σ') : (x.work es).Inv c Rf σ' := by
  -- induction on the events of the pattern that one event of the stream stands for
  induction es generalizing x σ with
  | nil =>
      obtain rfl := Except.ok.inj hσ'
      show Inv c Rf { x with plqTerminated := x.plqTerminated || false } σ
      rw [Bool.or_false]
      exact h
  | cons e es ih =>
      obtain ⟨σ₁, hexec, hrun⟩ := Run.exists_of_run_cons hσ'
      obtain ⟨he, hrest⟩ := (Run.valid_cons hexec).mp hes
      have hone := h.workOne he (hno e List.mem_cons_self) hexec
      have hall := ih hone hrest (fun e' he' => hno e' (List.mem_cons_of_mem _ he')) hrun
      -- the end of the PLQ is seen in the first event or in the later ones
      have hsplit : (x.work [e]).work es = x.work (e :: es) := by
        simp only [Elastic.work, List.any_cons, List.any_nil, Bool.or_false, Bool.or_assoc]
      exact hsplit ▸ hall

/-! ## The controller beside an emitter -/

/-- The pattern with its emitter `front` admits the reconfigurations: it passes them on, keeps its
invariant `I`, and the other things that happen there are no reconfigurations. -/
structure Fits (c : PlqParams) (Ok : PfState S R → PfEvent S R → Prop)
    (front : φ → ψ → Option (φ × List (PfEvent S R))) (En : φ × PfState S R → ψ → Prop)
    (Works : ψ → Prop) (inner : PfEvent S R → ψ) (I : φ → PfState S R → Prop) : Prop where
  enabled : ∀ σ e, Ok σ e → σ.Enabled c e
  step : ∀ f σ e, I f σ → En (f, σ) e → ∃ f' es, front f e = some (f', es) ∧
    Run.Valid (PfState.exec c) Ok es σ ∧
      ∀ σ', Run.run (PfState.exec c) es σ = .ok σ' → I f' σ'
  works : ∀ f σ e f' es, I f σ → En (f, σ) e → Works e → front f e = some (f', es) →
    ∀ e' ∈ es, ¬ e'.Reconfigures
  passes : ∀ f e, front f (inner e) = some (f, [e])
  admits : ∀ f σ e, e.Reconfigures → σ.Enabled c e → En (f, σ) (inner e)

variable {Ok : PfState S R → PfEvent S R → Prop} {f : φ}
  {front : φ → ψ → Option (φ × List (PfEvent S R))} {En : φ × PfState S R → ψ → Prop}
  {Works : ψ → Prop} {inner : PfEvent S R → ψ} {I : φ → PfState S R → Prop}

/-- A reconfiguration keeps the invariant of the pattern and its emitter. -/
theorem Fits.reconf (h : Fits c Ok front En Works inner I) (hI : I f σ) {e : PfEvent S R}
    (he : e.Reconfigures) (hen : σ.Enabled c e) :
    Run.Valid (PfState.exec c) Ok [e] σ ∧
      ∀ σ', Run.run (PfState.exec c) [e] σ = .ok σ' → I f σ' := by
  obtain ⟨f', es, hfront, hvalid, hkeep⟩ := h.step f σ (inner e) hI (h.admits f σ e he hen)
  obtain ⟨rfl, rfl⟩ := Prod.mk.inj (Option.some.inj ((h.passes f e).symm.trans hfront))
  exact ⟨hvalid, hkeep⟩

/-- **An event of the whole** is a run of the pattern, and keeps both invariants. -/
theorem Fits.both (h : Fits c Ok front En Works inner I) (hN : 2 ≤ N) (hI : I f σ)
    (hx : x.Inv c Rf σ) {e : ControlEvent S ψ} (he : Enabled En Works ((x, f), σ) e) :
    ∃ x' f' es, Elastic.front front (x, f) e = some ((x', f'), es) ∧
      Run.Valid (PfState.exec c) Ok es σ ∧
      ∀ σ', Run.run (PfState.exec c) es σ = .ok σ' → I f' σ' ∧ x'.Inv c Rf σ' := by
  obtain ⟨hret, he⟩ := he
  -- the controller's own step leads the pattern nowhere, a message or a stream event does
  cases e with
  | control env =>
      obtain ⟨x', hcontrol, hx'⟩ := hx.control hN he.1 he.2
      refine ⟨x', f, [], by rw [Elastic.front, hcontrol, Option.map_some], trivial, fun σ' hσ' => ?_⟩
      obtain rfl := Except.ok.inj hσ'
      exact ⟨hI, hx'⟩
  | plqReconf env =>
      obtain ⟨x', e, hreceive, hre, hen, hx'⟩ := hx.plqReconf hret he.1 he.2 env
      obtain ⟨hvalid, hkeep⟩ := h.reconf hI hre hen
      refine ⟨x', f, [e], by rw [Elastic.front, hreceive, Option.map_some], hvalid, fun σ' hσ' => ?_⟩
      exact ⟨hkeep σ' hσ', hx' σ' (Run.exec_of_run hσ')⟩
  | wlqReconf =>
      obtain ⟨x', e, hreceive, hre, hen, hx'⟩ := hx.wlqReconf (c := c) hret he.1 he.2
      obtain ⟨hvalid, hkeep⟩ := h.reconf hI hre hen
      refine ⟨x', f, [e], by rw [Elastic.front, hreceive, Option.map_some], hvalid, fun σ' hσ' => ?_⟩
      exact ⟨hkeep σ' hσ', hx' σ' (Run.exec_of_run hσ')⟩
  | work e =>
      obtain ⟨hworks, hen⟩ := he
      obtain ⟨f', es, hfront, hvalid, hkeep⟩ := h.step f σ e hI hen
      have hno := h.works f σ e f' es hI hen hworks hfront
      refine ⟨x.work es, f', es, by rw [Elastic.front, hfront, Option.map_some], hvalid,
        fun σ' hσ' => ?_⟩
      exact ⟨hkeep σ' hσ', hx.works (hvalid.mono h.enabled) hno hσ'⟩

/-- **Controller, resource pool and emitters agree** until the emitters are terminated: the counters are
the numbers of resources owned, the stages have workers, and with the messages in flight an emitter uses
the workers that its stage owns. -/
structure Coherent (x : Elastic N) (σ : PfState S R) : Prop where
  nwPlq : x.controller.nwPlq = x.controller.rPool.owned .plq
  nwWlq : x.controller.nwWlq = x.controller.rPool.owned .wlq
  wlq_pos : 1 ≤ x.controller.nwWlq
  le : x.controller.nwPlq + x.controller.nwWlq ≤ N
  plqView : σ.plq.ended = false → 1 ≤ x.controller.nwPlq ∧
    x.chPlq.foldlM Reconf.handle σ.plq.activated = some (x.controller.rPool.owns .plq)
  wlqView : σ.wlq.emitter.wlqTerminated = false →
    x.chWlq.foldlM Reconf.handle σ.wlq.emitter.activatedWorker = some (x.controller.rPool.owns .wlq)

/-- The agreement that the invariant stands for. -/
theorem Inv.coherent (h : x.Inv c Rf σ) : x.Coherent σ where
  nwPlq := h.balanced.nwPlq
  nwWlq := h.balanced.nwWlq
  wlq_pos := h.balanced.wlq_pos
  le := h.balanced.le
  plqView := by
    intro hend
    obtain ⟨-, hcoherent, hlags⟩ := h.plq hend
    exact ⟨hcoherent.plq_pos, hlags.foldlM fun _ _ hm => hm.handle⟩
  wlqView := fun hno => (h.wlq hno).foldlM fun _ _ hm => hm.handle

/-- The controller, the emitter `front`, and the pattern. -/
def exec (c : PlqParams) (front : φ → ψ → Option (φ × List (PfEvent S R))) :
    (Elastic N × φ) × PfState S R → ControlEvent S ψ →
      Except WlqError ((Elastic N × φ) × PfState S R) :=
  Run.drive (Elastic.front front) (PfState.exec c) .abort

/-- **No run with the controller aborts**: it is a run of the pattern with its emitter, in which everybody
agrees. -/
theorem Fits.run (h : Fits c Ok front En Works inner I) (hN : 2 ≤ N) {nwPlq nwWlq : Nat}
    (hplq : 1 ≤ nwPlq) (hwlq : 1 ≤ nwWlq) (hle : nwPlq + nwWlq ≤ N) (Rf : S.Refinement)
    (safe : ∀ es, Run.Valid (PfState.exec c) Ok es (PfState.init S R nwPlq nwWlq) →
      ∃ σ, Run.run (PfState.exec c) es (PfState.init S R nwPlq nwWlq) = .ok σ)
    (hI : I f (PfState.init S R nwPlq nwWlq)) {events : List (ControlEvent S ψ)}
    (hevents : Run.Valid (exec c front) (Enabled En Works) events
      ((new N nwPlq nwWlq, f), PfState.init S R nwPlq nwWlq)) :
    ∃ x f' σ, Run.run (exec c front) events
        ((new N nwPlq nwWlq, f), PfState.init S R nwPlq nwWlq) = .ok ((x, f'), σ) ∧
      Run.Reached (PfState.exec c) Ok (PfState.init S R nwPlq nwWlq) σ ∧ x.Coherent σ ∧ I f' σ := by
  -- the controller drives the front and the front the pattern: the two invariants go together
  obtain ⟨⟨x, f'⟩, σ, hrun, hreached, hI', hx⟩ := hevents.drive
    (I := fun y σ => I y.2 σ ∧ y.1.Inv c Rf σ) safe (by
      rintro ⟨x, f⟩ σ e ⟨hI, hx⟩ he
      obtain ⟨x', f', es, hfront, hvalid, hkeep⟩ := h.both hN hI hx he
      exact ⟨(x', f'), es, hfront, hvalid, hkeep⟩)
    ⟨hI, inv_new c Rf hplq hwlq hle⟩
  exact ⟨x, f', σ, hrun, hreached, hx.coherent, hI'⟩

end Elastic

end ElasticPPQ
