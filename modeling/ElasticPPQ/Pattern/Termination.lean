import ElasticPPQ.Lib.Inevitable
import ElasticPPQ.Pattern.InOrderStream
import ElasticPPQ.Pattern.OutOfOrder
import ElasticPPQ.Wlq.Termination
import Mathlib.Data.Prod.Lex

/-! # The pattern comes to its end

After the end of the stream every message that a component takes from a channel brings the pattern closer
to its end (`PfState.left`), and as long as it has not terminated there is a message to take: only results
sets left pending, by a worker that has been removed, may keep it from its termination
(`PfState.Stuck`). Where the last feedback comes after the last end-of-stream message, the emitter of the
second stage broadcasts the end of the stream in a call of `svc` that has no `return`
(`PfState.Unreturned`). -/

namespace ElasticPPQ

open Channels FifoNet PlqState

variable {N DIM : Nat}

namespace PfEvent

variable {S : Strategy N DIM} {R : Type}

/-- The event is a reconfiguration. -/
def Reconfigures : PfEvent S R → Prop
  | .plq (.add _) | .plq (.remove _ _) | .wlq (.add _) | .wlq (.remove _) => True
  | _ => False

instance decidableReconfigures : (e : PfEvent S R) → Decidable e.Reconfigures
  | .plq (.add _) | .plq (.remove _ _) | .wlq (.add _) | .wlq (.remove _) => isTrue trivial
  | .plq (.tuple _ _) | .plq (.progress _ _ _) | .plq .finish | .plq (.worker _) | .arrive _ | .eos _
  | .wlq (.arrive _) | .wlq .eos | .wlq (.exec _) | .wlq (.feedback _) | .wlq (.collect _) =>
      isFalse not_false

/-- The event removes workers of the second stage. -/
def Retires : PfEvent S R → Prop
  | .wlq e => WlqState.Retires e
  | _ => False

/-- A removal is a reconfiguration. -/
theorem Retires.reconfigures {e : PfEvent S R} (h : e.Retires) : e.Reconfigures := by
  cases e with
  | wlq e =>
      cases e with
      | remove ws => exact trivial
      | _ => exact h.elim
  | _ => exact h.elim

end PfEvent

namespace PfState

variable {S : Strategy N DIM} {R : Type}

/-- A component takes a message, or a tuple comes: anything but a reconfiguration. -/
def Productive (c : PlqParams) (σ : PfState S R) (e : PfEvent S R) : Prop :=
  σ.Enabled c e ∧ ¬ e.Reconfigures

/-- Results sets are left pending: all the end-of-stream messages have come and no task is in flight, the
feedback of which would have them scheduled. -/
def Stuck (σ : PfState S R) : Prop :=
  σ.wlq.emitter.eosReceived = N ∧ σ.wlq.inFlight = 0 ∧ σ.wlq.emitter.nPendingtasks ≠ 0

/-- The emitter of the second stage has broadcast the end of the stream in a call of `svc` that has come to
its end without a `return`: all the windows have been computed, and nothing is known of what the program
does next. -/
structure Unreturned (σ : PfState S R) : Prop where
  noReturn : σ.wlq.emitter.noReturn = true
  terminated : σ.wlq.emitter.wlqTerminated = true
  nPendingtasks : σ.wlq.emitter.nPendingtasks = 0
  inFlight : σ.wlq.inFlight = 0

/-- The results sets and end-of-stream messages on their way between the stages. -/
def onTheWay (σ : PfState S R) : Nat :=
  ∑ w, ((σ.plq.emitted w).length - σ.received w) + (N - σ.eos.card)

/-- What is left of the stream after its end: the messages of the first stage, those on their way, and the
work of the second stage. -/
def left (σ : PfState S R) : Nat ×ₗ Nat ×ₗ Nat :=
  toLex ((contents σ.plq.net.queue).card, toLex (σ.onTheWay, σ.wlq.work))

variable [PrefQuery (Row ℚ DIM) R] {c : PlqParams} {C : S.State → PlqEvent S → Prop}
  {T : PlqState S (Build (Row ℚ DIM)) → Prop} {σ σ' : PfState S R} {e : PfEvent S R}

/-- A worker of the first stage takes a message. -/
theorem left_worker {w : Fin N} (hq : σ.plq.net.queue w ≠ [])
    (h : σ.exec c (.plq (.worker w)) = .ok σ') : σ'.left < σ.left := by
  rcases exec_worker (exec_plq h) with ⟨hnil, -⟩ | ⟨m, ms, y, hcons, -, hplq⟩
  · exact absurd hnil hq
  · have hpop := congrArg Multiset.card (contents_pop hcons)
    rw [Multiset.card_add, Multiset.card_singleton] at hpop
    refine Prod.Lex.toLex_lt_toLex.mpr (Or.inl ?_)
    rw [hplq]
    show (contents (Function.update σ.plq.net.queue w ms)).card < _
    omega

omit [PrefQuery (Row ℚ DIM) R] in
/-- A results set or an end-of-stream message passes from the first stage to the second one. -/
theorem left_pass (hplq : σ'.plq = σ.plq) (h : σ'.onTheWay < σ.onTheWay) : σ'.left < σ.left := by
  refine Prod.Lex.toLex_lt_toLex.mpr (Or.inr ⟨by rw [hplq], ?_⟩)
  exact Prod.Lex.toLex_lt_toLex.mpr (Or.inl h)

omit [PrefQuery (Row ℚ DIM) R] in
/-- The second stage works. -/
theorem left_wlq (hplq : σ'.plq = σ.plq) (hway : σ'.onTheWay = σ.onTheWay)
    (h : σ'.wlq.work < σ.wlq.work) : σ'.left < σ.left := by
  refine Prod.Lex.toLex_lt_toLex.mpr (Or.inr ⟨by rw [hplq], ?_⟩)
  exact Prod.Lex.toLex_lt_toLex.mpr (Or.inr ⟨hway, h⟩)

/-- The next results set of a worker arrives. -/
theorem left_arrive {w : Fin N} (hlt : σ.received w < (σ.plq.emitted w).length)
    (h : σ.exec c (.arrive w) = .ok σ') : σ'.left < σ.left := by
  simp only [exec, List.getElem?_eq_getElem hlt] at h
  obtain ⟨s, -, rfl⟩ := Run.exists_of_map_eq_ok h
  refine left_pass rfl (Nat.add_lt_add_right ?_ _)
  -- one results set less is on its way to the WLQ
  refine Finset.sum_lt_sum (fun v _ => ?_) ⟨w, Finset.mem_univ w, ?_⟩
  · by_cases hv : v = w
    · subst hv
      show _ - Function.update σ.received v (σ.received v + 1) v ≤ _
      rw [Function.update_self]
      exact Nat.sub_le_sub_left (Nat.le_succ _) _
    · show _ - Function.update σ.received w (σ.received w + 1) v ≤ _
      rw [Function.update_of_ne hv]
      exact le_rfl
  · show (σ.plq.emitted w).length - Function.update σ.received w (σ.received w + 1) w < _
    rw [Function.update_self]
    omega

/-- The end-of-stream message of a worker arrives. -/
theorem left_eos {w : Fin N} (hw : w ∉ σ.eos) (h : σ.exec c (.eos w) = .ok σ') :
    σ'.left < σ.left := by
  simp only [exec] at h
  obtain ⟨s, -, rfl⟩ := Run.exists_of_map_eq_ok h
  refine left_pass rfl (Nat.add_lt_add_left ?_ _)
  have hcard := Finset.card_insert_of_notMem hw
  have hle := (insert w σ.eos).card_le_univ
  rw [Fintype.card_fin] at hle
  show N - (insert w σ.eos).card < N - σ.eos.card
  omega

/-- **After the end of the stream every event leaves less to do.** -/
theorem left_lt {plan : Multiset Nat} (hinv : σ.wlq.Inv c.wlq plan) (hend : σ.plq.ended = true)
    (he : σ.Productive c e) (h : σ.exec c e = .ok σ') : σ'.left < σ.left := by
  obtain ⟨⟨-, hen⟩, hno⟩ := he
  -- after END the first stage only works its queues off
  cases e with
  | plq e =>
      obtain ⟨w, rfl, hq⟩ := PlqState.Enabled.eq_worker hen hend
      exact left_worker hq h
  | arrive w => exact left_arrive hen h
  | eos w => exact left_eos hen.1 h
  | wlq e =>
      have hrun := wlq_exec_of_some (e := .wlq e) rfl h
      simp only [exec] at h
      obtain ⟨s, -, rfl⟩ := Run.exists_of_map_eq_ok h
      obtain ⟨hin, hen, -⟩ := hen
      -- each inner step of the WLQ consumes a message or a task
      cases e with
      | exec w => exact left_wlq rfl rfl (WlqState.work_exec hen hrun)
      | feedback w => exact left_wlq rfl rfl (hinv.work_feedback hen hrun)
      | collect w => exact left_wlq rfl rfl (WlqState.work_collect hen hrun)
      | add ws => exact absurd trivial hno
      | remove ws => exact absurd trivial hno
      | arrive r => exact hin.elim
      | eos => exact hin.elim

/-! ## There is a message to take -/

/-- **As long as the pattern has not terminated there is a message to take**, unless it is stuck. -/
theorem KeptBy.progress {β : PlqState S (Build (Row ℚ DIM))} {D : List (Rset (Build (Row ℚ DIM)))}
    (h : KeptBy c C T σ β D) (hret : σ.wlq.emitter.noReturn = false) (hend : σ.plq.ended = true)
    (hterm : σ.wlq.emitter.eosReceived = N → σ.wlq.inFlight = 0 →
      σ.wlq.emitter.nPendingtasks = 0 → σ.wlq.emitter.wlqTerminated = true)
    (hno : ¬ σ.Terminated) : (∃ e, σ.Productive c e) ∨ σ.Stuck := by
  by_contra hnone
  obtain ⟨hevent, hstuck⟩ := not_or.mp hnone
  have hdisabled : ∀ e : PfEvent S R, ¬ e.Reconfigures → ¬ σ.Possible c e :=
    fun e hre he => hevent ⟨e, ⟨hret, he⟩, hre⟩
  -- the first stage has nothing left, and all that it has emitted has been received
  have hdrained : ∀ w, σ.plq.net.queue w = [] := fun w =>
    not_not.mp (hdisabled (.plq (.worker w)) id)
  have hreceived : ∀ w, σ.received w = (σ.plq.emitted w).length := by
    intro w
    have hge : ¬ σ.received w < (σ.plq.emitted w).length := hdisabled (.arrive w) id
    have hle := h.transferred.le w
    rw [h.plq, emitted_eval, List.length_map] at hge ⊢
    omega
  have heos : ∀ w, w ∈ σ.eos := fun w =>
    not_not.mp fun hw => hdisabled (.eos w) id ⟨hw, hend, hdrained w, hreceived w⟩
  have hall : σ.wlq.emitter.eosReceived = N := by
    rw [h.eosReceived, Finset.eq_univ_of_forall heos, Finset.card_univ, Fintype.card_fin]
  -- so has the second one
  have hempty : ∀ w, σ.wlq.toWorker w = [] ∧ σ.wlq.toEmitter w = [] ∧ σ.wlq.toCollector w = [] :=
    fun w => ⟨not_not.mp fun hq => hdisabled (.wlq (.exec w)) id ⟨trivial, hq, trivial⟩,
      not_not.mp fun hq => hdisabled (.wlq (.feedback w)) id ⟨trivial, hq, trivial⟩,
      not_not.mp fun hq => hdisabled (.wlq (.collect w)) id ⟨trivial, hq, trivial⟩⟩
  have hflight : σ.wlq.inFlight = 0 := by
    rw [Multiset.eq_zero_iff_forall_notMem]
    intro t ht
    rcases Multiset.mem_add.mp ht with ht | ht
    · obtain ⟨w, hw⟩ := mem_contents.mp ht
      exact absurd hw ((hempty w).1 ▸ List.not_mem_nil)
    · obtain ⟨w, hw⟩ := mem_contents.mp ht
      exact absurd hw ((hempty w).2.1 ▸ List.not_mem_nil)
  by_cases hpend : σ.wlq.emitter.nPendingtasks = 0
  · exact hno ⟨hterm hall hflight hpend, fun w => (hempty w).2.2⟩
  · exact hstuck ⟨hall, hflight, hpend⟩

/-! ## No worker of the second stage is removed -/

/-- The removals of the second stage are events of the pattern. -/
theorem not_retires_wlqEvents {es : List (PfEvent S R)} (hno : ∀ e ∈ es, ¬ e.Retires)
    {σ : PfState S R} : ∀ e ∈ wlqEvents c es σ, ¬ WlqState.Retires e := by
  induction es generalizing σ with
  | nil => exact fun e he => absurd he List.not_mem_nil
  | cons e es ih =>
      intro e' he'
      -- the event of the WLQ comes from this event, or from a later one
      rcases List.mem_append.mp he' with he' | he'
      · have hev : σ.wlqEvent e = some e' := Option.mem_toList.mp he'
        have hno' := hno e List.mem_cons_self
        cases e with
        | plq e => cases hev
        | arrive w =>
            obtain ⟨r, -, rfl⟩ := Option.map_eq_some_iff.mp hev
            exact id
        | eos w =>
            cases hev
            exact id
        | wlq e =>
            cases hev
            exact hno'
      · cases hσ' : σ.exec c e with
        | error x =>
            rw [hσ'] at he'
            exact absurd he' List.not_mem_nil
        | ok σ' =>
            rw [hσ'] at he'
            exact ih (fun e he => hno e (List.mem_cons_of_mem _ he)) e' he'

/-! ## The pattern comes to its end -/

/-- What holds after a run: the check for termination has been made when it should, a missing `return` comes
after the broadcast, and without removals in the second stage nothing is left pending. -/
theorem run_going (F : Forecast c C T) (hsp : 1 ≤ c.sp) (hle : c.sp ≤ c.wp) {nwPlq nwWlq : Nat}
    (hT : T (.init S (Build (Row ℚ DIM)) nwPlq)) (hwlq : 0 < nwWlq) (hwlqN : nwWlq ≤ N)
    {es : List (PfEvent S R)}
    (hes : Run.Valid (exec c) (fun σ e => σ.Enabled c e ∧ σ.Meets C e) es (init S R nwPlq nwWlq)) :
    ∃ σ β D plan, Run.run (exec c) es (init S R nwPlq nwWlq) = .ok σ ∧ KeptBy c C T σ β D ∧
      σ.wlq.Inv c.wlq plan ∧
      (σ.wlq.emitter.eosReceived = N → σ.wlq.inFlight = 0 → σ.wlq.emitter.nPendingtasks = 0 →
        σ.wlq.emitter.wlqTerminated = true) ∧
      (σ.wlq.emitter.noReturn = true → σ.Unreturned) ∧ ((∀ e ∈ es, ¬ e.Retires) → ¬ σ.Stuck) := by
  obtain ⟨σ, β, D, hrun, h, hwlqRun⟩ := (init_keptBy hT nwWlq).run F hsp hle hes
  obtain ⟨φ, hφ, -⟩ := F.completes h.tracked
  obtain ⟨-, hvalid, hrunWlq⟩ := hwlqRun φ hφ
  have henabled := hvalid.mono fun _ _ he => he.1
  -- the WLQ either goes on or has lost a task to a removal, which needs one that empties it
  obtain ⟨s, hs, hcases⟩ := (WlqState.going_init (φ.emissions.map Rset.id) hwlq hwlqN).run
    (WlqState.inv_init _ _ nwWlq) hsp hle hvalid
  obtain rfl : s = σ.wlq := Except.ok.inj (hs.symm.trans hrunWlq)
  obtain ⟨s, hs, -, hclosed, -⟩ := WlqState.closed_init.run (WlqState.inv_init _ _ nwWlq) hsp hle
    henabled
  obtain rfl : s = σ.wlq := Except.ok.inj (hs.symm.trans hrunWlq)
  refine ⟨σ, β, D, _, hrun, h, h.inv φ hφ, fun heos hzero hpend => ?_, fun hret => ?_,
    fun hno hstuck => ?_⟩
  · rcases hcases with ⟨-, hgoing⟩ | ⟨-, hlost⟩
    · exact hgoing.terminated heos hpend hzero
    · exact absurd hpend hlost.pending
  -- the missing return is reached only after the broadcast, with nothing left in flight
  · have hterm := WlqState.noReturn_run hrunWlq hret
    exact ⟨hret, hterm, hclosed.nPendingtasks hterm, hclosed.inFlight hterm⟩
  · have hgoes := (WlqState.staffed_init nwWlq).valid henabled (not_retires_wlqEvents hno)
    rcases hcases with ⟨-, hgoing⟩ | ⟨hfails, -⟩
    · exact hstuck.2.2 (hgoing.notStuck hstuck.1 hstuck.2.1).1
    · exact hfails hgoes

/-- The stream has ended, and the pattern has come here by a run with events of `E` only. -/
def EndedBy (c : PlqParams) (C : S.State → PlqEvent S → Prop) (nwPlq nwWlq : Nat)
    (E : PfEvent S R → Prop) (σ : PfState S R) : Prop :=
  σ.plq.ended = true ∧ ∃ es, (∀ e ∈ es, E e) ∧
    Run.Valid (exec c) (fun σ e => σ.Enabled c e ∧ σ.Meets C e) es (init S R nwPlq nwWlq) ∧
    Run.run (exec c) es (init S R nwPlq nwWlq) = .ok σ

/-- **A step after the end of the stream** leads on, and leaves less to do. -/
theorem EndedBy.step (F : Forecast c C T) (hsp : 1 ≤ c.sp) (hle : c.sp ≤ c.wp) {nwPlq nwWlq : Nat}
    (hT : T (.init S (Build (Row ℚ DIM)) nwPlq)) (hwlq : 0 < nwWlq) (hwlqN : nwWlq ≤ N)
    {E : PfEvent S R → Prop} (hE : ∀ e, ¬ e.Reconfigures → E e)
    (h : σ.EndedBy c C nwPlq nwWlq E) (he : σ.Productive c e) :
    ∃ σ', σ.exec c e = .ok σ' ∧ σ'.EndedBy c C nwPlq nwWlq E ∧ σ'.left < σ.left := by
  obtain ⟨hend, es, hes, hvalid, hrun⟩ := h
  obtain ⟨σ₁, β, D, plan, hrun₁, hkept, hinv, -⟩ := run_going F hsp hle hT hwlq hwlqN hvalid
  obtain rfl : σ₁ = σ := Except.ok.inj (hrun₁.symm.trans hrun)
  -- after END only the workers of the first stage still move, which is no call of the scheduler
  have hmeets : σ₁.Meets C e := by
    cases e with
    | plq e =>
        obtain ⟨w, rfl, -⟩ := PlqState.Enabled.eq_worker he.1.2 hend
        exact F.worker _ w
    | _ => exact trivial
  obtain ⟨σ', hσ', -⟩ := hkept.step F hsp hle he.1.2 hmeets
  -- the run is extended by the event, which does not reopen the stream
  refine ⟨σ', hσ', ⟨?_, es ++ [e], fun e' he' => ?_, ?_, ?_⟩, left_lt hinv hend he hσ'⟩
  · have hinner : e.Inner := by
      cases e with
      | plq e =>
          obtain ⟨w, rfl, -⟩ := PlqState.Enabled.eq_worker he.1.2 hend
          exact trivial
      | _ => exact trivial
    rw [(exec_inner hinner hσ').2]
    exact hend
  · rcases List.mem_append.mp he' with he' | he'
    · exact hes e' he'
    · rw [List.mem_singleton.mp he']
      exact hE e he.2
  · refine hvalid.append fun s hs => ?_
    obtain rfl : s = σ₁ := Except.ok.inj (hs.symm.trans hrun)
    exact .one ⟨he.1, hmeets⟩
  · rw [Run.run_append hrun, Run.run_cons hσ']
    rfl

/-- After the end of the stream the pattern inevitably comes to its termination, to a call of `svc` without
a `return`, or to where it is stuck, and so to a state with `P`. -/
theorem EndedBy.inevitable (F : Forecast c C T) (hsp : 1 ≤ c.sp) (hle : c.sp ≤ c.wp) {nwPlq nwWlq : Nat}
    (hT : T (.init S (Build (Row ℚ DIM)) nwPlq)) (hwlq : 0 < nwWlq) (hwlqN : nwWlq ≤ N)
    {E : PfEvent S R → Prop} (hE : ∀ e, ¬ e.Reconfigures → E e) {P : PfState S R → Prop}
    (hP : ∀ σ, σ.EndedBy c C nwPlq nwWlq E → σ.Terminated ∨ σ.Unreturned ∨ σ.Stuck → P σ)
    (h : σ.EndedBy c C nwPlq nwWlq E) : Run.Inevitable (exec c) (Productive c) P σ := by
  -- the measure is what is left to do in the stages
  refine Run.Inevitable.of_measure (r := (· < ·)) wellFounded_lt left
    (I := EndedBy c C nwPlq nwWlq E) (fun s hs hno => ?_)
    (fun s e hs he => hs.step F hsp hle hT hwlq hwlqN hE he) h
  obtain ⟨hend, es, hes, hvalid, hrun⟩ := id hs
  obtain ⟨s₁, β, D, plan, hrun₁, hkept, -, hterm, hret, -⟩ :=
    run_going F hsp hle hT hwlq hwlqN hvalid
  obtain rfl : s₁ = s := Except.ok.inj (hrun₁.symm.trans hrun)
  -- before the missing return some event is enabled, unless the WLQ is stuck
  cases hcall : s₁.wlq.emitter.noReturn with
  | true => exact absurd (hP s₁ hs (Or.inr (Or.inl (hret hcall)))) hno
  | false =>
      rcases hkept.progress hcall hend hterm (fun ht => hno (hP s₁ hs (Or.inl ht))) with
        hevent | hstuck
      · exact hevent
      · exact absurd (hP s₁ hs (Or.inr (Or.inr hstuck))) hno

/-- The pattern has come to its termination, with `G`, or to the missing `return`. -/
def AtEnd (G : PfState S R → Prop) (σ : PfState S R) : Prop := σ.Terminated ∧ G σ ∨ σ.Unreturned

/-- The runs come to their end: whatever happens after the end of the stream, apart from reconfigurations,
the pattern comes to its termination, with `G`, to the missing `return`, or is stuck. Without removals in
the second stage it is not. -/
def ComesToEnd (c : PlqParams) (Ok : PfState S R → PfEvent S R → Prop) (G : PfState S R → Prop)
    (nwPlq nwWlq : Nat) : Prop :=
  ∀ es : List (PfEvent S R), Run.Valid (exec c) Ok es (init S R nwPlq nwWlq) →
    ∃ σ, Run.run (exec c) es (init S R nwPlq nwWlq) = .ok σ ∧ (σ.plq.ended = true →
      Run.Inevitable (exec c) (Productive c) (fun σ => AtEnd G σ ∨ σ.Stuck) σ ∧
      ((∀ e ∈ es, ¬ e.Retires) → Run.Inevitable (exec c) (Productive c) (AtEnd G) σ))

/-- **What is forecast of the first stage brings the pattern to its end.** -/
theorem comesToEnd (F : Forecast c C T) (hsp : 1 ≤ c.sp) (hle : c.sp ≤ c.wp) {nwPlq nwWlq : Nat}
    (hT : T (.init S (Build (Row ℚ DIM)) nwPlq)) (hwlq : 0 < nwWlq) (hwlqN : nwWlq ≤ N)
    {Ok : PfState S R → PfEvent S R → Prop} (hOk : ∀ σ e, Ok σ e → σ.Enabled c e ∧ σ.Meets C e)
    {G : PfState S R → Prop}
    (hG : ∀ σ β D, KeptBy c C T σ β D → Complete c.wp c.sp σ β → G σ) :
    ComesToEnd c Ok G nwPlq nwWlq := by
  intro es hes
  have hvalid := hes.mono hOk
  obtain ⟨σ, -, -, -, hrun, -⟩ := run_going F hsp hle hT hwlq hwlqN hvalid
  -- the termination is complete
  have hfinal : ∀ {E : PfEvent S R → Prop} (σ : PfState S R), σ.EndedBy c C nwPlq nwWlq E →
      σ.Terminated → AtEnd G σ := by
    rintro E σ ⟨-, es, -, hvalid, hrun⟩ ht
    obtain ⟨s, β, D, hrun₁, hkept, hcomplete⟩ := run_keptBy F hsp hle hT hwlq hwlqN hvalid
    obtain rfl : s = σ := Except.ok.inj (hrun₁.symm.trans hrun)
    exact Or.inl ⟨ht, hG s β D hkept (hcomplete ht)⟩
  refine ⟨σ, hrun, fun hend => ⟨?_, fun hno => ?_⟩⟩
  · refine EndedBy.inevitable F hsp hle hT hwlq hwlqN (E := fun _ => True) (fun _ _ => trivial) ?_
      ⟨hend, es, fun _ _ => trivial, hvalid, hrun⟩
    rintro s hs (ht | hret | hstuck)
    · exact Or.inl (hfinal s hs ht)
    · exact Or.inl (Or.inr hret)
    · exact Or.inr hstuck
  · refine EndedBy.inevitable F hsp hle hT hwlq hwlqN (E := fun e => ¬ e.Retires)
      (fun e he hr => he hr.reconfigures) ?_ ⟨hend, es, hno, hvalid, hrun⟩
    rintro s hs (ht | hret | hstuck)
    · exact hfinal s hs ht
    · exact Or.inr hret
    · obtain ⟨-, es', hes', hvalid', hrun'⟩ := hs
      obtain ⟨s', β, D, plan, hrun₁, -, -, -, -, hgoes⟩ := run_going F hsp hle hT hwlq hwlqN hvalid'
      obtain rfl : s' = s := Except.ok.inj (hrun₁.symm.trans hrun')
      exact absurd hstuck (hgoes hes')

/-- The runs with in-order workers come to their end, where no window is missing. -/
def InOrderEnds (S : Strategy N DIM) (R : Type) [PrefQuery (Row ℚ DIM) R]
    (wp sp paneLength nwPlq nwWlq : Nat) : Prop :=
  ComesToEnd (S := S) (R := R) (inOrder wp sp paneLength) (Enabled (inOrder wp sp paneLength))
    (InOrderComplete wp sp) nwPlq nwWlq

/-- The runs with out-of-order workers in which all that is asked of the strategy is as it needs it come
to their end, where no window is missing. -/
def OutOfOrderEnds {S : Strategy N DIM} (Rf : S.Refinement) (R : Type) [PrefQuery (Row ℚ DIM) R]
    (wp sp paneLength nwPlq nwWlq : Nat) : Prop :=
  ComesToEnd (S := S) (R := R) (oop wp sp paneLength)
    (fun σ e => σ.Enabled (oop wp sp paneLength) e ∧ σ.Meets (CallOk Rf) e)
    (OutOfOrderComplete wp sp) nwPlq nwWlq

end PfState

open PfState

/-- In-order workers count right with every strategy. -/
theorem Strategy.Refinement.inOrderEnds {S : Strategy N DIM} (Rf : S.Refinement) (R : Type)
    [PrefQuery (Row ℚ DIM) R] (wp sp paneLength : Nat) (hsp : 1 ≤ sp) (hle : sp ≤ wp)
    {nwPlq nwWlq : Nat} (hplq : 0 < nwPlq) (hplqN : nwPlq ≤ N) (hwlq : 0 < nwWlq) (hwlqN : nwWlq ≤ N) :
    InOrderEnds S R wp sp paneLength nwPlq nwWlq := by
  have hi : (inOrder wp sp paneLength).iop = true := rfl
  have hwp : 0 < (inOrder wp sp paneLength).wp := by
    show 0 < wp
    omega
  refine comesToEnd (Balanced.forecast Rf hi) hsp hle (init_balanced _ Rf hplq hplqN) hwlq hwlqN
    (fun σ e he => ⟨he, meets_true σ e⟩) fun σ β D h hcomplete => ?_
  exact inOrderComplete_of_complete hi hwp h.tracked h.scheduled hcomplete

/-- Out-of-order workers count right where the strategy finds what it needs. -/
theorem Strategy.Refinement.outOfOrderEnds {S : Strategy N DIM} (Rf : S.Refinement) (R : Type)
    [PrefQuery (Row ℚ DIM) R] (wp sp paneLength : Nat) (hsp : 1 ≤ sp) (hle : sp ≤ wp)
    {nwPlq nwWlq : Nat} (hplq : 0 < nwPlq) (hplqN : nwPlq ≤ N) (hwlq : 0 < nwWlq) (hwlqN : nwWlq ≤ N) :
    OutOfOrderEnds Rf R wp sp paneLength nwPlq nwWlq := by
  refine comesToEnd (Rf.forecast wp sp paneLength) hsp hle (init_tracked _ Rf hplq hplqN) hwlq hwlqN
    (fun σ e he => he) fun σ β D h hcomplete => ?_
  exact outOfOrderComplete_of_complete h.tracked h.plq hcomplete

/-- A run up to the end of the stream: pane 0 is split, a worker of the first stage is removed, and pane 0
is closed. -/
def endedRun : List (PfEvent (TbRrSched.strategy 2 2) (SkySet ℚ 0)) :=
  [.plq (.tuple () (pointAt 0 1 3)), .plq (.tuple () (pointAt 0 2 4)), .plq (.remove () [0]),
    .plq (.tuple () (pointAt 1 3 1)), .plq (.progress () 0 1), .plq .finish]

/-- The state after that run. -/
def endedEnd : PfState (TbRrSched.strategy 2 2) (SkySet ℚ 0) :=
  Run.result (Run.run (exec (oop 2 1 1)) endedRun (init _ _ 2 2)) (by decide +kernel)

end ElasticPPQ
