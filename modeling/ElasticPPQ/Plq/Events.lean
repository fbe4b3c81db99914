import ElasticPPQ.Plq.Protocol

/-! # What the events of the emitter do

One specification (`PlqState.Emits`) for the four events in which the emitter calls a method of the
strategy: the tables stay sound, the messages go to activated workers, the tuple of the event is sent
once, punctuations never go backwards, and in the out-of-order pipeline the routing is kept. It asks
for little (`PlqState.Ready`), and holds in every run of both pipelines. -/

namespace ElasticPPQ

open FifoNet

variable {N DIM : Nat} {R : Type}

namespace Sched

/-- The number of activated workers. -/
def numActive (s : Sched N) : Nat := ((List.finRange N).filter s.activatedWorker).length

/-- The list of the workers that satisfy a test is as long as its disjoint parts together. -/
theorem length_filter_or {f : Fin N → Bool} {ws : List (Fin N)} (hws : ws.Nodup)
    (h : ∀ w ∈ ws, f w = false) :
    ((List.finRange N).filter fun v => f v || decide (v ∈ ws)).length =
      ((List.finRange N).filter f).length + ws.length := by
  rw [← List.length_append]
  refine List.Perm.length_eq ((List.perm_ext_iff_of_nodup ?_ ?_).mpr fun v => ?_)
  · exact (List.nodup_finRange N).filter _
  · refine List.Nodup.append ((List.nodup_finRange N).filter _) hws ?_
    intro v hv hv'
    have := (List.mem_filter.mp hv).2
    rw [h v hv'] at this
    exact Bool.false_ne_true this
  · simp [List.mem_filter, List.mem_append]

/-- Adding de-activated workers keeps `nw_plq` the number of activated ones. -/
theorem numActive_activated {s : Sched N} {ws : List (Fin N)} (hws : ws.Nodup)
    (h : ∀ w ∈ ws, s.activatedWorker w = false) {s' : Sched N}
    (hs' : s'.activatedWorker = fun v => s.activatedWorker v || decide (v ∈ ws)) :
    s'.numActive = s.numActive + ws.length := by
  rw [numActive, hs', numActive]
  exact length_filter_or hws h

/-- So does removing activated ones. -/
theorem numActive_deactivated {s : Sched N} {ws : List (Fin N)} (hws : ws.Nodup)
    (h : ∀ w ∈ ws, s.activatedWorker w = true) {s' : Sched N}
    (hs' : s'.activatedWorker = fun v => s.activatedWorker v && !decide (v ∈ ws)) :
    s'.numActive = s.numActive - ws.length := by
  -- activating the same workers again would undo the removal
  have hback : s.activatedWorker = fun v => s'.activatedWorker v || decide (v ∈ ws) := by
    funext v
    rw [hs']
    by_cases hv : v ∈ ws
    · simp [hv, h v hv]
    · simp [hv]
  have hgone : ∀ w ∈ ws, s'.activatedWorker w = false := by
    intro w hw
    rw [hs']
    simp [hw]
  have := numActive_activated (s := s') hws hgone hback
  omega

end Sched

namespace PlqState

variable {S : Strategy N DIM}

/-- The messages that the emitter sends at an event. -/
def sends (c : PlqParams) (σ : PlqState S R) : PlqEvent S → Sends N DIM
  | .tuple env t => ((schedule c env t σ.sched).map Prod.snd).getD []
  | .progress env ts pId =>
      ((S.executeStreamProgress env c.iop ts pId σ.sched).map Prod.snd).getD []
  | .add _ => []
  | .remove env ws => ((S.removeWorkers env ws.length ws σ.sched).map Prod.snd).getD []
  | .finish => (S.broadcastEndToW σ.sched).2
  | .worker _ => []

/-- The tuple scheduled at an event, if it is one. -/
def scheduledBy : PlqEvent S → List (Tuple DIM)
  | .tuple _ t => [t]
  | _ => []

/-- The regular messages among a list of sends. -/
def regulars (l : Sends N DIM) : List (Tuple DIM) :=
  (l.map Prod.snd).filter fun m => m.type = .regular

/-- The regular tuples of two batches. -/
@[simp] theorem regulars_append (l m : Sends N DIM) :
    regulars (l ++ m) = regulars l ++ regulars m := by
  rw [regulars, List.map_append, List.filter_append]
  rfl

/-- Control messages are not tuples. -/
theorem regulars_control {l : Sends N DIM} (h : ∀ x ∈ l, x.2.type ≠ .regular) : regulars l = [] := by
  refine List.filter_eq_nil_iff.mpr fun m hm => ?_
  obtain ⟨x, hx, rfl⟩ := List.mem_map.mp hm
  simpa using h x hx

/-- The next pane to complete after an event. -/
def nextAfter (c : PlqParams) : PlqEvent S → Nat → Nat
  | .tuple _ t, next => if c.iop then max next t.paneId else next
  | .progress _ _ pId, next => max next pId
  | _, next => next

/-- The next pane to be closed does not go back. -/
theorem le_nextAfter (c : PlqParams) (e : PlqEvent S) (next : Nat) : next ≤ nextAfter c e next := by
  cases e with
  | tuple env t =>
      rw [nextAfter]
      by_cases hi : c.iop = true
      · rw [if_pos hi]
        exact le_max_left _ _
      · rw [if_neg hi]
  | progress env ts pId => exact le_max_left _ _
  | _ => exact le_rfl

/-- The activated workers after an event. -/
def activatedAfter : PlqEvent S → (Fin N → Bool) → Fin N → Bool
  | .add ws, active => fun v => active v || decide (v ∈ ws)
  | .remove _ ws, active => fun v => active v && !decide (v ∈ ws)
  | .finish, _ => fun _ => true
  | _, active => active

/-- What an event of the emitter does: it leads from `σ` to `σ'`, sending `out`. -/
structure Emits (c : PlqParams) (Rf : S.Refinement) (σ σ' : PlqState S R) (e : PlqEvent S)
    (out : Sends N DIM) : Prop where
  net : σ'.net = σ.net.sendAll out
  ended : σ'.ended = σ.ended
  scheduled : σ'.scheduled = σ.scheduled ++ scheduledBy e
  inv : Rf.Inv σ'.sched
  hasActive : (S.base σ'.sched).HasActive
  nextPaneId : σ'.nextPaneId = nextAfter c e σ.nextPaneId
  activated : σ'.activated = activatedAfter e σ.activated
  numActive : (S.base σ.sched).nwPlq = (S.base σ.sched).numActive →
    (S.base σ'.sched).nwPlq = (S.base σ'.sched).numActive
  size : ∀ p, (S.base σ'.sched).size p =
    (S.base σ.sched).size p + (scheduledBy e).countP fun t => t.paneId = p
  regular : ∃ n, regulars out = (scheduledBy e).map fun t => { t with noInstances := n }
  punct : ∀ x ∈ out, x.2.type = .punct → σ.nextPaneId ≤ x.2.paneId ∧ x.2.paneId = σ'.nextPaneId
  toActive : ∀ x ∈ out, x.2.type = .flush ∨ σ'.activated x.1 = true
  route : c.iop = false → Ledger.Route (σ.ledger Rf) out (σ'.ledger Rf)

variable {c : PlqParams} {Rf : S.Refinement} {σ : PlqState S R}

/-- No event makes an earlier pane the next one to complete. -/
theorem Emits.next {σ' : PlqState S R} {e : PlqEvent S} {out : Sends N DIM}
    (h : σ.Emits c Rf σ' e out) : σ.nextPaneId ≤ σ'.nextPaneId := by
  rw [h.nextPaneId]
  exact le_nextAfter c e _

/-- The sizes of the panes do not decrease. -/
theorem Emits.size_le {σ' : PlqState S R} {e : PlqEvent S} {out : Sends N DIM}
    (h : σ.Emits c Rf σ' e out) (p : Nat) : (S.base σ.sched).size p ≤ (S.base σ'.sched).size p := by
  rw [h.size]
  exact Nat.le_add_right _ _

/-- The pane of the tuple has a tuple. -/
theorem Emits.fed {σ' : PlqState S R} {e : PlqEvent S} {out : Sends N DIM}
    (h : σ.Emits c Rf σ' e out) {t : Tuple DIM} (ht : t ∈ scheduledBy e) :
    (S.base σ'.sched).size t.paneId ≠ 0 := by
  have hpos : 0 < (scheduledBy e).countP fun u => u.paneId = t.paneId :=
    List.countP_pos_iff.mpr ⟨t, ht, by simp⟩
  have hsize := h.size t.paneId
  omega

/-- The number of tuples that an event for a tuple schedules for a pane. -/
theorem size_scheduledBy_tuple (n : Nat → Nat) (env : S.Env) (t : Tuple DIM) (p : Nat) :
    n p + (scheduledBy (.tuple env t : PlqEvent S)).countP (fun u => u.paneId = p) =
      if p = t.paneId then n t.paneId + 1 else n p := by
  by_cases hp : p = t.paneId
  · subst hp
    simp [scheduledBy]
  · simp [scheduledBy, hp, Ne.symm hp]

/-- The regular messages of a scheduled tuple. -/
theorem regulars_scheduled {iop : Bool} {ok : Prop} {t : Tuple DIM} {held held' : Nat → List (Fin N)}
    {s s' : Sched N} {out : Sends N DIM} (ht : t.type = .regular)
    (h : Sched.Scheduled iop ok t held held' s s' out) :
    ∃ n, regulars out = [{ t with noInstances := n }] := by
  obtain ⟨news, w, n, rfl, hnews⟩ := h.sent
  refine ⟨n, ?_⟩
  have hnil : regulars news = [] := regulars_control fun x hx => by
    rw [hnews x hx]
    exact TypeMsg.noConfusion
  rw [regulars_append, hnil, List.nil_append]
  simp [regulars, ht]

/-- None of the messages of a scheduled tuple is a punctuation. -/
theorem punct_scheduled {iop : Bool} {ok : Prop} {t : Tuple DIM} {held held' : Nat → List (Fin N)}
    {s s' : Sched N} {out : Sends N DIM} (ht : t.type = .regular)
    (h : Sched.Scheduled iop ok t held held' s s' out) : ∀ x ∈ out, x.2.type ≠ .punct := by
  obtain ⟨news, w, n, rfl, hnews⟩ := h.sent
  intro x hx
  rcases List.mem_append.mp hx with hx | hx
  · rw [hnews x hx]
    exact TypeMsg.noConfusion
  · rw [List.mem_singleton.mp hx]
    show t.type ≠ .punct
    rw [ht]
    exact TypeMsg.noConfusion

/-- The punctuations of a progress are for the pane it progresses to. -/
theorem punct_progressed {iop : Bool} {pId : Nat} {held : Nat → List (Fin N)} {s s' : Sched N}
    {out : Sends N DIM} (h : Sched.Progressed iop held pId s s' out) :
    ∀ x ∈ out, x.2.type = .punct →
      iop = false ∧ s.nextPaneId ≤ x.2.paneId ∧ x.2.paneId = s'.nextPaneId := by
  intro x hx hty
  rcases h.sends with ⟨-, rfl⟩ | ⟨hle, lulls, ts, rfl, -, -⟩
  · exact absurd hx List.not_mem_nil
  -- `LULL`s are no punctuations, and only the out-of-order pipeline broadcasts one
  · rcases List.mem_append.mp hx with hx | hx
    · obtain ⟨y, -, rfl⟩ := List.mem_map.mp hx
      cases hty
    · cases iop with
      | true => exact absurd hx List.not_mem_nil
      | false =>
          obtain ⟨v, -, rfl⟩ := List.mem_map.mp hx
          refine ⟨rfl, hle, ?_⟩
          rw [h.nextPaneId]
          exact (max_eq_right hle).symm

variable [PrefQuery (Row ℚ DIM) R]

/-- Whether an event is one of the emitter. -/
def ofEmitter : PlqEvent S → Bool
  | .worker _ => false
  | _ => true

/-- The emitter puts its messages into the channels. -/
theorem exec_net {e : PlqEvent S} (he : ofEmitter e = true) (h : σ.exec c e = some σ') :
    σ'.net = σ.net.sendAll (σ.sends c e) := by
  cases e with
  | tuple env t =>
      obtain ⟨x, hx, rfl⟩ := Option.map_eq_some_iff.mp h
      rw [sends, hx]
      rfl
  | progress env ts pId =>
      obtain ⟨x, hx, rfl⟩ := Option.map_eq_some_iff.mp h
      rw [sends, hx]
      rfl
  | add ws =>
      obtain ⟨x, -, rfl⟩ := Option.map_eq_some_iff.mp h
      rfl
  | remove env ws =>
      obtain ⟨x, hx, rfl⟩ := Option.map_eq_some_iff.mp h
      rw [sends, hx]
      rfl
  | finish =>
      cases h
      rfl
  | worker w => cases he

/-- A tuple in the out-of-order pipeline. -/
theorem Ready.tuple (h : σ.Ready c Rf) (hi : c.iop = false) {env : S.Env} {t : Tuple DIM}
    (he : σ.Enabled c (.tuple env t)) :
    ∃ σ', σ.exec c (.tuple env t) = some σ' ∧
      σ.Emits c Rf σ' (.tuple env t) (σ.sends c (.tuple env t)) := by
  obtain ⟨hend, ht, hp⟩ := he
  rw [hi, if_neg Bool.false_ne_true] at hp
  obtain ⟨s', out, hsched, hinv, hsch⟩ := h.scheduleOop hi hend env ht hp
  have hsends : σ.sends c (.tuple env t) = out := by
    rw [sends, hsched]
    rfl
  refine ⟨_, by rw [exec, hsched]; rfl, ?_⟩
  rw [hsends]
  -- the message of the tuple comes last, after the `NEWINST`s
  obtain ⟨n, hn⟩ := regulars_scheduled ht hsch
  exact {
    net := rfl
    ended := rfl
    scheduled := rfl
    inv := hinv
    hasActive := by
      show (S.base s').HasActive
      rw [Sched.HasActive, hsch.activatedWorker]
      exact h.hasActive
    nextPaneId := by
      rw [nextAfter, hi, if_neg Bool.false_ne_true]
      exact hsch.nextPaneId
    activated := hsch.activatedWorker
    numActive := fun hnw => by
      show (S.base s').nwPlq = (S.base s').numActive
      rw [hsch.nwPlq, Sched.numActive, hsch.activatedWorker]
      exact hnw
    size := fun p => by
      rw [size_scheduledBy_tuple]
      exact hsch.size p
    regular := ⟨n, hn⟩
    punct := fun x hx hty => absurd hty (punct_scheduled ht hsch x hx)
    toActive := fun x hx => Or.inr (by
      show (S.base s').activatedWorker x.1 = true
      rw [hsch.activatedWorker]
      exact hsch.toActive x hx)
    route := hsch.route }

/-- A tuple in the in-order pipeline, where its pane is not before the current one. -/
theorem Ready.tupleIop (h : σ.Ready c Rf) (hi : c.iop = true) {env : S.Env} {t : Tuple DIM}
    (he : σ.Enabled c (.tuple env t)) (hnext : σ.nextPaneId ≤ t.paneId) :
    ∃ σ', σ.exec c (.tuple env t) = some σ' ∧
      σ.Emits c Rf σ' (.tuple env t) (σ.sends c (.tuple env t)) := by
  obtain ⟨hend, ht, -⟩ := he
  obtain ⟨s₁, lulls, s', out, hsched, -, -, hinv, -, hnext₁, hpr, hsch⟩ :=
    h.scheduleIop hi hend env ht hnext
  have hsends : σ.sends c (.tuple env t) = lulls ++ out := by
    rw [sends, hsched]
    rfl
  refine ⟨_, by rw [exec, hsched]; rfl, ?_⟩
  rw [hsends]
  -- a tuple neither activates nor removes workers
  have hactive : (S.base s').activatedWorker = (S.base σ.sched).activatedWorker :=
    hsch.activatedWorker.trans hpr.activatedWorker
  obtain ⟨n, hn⟩ := regulars_scheduled ht hsch
  exact {
    net := rfl
    ended := rfl
    scheduled := rfl
    inv := hinv
    hasActive := by
      show (S.base s').HasActive
      rw [Sched.HasActive, hactive]
      exact h.hasActive
    nextPaneId := by
      rw [nextAfter, if_pos hi, max_eq_right hnext]
      exact hsch.nextPaneId.trans hnext₁
    activated := hactive
    numActive := fun hnw => by
      show (S.base s').nwPlq = (S.base s').numActive
      rw [hsch.nwPlq, hpr.nwPlq, Sched.numActive, hactive]
      exact hnw
    size := fun p => by
      rw [size_scheduledBy_tuple, ← hpr.size, ← hpr.size]
      exact hsch.size p
    regular := ⟨n, by rw [regulars_append, regulars_control hpr.control, hn]; rfl⟩
    punct := fun x hx hty => by
      rcases List.mem_append.mp hx with hx | hx
      · exact absurd (punct_progressed hpr x hx hty).1 Bool.true_eq_false.mp
      · exact absurd hty (punct_scheduled ht hsch x hx)
    toActive := fun x hx => Or.inr (by
      show (S.base s').activatedWorker x.1 = true
      rw [hactive]
      rcases List.mem_append.mp hx with hx | hx
      · exact hpr.toActive x hx
      · rw [← hpr.activatedWorker]
        exact hsch.toActive x hx)
    route := fun hi' => absurd (hi.symm.trans hi') Bool.true_eq_false.mp }

/-- A progress of the stream. -/
theorem Ready.progress (h : σ.Ready c Rf) {env : S.Env} {ts : ℚ} {pId : Nat}
    (he : σ.Enabled c (.progress env ts pId)) :
    ∃ σ', σ.exec c (.progress env ts pId) = some σ' ∧
      σ.Emits c Rf σ' (.progress env ts pId) (σ.sends c (.progress env ts pId)) := by
  obtain ⟨-, hi⟩ := he
  obtain ⟨s', out, hrun, hinv, hheld, hpr⟩ :=
    Rf.executeStreamProgress h.inv h.hasActive env c.iop ts pId
  have hsends : σ.sends c (.progress env ts pId) = out := by
    rw [sends, hrun]
    rfl
  refine ⟨_, by rw [exec, hrun]; rfl, ?_⟩
  rw [hsends]
  -- every clause is read off the specification of `executeStreamProgress`
  exact {
    net := rfl
    ended := rfl
    scheduled := (List.append_nil _).symm
    inv := hinv
    hasActive := by
      show (S.base s').HasActive
      rw [Sched.HasActive, hpr.activatedWorker]
      exact h.hasActive
    nextPaneId := hpr.nextPaneId
    activated := hpr.activatedWorker
    numActive := fun hnw => by
      show (S.base s').nwPlq = (S.base s').numActive
      rw [hpr.nwPlq, Sched.numActive, hpr.activatedWorker]
      exact hnw
    size := hpr.size
    regular := ⟨0, regulars_control hpr.control⟩
    punct := fun x hx hty => (punct_progressed hpr x hx hty).2
    toActive := fun x hx => Or.inr (by
      show (S.base s').activatedWorker x.1 = true
      rw [hpr.activatedWorker]
      exact hpr.toActive x hx)
    route := fun hi' => by
      rw [hi'] at hpr
      have hr := hpr.route (Rf.sound h.inv)
      rw [← hheld] at hr
      rw [ledger, ← hheld]
      exact hr }

/-- The controller adds workers. -/
theorem Ready.add (h : σ.Ready c Rf) {ws : List (Fin N)} (he : σ.Enabled c (.add ws)) :
    ∃ σ', σ.exec c (.add ws) = some σ' ∧ σ.Emits c Rf σ' (.add ws) (σ.sends c (.add ws)) := by
  obtain ⟨-, hws, hinactive⟩ := he
  obtain ⟨s', hadd, hinv, hheld, hbase⟩ := Rf.addWorkers h.inv hws hinactive ws.length
  refine ⟨σ.sent (s', []), ?_, ?_⟩
  · rw [exec, hadd]
    rfl
  -- an activation sends nothing
  · exact {
      net := rfl
      ended := rfl
      scheduled := (List.append_nil _).symm
      inv := hinv
      hasActive := by
        show (S.base s').HasActive
        obtain ⟨w, hw⟩ := h.hasActive
        refine ⟨w, ?_⟩
        rw [hbase]
        simp [hw]
      nextPaneId := by
        show (S.base s').nextPaneId = (S.base σ.sched).nextPaneId
        rw [hbase]
      activated := by
        show (S.base s').activatedWorker = _
        rw [hbase]
        rfl
      numActive := fun hnw => by
        show (S.base s').nwPlq = (S.base s').numActive
        have hactive : (S.base s').activatedWorker =
            fun v => (S.base σ.sched).activatedWorker v || decide (v ∈ ws) := by rw [hbase]
        rw [Sched.numActive_activated hws hinactive hactive, ← hnw, hbase]
      size := fun p => by
        show (S.base s').size p = (S.base σ.sched).size p
        rw [hbase]
      regular := ⟨0, rfl⟩
      punct := fun x hx => absurd hx List.not_mem_nil
      toActive := fun x hx => absurd hx List.not_mem_nil
      route := fun _ => by
        have hledger : (S.base s').ledger (Rf.held s') = (σ.ledger Rf).activate ws := by
          rw [hbase, hheld]
          rfl
        show Ledger.Route _ _ ((S.base s').ledger (Rf.held s'))
        rw [hledger]
        exact Ledger.Route.moves (Ledger.Move.activate _ ws).moves }

/-- The controller removes workers. -/
theorem Ready.remove (h : σ.Ready c Rf) {env : S.Env} {ws : List (Fin N)}
    (he : σ.Enabled c (.remove env ws)) :
    ∃ σ', σ.exec c (.remove env ws) = some σ' ∧
      σ.Emits c Rf σ' (.remove env ws) (σ.sends c (.remove env ws)) := by
  obtain ⟨hend, hws, hactive, hleft⟩ := he
  obtain ⟨s', out, hrun, hinv, hrem⟩ := Rf.removeWorkers h.inv hws hactive hleft
    (h.heldActive hend) h.single env ws.length
  have hsends : σ.sends c (.remove env ws) = out := by
    rw [sends, hrun]
    rfl
  refine ⟨_, by rw [exec, hrun]; rfl, ?_⟩
  rw [hsends]
  -- a removal sends control messages only, and an activated worker is left
  exact {
    net := rfl
    ended := rfl
    scheduled := (List.append_nil _).symm
    inv := hinv
    hasActive := by
      show (S.base s').HasActive
      obtain ⟨w, hw, ha⟩ := hleft
      refine ⟨w, ?_⟩
      have ha' : (S.base σ.sched).activatedWorker w = true := ha
      rw [hrem.activatedWorker]
      simp [hw, ha']
    nextPaneId := hrem.nextPaneId
    activated := hrem.activatedWorker
    numActive := fun hnw => by
      show (S.base s').nwPlq = (S.base s').numActive
      rw [hrem.nwPlq, Sched.numActive_deactivated hws hactive hrem.activatedWorker, hnw]
    size := fun p => by
      show (S.base s').size p = (S.base σ.sched).size p
      rw [Sched.size, Sched.size, hrem.paneSize]
    regular := ⟨0, regulars_control fun x hx => (hrem.control x hx).1⟩
    punct := fun x hx hty => absurd hty (hrem.control x hx).2
    toActive := hrem.toActive
    route := fun hi => Ledger.Route.moves (hi ▸ hrem.moves) }

end PlqState

end ElasticPPQ
