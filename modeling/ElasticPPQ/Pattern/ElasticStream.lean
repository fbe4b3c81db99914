import ElasticPPQ.Pattern.Elastic

/-! # From the stream to the windows, with the controller

Both emitters admit the reconfigurations of the controller (`InOrderRun.fits`, `OutOfOrderRun.fits`): so
in the elastic pattern no message aborts an emitter, controller, resource pool and emitters agree, and the
client gets what it gets from a pattern whose degrees of parallelism do not vary (`elastic_inOrder`,
`elastic_outOfOrder`). -/

namespace ElasticPPQ

open PlqState

variable {N DIM : Nat}

/-- The event is not a reconfiguration. -/
def StreamEvent.Works {S : Strategy N DIM} {R : Type} : StreamEvent S R → Prop
  | .inner e => ¬ e.Reconfigures
  | _ => True

instance StreamEvent.decidableWorks {S : Strategy N DIM} {R : Type} :
    (e : StreamEvent S R) → Decidable e.Works
  | .inner e => inferInstanceAs (Decidable (¬ e.Reconfigures))
  | .receive _ _ _ | .finish _ => isTrue trivial

/-- The event is not a reconfiguration. -/
def SourceEvent.Works {S : Strategy N DIM} {R : Type} : SourceEvent S R → Prop
  | .inner e => ¬ e.Reconfigures
  | _ => True

instance SourceEvent.decidableWorks {S : Strategy N DIM} {R : Type} :
    (e : SourceEvent S R) → Decidable e.Works
  | .inner e => inferInstanceAs (Decidable (¬ e.Reconfigures))
  | .receive _ _ | .finish => isTrue trivial

/-- A reconfiguration does not come from the emitter. -/
theorem PfEvent.Reconfigures.inner {S : Strategy N DIM} {R : Type} {e : PfEvent S R}
    (h : e.Reconfigures) : e.Inner := by
  cases e with
  | plq e =>
      cases e with
      | add ws => exact trivial
      | remove env ws => exact trivial
      | _ => exact h.elim
  | _ => exact trivial

namespace InOrderRun

variable {S : Strategy N DIM} {R : Type} {x x' : InOrderRun DIM}

/-- What leaves the buffer is no reconfiguration. -/
theorem scheduling_works (env : Nat → S.Env) {e : PfEvent S R} (he : e ∈ scheduling R env x x') :
    ¬ e.Reconfigures := by
  obtain ⟨y, -, rfl⟩ := List.mem_map.mp he
  exact id

/-- The in-order emitter passes on reconfigurations only where it receives them. -/
theorem front_works {paneLength : Nat} {e : StreamEvent S R} {es : List (PfEvent S R)}
    (hworks : e.Works) (h : front paneLength x e = some (x', es)) :
    ∀ e' ∈ es, ¬ e'.Reconfigures := by
  intro e' he'
  -- the sends of the scheduler are tuples, which reconfigure nothing
  cases e with
  | receive pid env row =>
      obtain ⟨y, -, hy⟩ := Option.map_eq_some_iff.mp h
      obtain ⟨rfl, rfl⟩ := Prod.mk.inj hy
      exact scheduling_works env he'
  | finish env =>
      obtain ⟨y, -, hy⟩ := Option.map_eq_some_iff.mp h
      obtain ⟨rfl, rfl⟩ := Prod.mk.inj hy
      -- the rest of the buffer is scheduled, and then the stream ends
      rcases List.mem_append.mp he' with he' | he'
      · exact scheduling_works env he'
      · rw [List.mem_singleton.mp he']
        exact id
  | inner e =>
      obtain ⟨rfl, rfl⟩ := Prod.mk.inj (Option.some.inj h)
      rw [List.mem_singleton.mp he']
      exact hworks

/-- **The in-order emitter** admits the reconfigurations. -/
theorem fits [PrefQuery (Row ℚ DIM) R] {c : PlqParams} (hi : c.iop = true) :
    Elastic.Fits (S := S) (R := R) c (PfState.Enabled c) (front c.paneLength) (StreamEnabled c)
      StreamEvent.Works .inner (Streams c) where
  enabled := fun _ _ he => he
  step := fun _ _ _ h he => h.step hi he
  works := fun _ _ _ _ _ _ _ hworks h => front_works hworks h
  passes := fun _ _ => rfl
  admits := fun _ _ _ he hen => ⟨hen.1, he.inner, hen.2⟩

end InOrderRun

namespace OutOfOrderRun

variable {S : Strategy N DIM} {R : Type} {x x' : OutOfOrderRun DIM}

/-- The out-of-order emitter passes on reconfigurations only where it receives them. -/
theorem front_works {paneLength : Nat} {e : SourceEvent S R} {es : List (PfEvent S R)}
    (hx : x.Sound) (hts : ∀ env row, e = .receive env row → 0 ≤ row.appTs) (hworks : e.Works)
    (h : front paneLength x e = some (x', es)) : ∀ e' ∈ es, ¬ e'.Reconfigures := by
  intro e' he'
  cases e with
  | receive env row =>
      cases hproc : x.process paneLength env (Tuple.createRegular row paneLength) with
      | mk y calls =>
          rw [front, hproc] at h
          obtain ⟨rfl, rfl⟩ := Prod.mk.inj (Option.some.inj h)
          -- a tuple may close panes first, and is then scheduled or dropped
          obtain ⟨-, -, -, pre, hpre, hcalls⟩ :=
            hx.process paneLength env (hts env row rfl) hproc
          have hpunctuation : ∀ e ∈ pre, ¬ (PfEvent.plq e : PfEvent S R).Reconfigures := by
            intro e he
            rcases hpre with rfl | ⟨p, -, -, rfl⟩
            · exact absurd he List.not_mem_nil
            · rw [List.mem_singleton.mp he]
              exact id
          obtain ⟨e, he, rfl⟩ := List.mem_map.mp he'
          rcases hcalls with ⟨rfl, -⟩ | ⟨-, rfl, -⟩
          · exact hpunctuation e he
          · rcases List.mem_append.mp he with he | he
            · exact hpunctuation e he
            · rw [List.mem_singleton.mp he]
              exact id
  | finish =>
      obtain ⟨rfl, rfl⟩ := Prod.mk.inj (Option.some.inj h)
      rw [List.mem_singleton.mp he']
      exact id
  | inner e =>
      obtain ⟨rfl, rfl⟩ := Prod.mk.inj (Option.some.inj h)
      rw [List.mem_singleton.mp he']
      exact hworks

/-- **The out-of-order emitter** admits the reconfigurations if each pane without tuples has no
partition. -/
theorem fits [PrefQuery (Row ℚ DIM) R] {c : PlqParams} {Rf : S.Refinement} (hi : c.iop = false)
    (hfill : ∀ s, Rf.Inv s → (S.base s).Filled) :
    Elastic.Fits (S := S) (R := R) c (PfState.Admits c Rf) (front c.paneLength)
      (StreamEnabled true c) SourceEvent.Works .inner (Streams c Rf) where
  enabled := fun _ _ he => he.1
  step := fun _ _ _ h he => h.step hi (fun _ => hfill) he
  works := by
    intro f σ e f' es h he hworks hfront
    refine front_works h.toSound (fun env row hrow => ?_) hworks hfront
    rw [hrow] at he
    exact he.2.2
  passes := fun _ _ => rfl
  admits := fun _ _ _ he hen => ⟨hen.1, he.inner, fun hf => absurd hf Bool.true_eq_false.mp, hen.2⟩

end OutOfOrderRun

/-! ## The elastic pattern -/

/-- No run of the elastic pattern with in-order workers aborts; controller, resource pool and emitters
agree, and the client is answered. -/
def ElasticInOrder {k : Nat} (S : Strategy N (k + 2)) (pf : PaneFarming)
    (wlen wslide nwPlq nwWlq : Nat) : Prop :=
  ∀ (pidEnabled : Bool) (es : List (ControlEvent S (StreamEvent S (SkySet ℚ k)))),
    Run.Valid (Elastic.exec (inOrder pf.wp pf.sp pf.paneLen) (InOrderRun.front pf.paneLen))
      (Elastic.Enabled (InOrderRun.StreamEnabled (inOrder pf.wp pf.sp pf.paneLen))
        StreamEvent.Works) es
      ((Elastic.new N nwPlq nwWlq, InOrderRun.init _ pidEnabled), PfState.init _ _ nwPlq nwWlq) →
    ∃ x f σ, Run.run
        (Elastic.exec (inOrder pf.wp pf.sp pf.paneLen) (InOrderRun.front pf.paneLen)) es
        ((Elastic.new N nwPlq nwWlq, InOrderRun.init _ pidEnabled),
          PfState.init _ _ nwPlq nwWlq) = .ok ((x, f), σ) ∧
      x.Coherent σ ∧ Answers pf.paneLen wlen wslide f σ

/-- No run of the elastic pattern with out-of-order workers aborts; controller, resource pool and
emitters agree, and the client is answered. -/
def ElasticOutOfOrder {k : Nat} (S : Strategy N (k + 2)) (pf : PaneFarming)
    (wlen wslide nwPlq nwWlq : Nat) : Prop :=
  ∀ (pidEnabled : Bool) (es : List (ControlEvent S (SourceEvent S (SkySet ℚ k)))),
    Run.Valid (Elastic.exec (oop pf.wp pf.sp pf.paneLen) (OutOfOrderRun.front pf.paneLen))
      (Elastic.Enabled (OutOfOrderRun.StreamEnabled true (oop pf.wp pf.sp pf.paneLen))
        SourceEvent.Works) es
      ((Elastic.new N nwPlq nwWlq, OutOfOrderRun.init _ pidEnabled),
        PfState.init _ _ nwPlq nwWlq) →
    ∃ x f σ, Run.run
        (Elastic.exec (oop pf.wp pf.sp pf.paneLen) (OutOfOrderRun.front pf.paneLen)) es
        ((Elastic.new N nwPlq nwWlq, OutOfOrderRun.init _ pidEnabled),
          PfState.init _ _ nwPlq nwWlq) = .ok ((x, f), σ) ∧
      x.Coherent σ ∧ OutOfOrderAnswers pf wlen wslide f σ

/-- **Every strategy that refines the ledger** keeps up with the controller, in order. -/
theorem Strategy.Refinement.elasticInOrder {k : Nat} {S : Strategy N (k + 2)} (Rf : S.Refinement)
    {wlen wslide : Nat} {pf : PaneFarming} (hpane : 1 ≤ pf.paneLen)
    (hwp : pf.wp * pf.paneLen = wlen) (hslide : pf.sp * pf.paneLen = wslide) (hsp : 1 ≤ pf.sp)
    (hle : pf.sp ≤ pf.wp) (hN : 2 ≤ N) {nwPlq nwWlq : Nat} (hplq : 1 ≤ nwPlq) (hwlq : 1 ≤ nwWlq)
    (hsum : nwPlq + nwWlq ≤ N) : ElasticInOrder S pf wlen wslide nwPlq nwWlq := by
  intro pidEnabled events hevents
  have hplqN : nwPlq ≤ N := by omega
  have hwlqN : nwWlq ≤ N := by omega
  -- the pattern answers for every run of its own events, so for those the controller leads to
  have hanswer := Rf.inOrderWindows hpane hwp hslide hsp hle hplq hplqN hwlq hwlqN
  have hfits : Elastic.Fits (S := S) (R := SkySet ℚ k) _ _ _ _ _ _ _ :=
    InOrderRun.fits (c := inOrder pf.wp pf.sp pf.paneLen) rfl
  obtain ⟨x, f, σ, hrun, hreached, hcoherent, h⟩ := hfits.run hN hplq hwlq hsum Rf
    (fun es hes => (hanswer es hes).imp fun _ h => h.1)
    (InOrderRun.init_streams _ S pidEnabled nwPlq nwWlq) hevents
  exact ⟨x, f, σ, hrun, hcoherent,
    h.answers Rf hpane hwp hslide hsp hle hplq hplqN hwlq hwlqN hreached⟩

/-- **Every strategy that gives no partition to a pane without tuples** keeps up with the controller, out
of order. -/
theorem Strategy.Refinement.elasticOutOfOrder {k : Nat} {S : Strategy N (k + 2)}
    (Rf : S.Refinement) (hfill : ∀ s, Rf.Inv s → (S.base s).Filled) {wlen wslide : Nat}
    {pf : PaneFarming} (hpane : 1 ≤ pf.paneLen) (hwp : pf.wp * pf.paneLen = wlen)
    (hslide : pf.sp * pf.paneLen = wslide) (hsp : 1 ≤ pf.sp) (hle : pf.sp ≤ pf.wp) (hN : 2 ≤ N)
    {nwPlq nwWlq : Nat} (hplq : 1 ≤ nwPlq) (hwlq : 1 ≤ nwWlq) (hsum : nwPlq + nwWlq ≤ N) :
    ElasticOutOfOrder S pf wlen wslide nwPlq nwWlq := by
  intro pidEnabled events hevents
  have hplqN : nwPlq ≤ N := by omega
  have hwlqN : nwWlq ≤ N := by omega
  -- removals fit as well: a pane without tuples has no partition
  have hfits : Elastic.Fits (S := S) (R := SkySet ℚ k) _ (PfState.Admits _ Rf) _ _ _ _ _ :=
    OutOfOrderRun.fits (c := oop pf.wp pf.sp pf.paneLen) rfl hfill
  obtain ⟨x, f, σ, hrun, hreached, hcoherent, h⟩ := hfits.run hN hplq hwlq hsum Rf
    (fun es hes => by
      obtain ⟨σ, -, -, hσ, -⟩ := Rf.runAdmitted (SkySet ℚ k) pf.wp pf.sp pf.paneLen hsp hle hplq hplqN
        hwlq hwlqN hes
      exact ⟨σ, hσ⟩)
    (OutOfOrderRun.init_streams _ Rf pidEnabled hplq hplqN nwWlq) hevents
  exact ⟨x, f, σ, hrun, hcoherent,
    h.answers hpane hwp hslide hsp hle hplq hplqN hwlq hwlqN hreached⟩

/-- **The elastic pattern in order.** Whatever the controller decides before and after the end of the
stream, and whenever its messages are received, no run aborts with any of the three strategies,
controller, resource pool and emitters agree, and the client gets the skylines of the windows of the tuples
that the emitter lets through. -/
theorem elastic_inOrder {k wlen wslide : Nat} (hslide : 1 ≤ wslide) (hlen : wslide ≤ wlen) (hN : 2 ≤ N)
    {nwPlq nwWlq : Nat} (hplq : 1 ≤ nwPlq) (hwlq : 1 ≤ nwWlq) (hsum : nwPlq + nwWlq ≤ N) :
    ∃ pf, PaneFarming.new wlen wslide = some pf ∧
      ElasticInOrder (PbRrSched.strategy N (k + 2)) pf wlen wslide nwPlq nwWlq ∧
      ElasticInOrder (TbRrSched.strategy N (k + 2)) pf wlen wslide nwPlq nwWlq ∧
      ElasticInOrder (AdaptiveSched.strategy N (k + 2)) pf wlen wslide nwPlq nwWlq := by
  obtain ⟨pf, hpf, hpane, hwp, hsp, hone, hle⟩ := PaneFarming.new_spec hslide hlen
  exact ⟨pf, hpf,
    (PbRrSched.refinement N (k + 2)).elasticInOrder hpane hwp hsp hone hle hN hplq hwlq hsum,
    (TbRrSched.refinement N (k + 2)).elasticInOrder hpane hwp hsp hone hle hN hplq hwlq hsum,
    (AdaptiveSched.refinement N (k + 2)).elasticInOrder hpane hwp hsp hone hle hN hplq hwlq hsum⟩

/-- A control step with the given variations, all the queues being empty. -/
def idleStep {S : Strategy N DIM} {ψ : Type} (plqVar wlqVar : ℚ) : ControlEvent S ψ :=
  .control ⟨plqVar, wlqVar, fun _ _ => 0, fun _ _ => 0⟩

/-- A tuple on two dimensions comes from the Generator. -/
def comesInOrder (ts x y : ℚ) :
    ControlEvent (TbRrSched.strategy 5 2) (StreamEvent (TbRrSched.strategy 5 2) (SkySet ℚ 0)) :=
  .work (.receive (fun _ => none) (fun _ => ()) ⟨![x, y], ts, 0⟩)

/-- The first stage acquires a worker between two tuples, and after the end of the stream the second
stage acquires one of those released. -/
def elasticStream :
    List (ControlEvent (TbRrSched.strategy 5 2) (StreamEvent (TbRrSched.strategy 5 2) (SkySet ℚ 0))) :=
  [comesInOrder 0 1 3, idleStep (3 / 2) 1, .plqReconf (), comesInOrder 500 2 4,
    comesInOrder 1000 3 1, .work (.finish fun _ => ()), idleStep 1 (3 / 2), .wlqReconf] ++
    ([.plq (.worker 0), .plq (.worker 0), .plq (.worker 0), .plq (.worker 0), .plq (.worker 1),
      .plq (.worker 1), .plq (.worker 2), .plq (.worker 3), .plq (.worker 4), .arrive 0,
      .wlq (.exec 4), .wlq (.feedback 4), .arrive 0, .wlq (.exec 4), .wlq (.feedback 4), .arrive 1,
      .eos 0, .eos 1, .eos 2, .eos 3, .wlq (.exec 0), .wlq (.feedback 0), .wlq (.exec 0),
      .wlq (.feedback 0), .eos 4, .wlq (.collect 0)] : List (PfEvent _ _)).map fun e => .work (.inner e)

/-- The controller, the emitter and the pattern after that. -/
def elasticStreamEnd :
    (Elastic 5 × InOrderRun 2) × PfState (TbRrSched.strategy 5 2) (SkySet ℚ 0) :=
  Run.result (Run.run (Elastic.exec (inOrder 2 1 1) (InOrderRun.front 1)) elasticStream
    ((Elastic.new 5 1 1, InOrderRun.init _ false), PfState.init _ _ 1 1)) (by decide +kernel)

/-- All the workers of the first stage are released, the second one has two, and the client has got the
one window of 2 ms that there is. -/
theorem elastic_inOrder_witness :
    (elasticStreamEnd.1.1.controller.nwPlq = 0 ∧ elasticStreamEnd.1.1.controller.nwWlq = 2 ∧
      elasticStreamEnd.2.results.map Rset.id = [0]) ∧
      elasticStreamEnd.1.1.Coherent elasticStreamEnd.2 ∧
      Answers 1 2 1 elasticStreamEnd.1.2 elasticStreamEnd.2 := by
  obtain ⟨pf, hpf, -, hstream, -⟩ := elastic_inOrder (N := 5) (k := 0) (le_refl 1) (Nat.le_succ 1)
    (by decide) (le_refl 1) (le_refl 1) (by decide)
  -- windows of two panes of length one
  have hnew : PaneFarming.new 2 1 = some ⟨1, 2, 1⟩ := by simp [PaneFarming.new, gcd_eq]
  obtain rfl := Option.some.inj (hpf.symm.trans hnew)
  obtain ⟨x, f, σ, hrun, hanswers⟩ := hstream false elasticStream (by decide +kernel)
  have hend : ((x, f), σ) = elasticStreamEnd :=
    Except.ok.inj (hrun.symm.trans (Run.eq_ok_result _ _))
  refine ⟨by decide +kernel, ?_⟩
  rw [← hend]
  exact hanswers

/-- **The elastic pattern out of order.** With pane-based round-robin, and whatever the controller decides
before and after the end of the stream, no run aborts, controller, resource pool and emitters agree, and
the client gets the skylines of the windows of the tuples that are not dropped. -/
theorem elastic_outOfOrder {k wlen wslide : Nat} (hslide : 1 ≤ wslide) (hlen : wslide ≤ wlen)
    (hN : 2 ≤ N) {nwPlq nwWlq : Nat} (hplq : 1 ≤ nwPlq) (hwlq : 1 ≤ nwWlq)
    (hsum : nwPlq + nwWlq ≤ N) :
    ∃ pf, PaneFarming.new wlen wslide = some pf ∧
      ElasticOutOfOrder (PbRrSched.strategy N (k + 2)) pf wlen wslide nwPlq nwWlq := by
  obtain ⟨pf, hpf, hpane, hwp, hsp, hone, hle⟩ := PaneFarming.new_spec hslide hlen
  refine ⟨pf, hpf, ?_⟩
  refine (PbRrSched.refinement N (k + 2)).elasticOutOfOrder (fun s hs p hp hz => ?_) hpane hwp hsp hone
    hle hN hplq hwlq hsum
  by_contra hne
  exact PbRrSched.Inv.filled hs p hp hne hz

/-- A tuple on two dimensions comes from the Generator, and its punctuation is sent. -/
def comesOutOfOrder (ts x y : ℚ) :
    ControlEvent (PbRrSched.strategy 5 2) (SourceEvent (PbRrSched.strategy 5 2) (SkySet ℚ 0)) :=
  .work (.receive ⟨fun _ => none, true, (), ()⟩ ⟨![x, y], ts, 0⟩)

/-- The first stage acquires a worker between two tuples, the third tuple is late, and after the end of
the stream the second stage acquires one of the workers released. -/
def elasticLateStream :
    List (ControlEvent (PbRrSched.strategy 5 2) (SourceEvent (PbRrSched.strategy 5 2) (SkySet ℚ 0))) :=
  [comesOutOfOrder 500 1 3, idleStep (3 / 2) 1, .plqReconf (), comesOutOfOrder 1500 2 4,
    comesOutOfOrder 700 0 0, comesOutOfOrder 2500 3 1, .work .finish, idleStep 1 (3 / 2),
    .wlqReconf] ++
    ([.plq (.worker 0), .plq (.worker 0), .plq (.worker 0), .plq (.worker 0), .plq (.worker 0),
      .plq (.worker 1), .plq (.worker 1), .plq (.worker 1), .plq (.worker 2), .plq (.worker 3),
      .plq (.worker 4), .arrive 0, .wlq (.exec 4), .wlq (.feedback 4), .arrive 0, .wlq (.exec 4),
      .wlq (.feedback 4), .arrive 1, .wlq (.exec 4), .wlq (.feedback 4), .wlq (.collect 4), .eos 0,
      .eos 1, .eos 2, .eos 3, .wlq (.exec 0), .wlq (.feedback 0), .wlq (.exec 0),
      .wlq (.feedback 0), .eos 4, .wlq (.collect 0)] : List (PfEvent _ _)).map fun e => .work (.inner e)

/-- The controller, the emitter and the pattern after that. -/
def elasticLateStreamEnd :
    (Elastic 5 × OutOfOrderRun 2) × PfState (PbRrSched.strategy 5 2) (SkySet ℚ 0) :=
  Run.result (Run.run (Elastic.exec (oop 2 1 1) (OutOfOrderRun.front 1)) elasticLateStream
    ((Elastic.new 5 1 1, OutOfOrderRun.init _ false), PfState.init _ _ 1 1)) (by decide +kernel)

/-- All the workers of the first stage are released, the second one has two, and the client has got the
two windows of 2 ms that there are; one tuple is dropped. -/
theorem elastic_outOfOrder_witness :
    (elasticLateStreamEnd.1.1.controller.nwPlq = 0 ∧
      elasticLateStreamEnd.1.1.controller.nwWlq = 2 ∧
      elasticLateStreamEnd.1.2.emitter.droppedTotal = 1 ∧
      elasticLateStreamEnd.2.results.map Rset.id = [0, 1]) ∧
      elasticLateStreamEnd.1.1.Coherent elasticLateStreamEnd.2 ∧
      OutOfOrderAnswers ⟨1, 2, 1⟩ 2 1 elasticLateStreamEnd.1.2 elasticLateStreamEnd.2 := by
  obtain ⟨pf, hpf, hstream⟩ := elastic_outOfOrder (N := 5) (k := 0) (le_refl 1) (Nat.le_succ 1)
    (by decide) (le_refl 1) (le_refl 1) (by decide)
  -- windows of two panes of length one
  have hnew : PaneFarming.new 2 1 = some ⟨1, 2, 1⟩ := by simp [PaneFarming.new, gcd_eq]
  obtain rfl := Option.some.inj (hpf.symm.trans hnew)
  obtain ⟨x, f, σ, hrun, hanswers⟩ := hstream false elasticLateStream (by decide +kernel)
  have hend : ((x, f), σ) = elasticLateStreamEnd :=
    Except.ok.inj (hrun.symm.trans (Run.eq_ok_result _ _))
  refine ⟨by decide +kernel, ?_⟩
  rw [← hend]
  exact hanswers

end ElasticPPQ
