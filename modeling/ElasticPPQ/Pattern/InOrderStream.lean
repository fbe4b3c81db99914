import ElasticPPQ.Lib.Driver
import ElasticPPQ.Pattern.InOrder
import ElasticPPQ.Plq.ReorderGuarantee

/-! # From the stream to the windows, in order

The in-order emitter in front of the pattern: the tuples that leave its reordering buffer are scheduled
one after the other, in the order in which they leave it, and the end of the stream flushes it. What the
emitter passes on is always a run of the pattern, so the client gets the windows of the tuples that have
been kept; of a stream in order that are all of them (`inOrder_stream`). -/

namespace ElasticPPQ

open PlqState

variable {N DIM : Nat}

/-- What happens in the pattern without its emitter: reconfigurations, the workers of the first stage,
and the second stage. -/
def PfEvent.Inner {S : Strategy N DIM} {R : Type} : PfEvent S R → Prop
  | .plq (.tuple _ _) | .plq (.progress _ _ _) | .plq .finish => False
  | _ => True

instance PfEvent.decidableInner {S : Strategy N DIM} {R : Type} :
    (e : PfEvent S R) → Decidable e.Inner
  | .plq (.tuple _ _) | .plq (.progress _ _ _) | .plq .finish => isFalse not_false
  | .plq (.add _) | .plq (.remove _ _) | .plq (.worker _) | .arrive _ | .eos _ | .wlq _ =>
      isTrue trivial

/-- What may happen to the pattern with its in-order emitter. -/
inductive StreamEvent (S : Strategy N DIM) (R : Type)
  /-- A tuple comes from the Generator; `env i` is what the strategy reads at the `i`-th tuple that
  leaves the buffer. -/
  | receive (pid : ℚ → Option ℚ) (env : Nat → S.Env) (row : Row ℚ DIM)
  /-- The stream is complete. -/
  | finish (env : Nat → S.Env)
  /-- Anything else. -/
  | inner (e : PfEvent S R)

namespace InOrderRun

variable {S : Strategy N DIM} {R : Type}

/-- The tuples that have left the buffer between `x` and `x'` are scheduled. -/
def scheduling (R : Type) (env : Nat → S.Env) (x x' : InOrderRun DIM) : List (PfEvent S R) :=
  (x'.scheduled.drop x.scheduled.length).zipIdx.map fun y => .plq (.tuple (env y.2) y.1)

/-- `svc` of the emitter: what it does to its own fields, and what it passes on. -/
def front (paneLength : Nat) (x : InOrderRun DIM) :
    StreamEvent S R → Option (InOrderRun DIM × List (PfEvent S R))
  | .receive pid env row => (x.process paneLength pid row).map fun x' => (x', scheduling R env x x')
  | .finish env => x.flush.map fun x' => (x', scheduling R env x x' ++ [.plq .finish])
  | .inner e => some (x, [e])

/-- What may come next. -/
def StreamPossible (c : PlqParams) (x : InOrderRun DIM × PfState S R) : StreamEvent S R → Prop
  | .receive _ _ row => x.2.plq.ended = false ∧ 0 ≤ row.appTs
  | .finish _ => x.2.plq.ended = false
  | .inner e => e.Inner ∧ x.2.Possible c e

instance decidableStreamPossible (c : PlqParams) (x : InOrderRun DIM × PfState S R) :
    (e : StreamEvent S R) → Decidable (StreamPossible c x e)
  | .receive _ _ row => inferInstanceAs (Decidable (x.2.plq.ended = false ∧ 0 ≤ row.appTs))
  | .finish _ => inferInstanceAs (Decidable (x.2.plq.ended = false))
  | .inner e => inferInstanceAs (Decidable (e.Inner ∧ x.2.Possible c e))

/-- When an event may happen. -/
def StreamEnabled (c : PlqParams) (x : InOrderRun DIM × PfState S R) (e : StreamEvent S R) : Prop :=
  x.2.wlq.emitter.noReturn = false ∧ StreamPossible c x e

instance decidableStreamEnabled (c : PlqParams) (x : InOrderRun DIM × PfState S R)
    (e : StreamEvent S R) : Decidable (StreamEnabled c x e) :=
  inferInstanceAs (Decidable (_ ∧ _))

/-- The emitter and the pattern together. -/
def streamExec [PrefQuery (Row ℚ DIM) R] (c : PlqParams) :
    InOrderRun DIM × PfState S R → StreamEvent S R →
      Except WlqError (InOrderRun DIM × PfState S R) :=
  Run.drive (front c.paneLength) (PfState.exec c) .abort

end InOrderRun

/-- What an event of the first stage does to the record of the stream. -/
theorem PlqState.exec_log {S : Strategy N DIM} {R : Type} [PrefQuery (Row ℚ DIM) R] {c : PlqParams}
    {σ σ' : PlqState S R} {e : PlqEvent S} (h : σ.exec c e = some σ') :
    σ'.scheduled = σ.scheduled ++ scheduledBy e ∧
      σ'.ended = match e with
        | .finish => true
        | _ => σ.ended := by
  -- only a tuple is logged and only `finish` ends the stage
  cases e with
  | tuple env t =>
      obtain ⟨x, -, rfl⟩ := Option.map_eq_some_iff.mp h
      exact ⟨rfl, rfl⟩
  | progress env ts pId =>
      obtain ⟨x, -, rfl⟩ := Option.map_eq_some_iff.mp h
      exact ⟨(List.append_nil _).symm, rfl⟩
  | add ws =>
      obtain ⟨x, -, rfl⟩ := Option.map_eq_some_iff.mp h
      exact ⟨(List.append_nil _).symm, rfl⟩
  | remove env ws =>
      obtain ⟨x, -, rfl⟩ := Option.map_eq_some_iff.mp h
      exact ⟨(List.append_nil _).symm, rfl⟩
  | finish =>
      obtain rfl := Option.some.inj h
      exact ⟨(List.append_nil _).symm, rfl⟩
  | worker w =>
      -- a worker's step changes neither the log nor the end
      rcases exec_worker h with ⟨-, rfl⟩ | ⟨m, ms, y, -, -, rfl⟩
      · exact ⟨(List.append_nil _).symm, rfl⟩
      · exact ⟨(List.append_nil _).symm, rfl⟩

namespace PfState

variable {S : Strategy N DIM} {R : Type} [PrefQuery (Row ℚ DIM) R] {c : PlqParams}
  {σ σ' : PfState S R}

/-- An event of the first stage. -/
theorem exec_plq {e : PlqEvent S} (h : σ.exec c (.plq e) = .ok σ') :
    σ.plq.exec c e = some σ'.plq := by
  simp only [exec] at h
  cases he : σ.plq.exec c e with
  | none =>
      rw [he] at h
      cases h
  | some s =>
      rw [he] at h
      cases h
      rfl

/-- An event of the second stage. -/
theorem exec_not_plq {e : PfEvent S R} (he : ∀ e', e ≠ .plq e') (h : σ.exec c e = .ok σ') :
    σ'.plq = σ.plq := by
  -- the other events write fields beyond the first stage only
  cases e with
  | plq e => exact absurd rfl (he e)
  | arrive w =>
      simp only [exec] at h
      split at h
      · cases h
        rfl
      · obtain ⟨s, -, rfl⟩ := Run.exists_of_map_eq_ok h
        rfl
  | eos w =>
      simp only [exec] at h
      obtain ⟨s, -, rfl⟩ := Run.exists_of_map_eq_ok h
      rfl
  | wlq e =>
      simp only [exec] at h
      obtain ⟨s, -, rfl⟩ := Run.exists_of_map_eq_ok h
      rfl

/-- The events that do not come from the emitter schedule no tuple, and do not end the stream. -/
theorem exec_inner {e : PfEvent S R} (he : e.Inner) (h : σ.exec c e = .ok σ') :
    σ'.plq.scheduled = σ.plq.scheduled ∧ σ'.plq.ended = σ.plq.ended := by
  cases e with
  | plq e =>
      obtain ⟨hsched, hend⟩ := exec_log (exec_plq h)
      -- the inner events of the first stage are its reconfigurations and its workers
      cases e with
      | add ws => exact ⟨hsched.trans (List.append_nil _), hend⟩
      | remove env ws => exact ⟨hsched.trans (List.append_nil _), hend⟩
      | worker w => exact ⟨hsched.trans (List.append_nil _), hend⟩
      | tuple env t => exact he.elim
      | progress env ts pId => exact he.elim
      | finish => exact he.elim
  | arrive w =>
      rw [exec_not_plq (fun e' he' => by cases he') h]
      exact ⟨rfl, rfl⟩
  | eos w =>
      rw [exec_not_plq (fun e' he' => by cases he') h]
      exact ⟨rfl, rfl⟩
  | wlq e =>
      rw [exec_not_plq (fun e' he' => by cases he') h]
      exact ⟨rfl, rfl⟩

/-- **Tuples in order are a run of the pattern.** -/
theorem valid_tuples (hi : c.iop = true) (hret : σ.wlq.emitter.noReturn = false)
    (hend : σ.plq.ended = false) (env : Nat → S.Env) {l : List (Tuple DIM × Nat)}
    (hregular : ∀ y ∈ l, y.1.type = .regular ∧ y.1.paneId = Tuple.paneOf c.paneLength y.1.appTs)
    (hord : KSlackBuffer.Sorted (σ.plq.scheduled ++ l.map Prod.fst)) :
    Run.Valid (exec c) (Enabled c) (l.map fun y => .plq (.tuple (env y.2) y.1)) σ ∧
      ∀ σ', Run.run (exec c) (l.map fun y => .plq (.tuple (env y.2) y.1)) σ = .ok σ' →
        σ'.wlq = σ.wlq ∧ σ'.plq.scheduled = σ.plq.scheduled ++ l.map Prod.fst ∧
          σ'.plq.ended = false := by
  -- induction on the tuples released, which come in the order of their timestamps
  induction l generalizing σ with
  | nil =>
      refine ⟨trivial, fun σ' h => ?_⟩
      obtain rfl := Except.ok.inj h
      exact ⟨rfl, (List.append_nil _).symm, hend⟩
  | cons y l ih =>
      obtain ⟨hty, hpane⟩ := hregular y List.mem_cons_self
      have he : σ.Enabled c (.plq (.tuple (env y.2) y.1)) := by
        refine ⟨hret, hend, hty, ?_⟩
        rw [if_pos hi]
        refine ⟨hpane, fun u hu => ?_⟩
        -- the tuple is not older than those already scheduled
        exact (List.pairwise_append.mp hord).2.2 u hu y.1 List.mem_cons_self
      cases hx : σ.exec c (.plq (.tuple (env y.2) y.1)) with
      | error x =>
          refine ⟨⟨he, by rw [hx]; exact trivial⟩, fun σ' h => ?_⟩
          rw [List.map_cons, Run.run, hx] at h
          cases h
      | ok σ₁ =>
          obtain ⟨hsched, hend₁⟩ := exec_log (exec_plq hx)
          have hsched : σ₁.plq.scheduled = σ.plq.scheduled ++ [y.1] := hsched
          have hwlq : σ₁.wlq = σ.wlq := wlq_exec_of_none (e := .plq _) rfl hx
          -- the WLQ has not moved, so the feedback branch has not been left without a return
          obtain ⟨hvalid, hafter⟩ := ih (σ := σ₁) (hwlq ▸ hret) (hend₁.trans hend)
            (fun z hz => hregular z (List.mem_cons_of_mem _ hz)) (by
              rw [hsched, List.append_assoc]
              exact hord)
          refine ⟨(Run.valid_cons hx).mpr ⟨he, hvalid⟩, fun σ' h => ?_⟩
          rw [List.map_cons, Run.run_cons hx] at h
          obtain ⟨hw', hs', hend'⟩ := hafter σ' h
          rw [hs', hsched, List.append_assoc]
          exact ⟨hw'.trans hwlq, rfl, hend'⟩

end PfState

/-! ## What the emitter passes on -/

namespace InOrderRun

variable {S : Strategy N DIM} {R : Type} [PrefQuery (Row ℚ DIM) R] {c : PlqParams}
  {x x' : InOrderRun DIM} {σ : PfState S R}

/-- The pattern has been passed what the emitter has scheduled, and at the end of the stream that is
everything. -/
structure Streams (c : PlqParams) (x : InOrderRun DIM) (σ : PfState S R) : Prop where
  kept : x.Kept
  late : ∀ t ∈ x.discarded, Late 0 0 x.received t
  guarded : σ.plq.ended = false → x.Guarded 0 0 0
  scheduled : σ.plq.scheduled = x.scheduled
  regular : ∀ t ∈ x.received, ∃ row, 0 ≤ row.appTs ∧ t = Tuple.createRegular row c.paneLength
  flushed : σ.plq.ended = true → x.emitter.inUse.bufferedTuples = []

omit [PrefQuery (Row ℚ DIM) R] in
/-- The emitter and the pattern as constructed. -/
theorem init_streams [PrefQuery (Row ℚ DIM) R] (c : PlqParams) (S : Strategy N DIM) (pidEnabled : Bool)
    (nwPlq nwWlq : Nat) : Streams c (init DIM pidEnabled) (PfState.init S R nwPlq nwWlq) where
  kept := init_kept DIM pidEnabled
  late := fun _ ht => absurd ht List.not_mem_nil
  guarded := fun _ => (init_kept DIM pidEnabled).guarded 0
  scheduled := rfl
  regular := fun _ ht => absurd ht List.not_mem_nil
  flushed := fun h => nomatch h

/-- A tuple that comes in adds to what has been scheduled. -/
theorem process_scheduled {paneLength : Nat} {pid : ℚ → Option ℚ} {row : Row ℚ DIM}
    (h : x.process paneLength pid row = some x') : ∃ l, x'.scheduled = x.scheduled ++ l := by
  obtain ⟨y, -, rfl⟩ := Option.map_eq_some_iff.mp h
  exact ⟨_, rfl⟩

/-- So does the flush. -/
theorem flush_scheduled (h : x.flush = some x') : ∃ l, x'.scheduled = x.scheduled ++ l := by
  obtain ⟨y, -, rfl⟩ := Option.map_eq_some_iff.mp h
  exact ⟨_, rfl⟩

/-- **What leaves the buffer is a run of the pattern.** -/
theorem Streams.scheduling (h : Streams c x σ) (hi : c.iop = true)
    (hret : σ.wlq.emitter.noReturn = false) (hend : σ.plq.ended = false) (hkept : x'.Kept)
    (hregular : ∀ t ∈ x'.received, ∃ row : Row ℚ DIM, 0 ≤ row.appTs ∧
      t = Tuple.createRegular row c.paneLength)
    (hsched : ∃ l, x'.scheduled = x.scheduled ++ l) (env : Nat → S.Env) :
    Run.Valid (PfState.exec c) (PfState.Enabled c) (InOrderRun.scheduling R env x x') σ ∧
      ∀ σ', Run.run (PfState.exec c) (InOrderRun.scheduling R env x x') σ = .ok σ' →
        σ'.wlq = σ.wlq ∧ σ'.plq.scheduled = x'.scheduled ∧ σ'.plq.ended = false := by
  obtain ⟨l, hl⟩ := hsched
  have hdrop : x'.scheduled.drop x.scheduled.length = l := by
    rw [hl, List.drop_left]
  have hfst : l.zipIdx.map Prod.fst = l := List.zipIdx_map_fst 0 l
  unfold InOrderRun.scheduling
  rw [hdrop]
  have hvalid := PfState.valid_tuples (σ := σ) hi hret hend env (l := l.zipIdx) (fun y hy => ?_) (by
    rw [h.scheduled, hfst, ← hl]
    exact hkept.accounts.ordered)
  · rw [h.scheduled, hfst, ← hl] at hvalid
    exact hvalid
  · -- a scheduled tuple has been received
    have hmem : y.1 ∈ x'.scheduled := by
      rw [hl]
      refine List.mem_append_right _ ?_
      rw [← hfst]
      exact List.mem_map_of_mem hy
    have hrec : y.1 ∈ x'.received :=
      hkept.accounts.perm.subset (List.mem_append_left _ (List.mem_append_left _ hmem))
    obtain ⟨row, -, hrow⟩ := hregular y.1 hrec
    rw [hrow]
    exact ⟨rfl, rfl⟩

/-- **What the emitter passes on** at an event is always a run of the pattern. -/
theorem Streams.step (h : Streams c x σ) (hi : c.iop = true) {e : StreamEvent S R}
    (he : StreamEnabled c (x, σ) e) :
    ∃ x' es, front c.paneLength x e = some (x', es) ∧
      Run.Valid (PfState.exec c) (PfState.Enabled c) es σ ∧
      ∀ σ', Run.run (PfState.exec c) es σ = .ok σ' → Streams c x' σ' := by
  obtain ⟨hret, he⟩ := he
  -- a tuple read, the end of the stream, or an event behind the emitter
  cases e with
  | receive pid env row =>
      obtain ⟨hend, hts⟩ := he
      obtain ⟨x', hx', hguarded, hrec, -, -⟩ :=
        (h.guarded hend).process c.paneLength pid row (Or.inl le_rfl)
      -- every tuple ever received was made from a row of the stream
      have hregular : ∀ t ∈ x'.received, ∃ row : Row ℚ DIM, 0 ≤ row.appTs ∧
          t = Tuple.createRegular row c.paneLength := by
        rw [hrec]
        exact Tuple.regular_append h.regular hts
      obtain ⟨hvalid, hafter⟩ := h.scheduling hi hret hend hguarded.kept hregular
        (process_scheduled hx') env
      refine ⟨x', _, by rw [front, hx']; rfl, hvalid, fun σ' hσ' => ?_⟩
      obtain ⟨-, hsched, hend'⟩ := hafter σ' hσ'
      exact ⟨hguarded.kept, hguarded.discarded, fun _ => hguarded, hsched, hregular,
        fun hended => absurd (hend'.symm.trans hended) Bool.false_ne_true⟩
  | finish env =>
      obtain ⟨x', hx', hkept, hrec, hnil, hlate⟩ := (h.guarded he).flush
      have hregular : ∀ t ∈ x'.received, ∃ row : Row ℚ DIM, 0 ≤ row.appTs ∧
          t = Tuple.createRegular row c.paneLength := by
        rw [hrec]
        exact h.regular
      obtain ⟨hvalid, hafter⟩ := h.scheduling hi hret he hkept hregular (flush_scheduled hx')
        env
      refine ⟨x', _, by rw [front, hx']; rfl, ?_, fun σ' hσ' => ?_⟩
      -- the buffer is released before END, so the stage still runs when END is sent
      · refine hvalid.append fun σ₁ hσ₁ => ?_
        obtain ⟨hwlq, -, hend₁⟩ := hafter σ₁ hσ₁
        exact .one ⟨by rw [hwlq]; exact hret, hend₁⟩
      · obtain ⟨σ₁, hσ₁, hfinish⟩ := Run.exists_of_run_append hσ'
        obtain ⟨hlog, hend'⟩ := PlqState.exec_log (PfState.exec_plq (Run.exec_of_run hfinish))
        have hend' : σ'.plq.ended = true := hend'
        refine ⟨hkept, hlate, fun hopen => absurd (hend'.symm.trans hopen) Bool.true_eq_false.mp, ?_,
          hregular, fun _ => hnil⟩
        rw [hlog, (hafter σ₁ hσ₁).2.1]
        exact List.append_nil _
  -- nothing is read, so the buffer and its guarantee are those of before
  | inner e =>
      obtain ⟨hinner, he⟩ := he
      refine ⟨x, [e], rfl, .one ⟨hret, he⟩, fun σ' hσ' => ?_⟩
      obtain ⟨hsched, hend⟩ := PfState.exec_inner hinner (Run.exec_of_run hσ')
      exact ⟨h.kept, h.late, fun hopen => h.guarded (hend ▸ hopen), hsched.trans h.scheduled,
        h.regular, fun hended => h.flushed (hend ▸ hended)⟩

end InOrderRun

open InOrderRun

/-- Windows depend on which tuples there are, not on their order. -/
theorem PfState.timeRows_perm {l l' : List (Tuple DIM)} (h : l.Perm l') (wlen wslide k : Nat) :
    PfState.timeRows wlen wslide l k = PfState.timeRows wlen wslide l' k :=
  Multiset.coe_eq_coe.mpr ((h.filter _).map _)

/-- How the pattern answers the query for windows of `wlen` milliseconds that slide by `wslide`: the
client has the skylines of the tuples scheduled, which the emitter has let through. A tuple that it has
discarded is older than one received before. At the termination no window is missing and no tuple
unaccounted for, and the skylines are those of all the tuples received if these have come in order. -/
structure Answers {k : Nat} {S : Strategy N (k + 2)} (paneLen wlen wslide : Nat)
    (x : InOrderRun (k + 2)) (σ : PfState S (SkySet ℚ k)) : Prop where
  scheduled : σ.plq.scheduled = x.scheduled
  skylines : σ.TimeSkylines wlen wslide
  late : ∀ t ∈ x.discarded, Late 0 0 x.received t
  complete : σ.Terminated → σ.TimeComplete paneLen wlen wslide ∧
    (x.scheduled ++ x.discarded).Perm x.received
  inOrder : InOrder x.received → σ.Terminated → ∀ r ∈ σ.results,
    (r.set.s.rows : Multiset (Row ℚ (k + 2))) =
      (PfState.timeRows wlen wslide x.received r.id).filter fun p =>
        ∀ q ∈ PfState.timeRows wlen wslide x.received r.id, ¬ q.Dominates p

/-- No run of the pattern with its in-order emitter aborts, whatever the slack mechanism, and each
answers the query. -/
def InOrderStream {k : Nat} (S : Strategy N (k + 2)) (pf : PaneFarming)
    (wlen wslide nwPlq nwWlq : Nat) : Prop :=
  ∀ (pidEnabled : Bool) (es : List (StreamEvent S (SkySet ℚ k))),
    Run.Valid (streamExec (inOrder pf.wp pf.sp pf.paneLen))
      (StreamEnabled (inOrder pf.wp pf.sp pf.paneLen)) es
      (InOrderRun.init _ pidEnabled, PfState.init _ _ nwPlq nwWlq) →
    ∃ x σ, Run.run (streamExec (inOrder pf.wp pf.sp pf.paneLen)) es
        (InOrderRun.init _ pidEnabled, PfState.init _ _ nwPlq nwWlq) = .ok (x, σ) ∧
      Answers pf.paneLen wlen wslide x σ

/-- **What the client gets** where the emitter and the pattern have come together. -/
theorem InOrderRun.Streams.answers {k : Nat} {S : Strategy N (k + 2)} (Rf : S.Refinement)
    {wlen wslide : Nat} {pf : PaneFarming} (hpane : 1 ≤ pf.paneLen)
    (hwp : pf.wp * pf.paneLen = wlen) (hslide : pf.sp * pf.paneLen = wslide) (hsp : 1 ≤ pf.sp)
    (hle : pf.sp ≤ pf.wp) {nwPlq nwWlq : Nat} (hplq : 0 < nwPlq) (hplqN : nwPlq ≤ N)
    (hwlq : 0 < nwWlq) (hwlqN : nwWlq ≤ N) {x : InOrderRun (k + 2)} {σ : PfState S (SkySet ℚ k)}
    (h : Streams (inOrder pf.wp pf.sp pf.paneLen) x σ)
    (hσ : Run.Reached (PfState.exec (inOrder pf.wp pf.sp pf.paneLen))
      (PfState.Enabled (inOrder pf.wp pf.sp pf.paneLen)) (PfState.init _ _ nwPlq nwWlq) σ) :
    Answers pf.paneLen wlen wslide x σ := by
  obtain ⟨es, hes, hreached⟩ := hσ
  -- what is known of the run of the pattern
  obtain ⟨σ₁, hσ₁, hwindows⟩ :=
    Rf.inOrderWindows hpane hwp hslide hsp hle hplq hplqN hwlq hwlqN es hes
  obtain rfl := Except.ok.inj (hσ₁.symm.trans hreached)
  obtain ⟨σ₂, β, D, hσ₂, -, hended⟩ :=
    Rf.runInOrder (SkySet ℚ k) pf.wp pf.sp pf.paneLen hsp hle hplq hplqN hwlq hwlqN hes
  obtain rfl := Except.ok.inj (hσ₂.symm.trans hreached)
  have hts : ∀ t ∈ σ₂.plq.scheduled, 0 ≤ t.appTs := by
    intro t ht
    rw [h.scheduled] at ht
    have hrec : t ∈ x.received :=
      h.kept.accounts.perm.subset (List.mem_append_left _ (List.mem_append_left _ ht))
    obtain ⟨row, hrow, rfl⟩ := h.regular t hrec
    exact hrow
  obtain ⟨hsky, hcomplete⟩ := hwindows hts
  have hperm : σ₂.Terminated → (x.scheduled ++ x.discarded).Perm x.received :=
    fun ht => h.kept.flushed (h.flushed (hended ht).1)
  refine ⟨h.scheduled, hsky, h.late, fun ht => ⟨hcomplete ht, hperm ht⟩, fun hord ht r hr => ?_⟩
  -- nothing of a stream in order is discarded
  have hnil : x.discarded = [] :=
    List.eq_nil_iff_forall_not_mem.mpr fun t ht => hord.not_late t (h.late t ht)
  have hall := hperm ht
  rw [hnil, List.append_nil, ← h.scheduled] at hall
  rw [← PfState.timeRows_perm hall]
  exact hsky.rows r hr

/-- **Every strategy that refines the ledger answers the query from the stream.** -/
theorem Strategy.Refinement.inOrderStream {k : Nat} {S : Strategy N (k + 2)} (Rf : S.Refinement)
    {wlen wslide : Nat} {pf : PaneFarming} (hpane : 1 ≤ pf.paneLen)
    (hwp : pf.wp * pf.paneLen = wlen) (hslide : pf.sp * pf.paneLen = wslide) (hsp : 1 ≤ pf.sp)
    (hle : pf.sp ≤ pf.wp) {nwPlq nwWlq : Nat} (hplq : 0 < nwPlq) (hplqN : nwPlq ≤ N)
    (hwlq : 0 < nwWlq) (hwlqN : nwWlq ≤ N) : InOrderStream S pf wlen wslide nwPlq nwWlq := by
  intro pidEnabled events hevents
  have hanswer := Rf.inOrderWindows hpane hwp hslide hsp hle hplq hplqN hwlq hwlqN
  obtain ⟨x, σ, hrun, hreached, h⟩ := hevents.drive
    (I := Streams (inOrder pf.wp pf.sp pf.paneLen))
    (fun es hes => (hanswer es hes).imp fun _ h => h.1) (fun _ _ _ h he => h.step rfl he)
    (init_streams _ S pidEnabled nwPlq nwWlq)
  exact ⟨x, σ, hrun, h.answers Rf hpane hwp hslide hsp hle hplq hplqN hwlq hwlqN hreached⟩

/-- **From the stream to the windows.** With in-order workers, each of the three strategies, and the
standard or the adaptive reordering buffer, the client gets the skylines of the windows of the tuples
that the emitter lets through, in order, and none is missing at the end. If the tuples have come in
order, these are the skylines of the windows of all of them. -/
theorem inOrder_stream {k wlen wslide : Nat} (hslide : 1 ≤ wslide) (hlen : wslide ≤ wlen)
    {nwPlq nwWlq : Nat} (hplq : 0 < nwPlq) (hplqN : nwPlq ≤ N) (hwlq : 0 < nwWlq)
    (hwlqN : nwWlq ≤ N) :
    ∃ pf, PaneFarming.new wlen wslide = some pf ∧
      InOrderStream (PbRrSched.strategy N (k + 2)) pf wlen wslide nwPlq nwWlq ∧
      InOrderStream (TbRrSched.strategy N (k + 2)) pf wlen wslide nwPlq nwWlq ∧
      InOrderStream (AdaptiveSched.strategy N (k + 2)) pf wlen wslide nwPlq nwWlq := by
  obtain ⟨pf, hpf, hpane, hwp, hsp, hone, hle⟩ := PaneFarming.new_spec hslide hlen
  exact ⟨pf, hpf,
    (PbRrSched.refinement N (k + 2)).inOrderStream hpane hwp hsp hone hle hplq hplqN hwlq hwlqN,
    (TbRrSched.refinement N (k + 2)).inOrderStream hpane hwp hsp hone hle hplq hplqN hwlq hwlqN,
    (AdaptiveSched.refinement N (k + 2)).inOrderStream hpane hwp hsp hone hle hplq hplqN hwlq hwlqN⟩

/-- A tuple on two dimensions comes from the Generator. -/
def comes (ts x y : ℚ) : StreamEvent (TbRrSched.strategy 2 2) (SkySet ℚ 0) :=
  .receive (fun _ => none) (fun _ => ()) ⟨![x, y], ts, 0⟩

/-- Two tuples of the first millisecond, one of the second one, and the end of the stream. -/
def shortStream : List (StreamEvent (TbRrSched.strategy 2 2) (SkySet ℚ 0)) :=
  [comes 0 1 3, comes 500 2 4, comes 1000 3 1, .finish fun _ => ()] ++
    ([.plq (.worker 0), .plq (.worker 0), .plq (.worker 0), .plq (.worker 0), .plq (.worker 1),
      .plq (.worker 1), .arrive 0, .arrive 0, .arrive 1, .eos 0, .wlq (.exec 0),
      .wlq (.exec 1), .wlq (.feedback 0), .wlq (.exec 0), .wlq (.feedback 0), .wlq (.feedback 1),
      .wlq (.exec 1), .wlq (.feedback 1), .eos 1, .wlq (.collect 1)] : List (PfEvent _ _)).map .inner

/-- The emitter and the pattern after that. -/
def shortStreamEnd : InOrderRun 2 × PfState (TbRrSched.strategy 2 2) (SkySet ℚ 0) :=
  Run.result (Run.run (streamExec (inOrder 2 1 1)) shortStream
    (InOrderRun.init _ false, PfState.init _ _ 2 2)) (by decide +kernel)

/-- The client has got the one window of 2 ms that there is, and the skyline of its three tuples. -/
theorem inOrder_stream_witness :
    shortStreamEnd.2.results.map Rset.id = [0] ∧
      Answers 1 2 1 shortStreamEnd.1 shortStreamEnd.2 := by
  have htwo : 0 < 2 := by decide
  obtain ⟨pf, hpf, -, hstream, -⟩ := inOrder_stream (N := 2) (k := 0) (le_refl 1)
    (Nat.le_succ 1) htwo le_rfl htwo le_rfl
  have hnew : PaneFarming.new 2 1 = some ⟨1, 2, 1⟩ := by simp [PaneFarming.new, gcd_eq]
  obtain rfl := Option.some.inj (hpf.symm.trans hnew)
  obtain ⟨x, σ, hrun, hanswers⟩ := hstream false shortStream (by decide +kernel)
  have hend : (x, σ) = shortStreamEnd := Except.ok.inj (hrun.symm.trans (Run.eq_ok_result _ _))
  refine ⟨by decide +kernel, ?_⟩
  rw [← hend]
  exact hanswers

end ElasticPPQ
