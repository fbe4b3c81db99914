import ElasticPPQ.Lib.Run
import ElasticPPQ.Plq.Emitter
import ElasticPPQ.Plq.InOrderEmitter

/-! # The measured dropping probability

Both emitters count the tuples received and dropped in the current sample, and hand the quotient to the
PID controller, which may end the sample. In the out-of-order emitter the quotient is always a
probability. In the in-order one a call may discard tuples that were received in an earlier sample, and
the quotient is a probability exactly as long as these are few (`drop_prob_is_probability`). -/

namespace ElasticPPQ

variable {N DIM : Nat}

/-- The quotient of two counters is defined and a probability, and so is the coverage. -/
structure IsProbability (dropped rcv : Nat) : Prop where
  pos : 0 < rcv
  nonneg : (0 : ℚ) ≤ (dropped : ℚ) / rcv
  le_one : (dropped : ℚ) / rcv ≤ 1
  coverage : (0 : ℚ) ≤ 1 - (dropped : ℚ) / rcv ∧ 1 - (dropped : ℚ) / rcv ≤ 1

/-- Not more tuples are dropped than received. -/
theorem isProbability_iff {dropped rcv : Nat} : IsProbability dropped (rcv + 1) ↔ dropped ≤ rcv + 1 := by
  have hpos : (0 : ℚ) < ((rcv + 1 : Nat) : ℚ) := Nat.cast_pos.mpr (Nat.succ_pos rcv)
  have hnonneg : (0 : ℚ) ≤ (dropped : ℚ) / (rcv + 1 : Nat) :=
    div_nonneg (Nat.cast_nonneg dropped) hpos.le
  have hle : (dropped : ℚ) / (rcv + 1 : Nat) ≤ 1 ↔ dropped ≤ rcv + 1 := by
    rw [div_le_one hpos, Nat.cast_le]
  constructor
  · exact fun h => hle.mp h.le_one
  · intro h
    have hone := hle.mpr h
    exact ⟨Nat.succ_pos rcv, hnonneg, hone, by linarith, by linarith⟩

/-! ## The out-of-order emitter -/

namespace PlqEmitter

variable {S : Strategy N DIM}

/-- The dropping probability that the next call hands to `adapt`. -/
def dropProb (e : PlqEmitter) : ℚ := e.receive.droppedSample / e.receive.rcvSample

/-- The counters of the sample. -/
def counters (e : PlqEmitter) : Nat × Nat := (e.droppedSample, e.rcvSample)

/-- The slack mechanism leaves the counters alone, or ends the sample. -/
theorem checkStreamProgress_counters (pid : ℚ → Option ℚ) (appTs : ℚ) (e : PlqEmitter) :
    (e.checkStreamProgress pid appTs).1.counters = e.counters ∨
      (e.checkStreamProgress pid appTs).1.counters = (0, 0) := by
  unfold checkStreamProgress
  split
  · generalize e.kslackpid.adapt (pid (e.droppedSample / e.rcvSample)) = x
    obtain ⟨ks, newSample⟩ := x
    cases newSample
    · exact Or.inl rfl
    · exact Or.inr rfl
  · exact Or.inl rfl

/-- The punctuation mechanism leaves the counters alone, or ends the sample. -/
theorem punctuate_counters (paneLength : Nat) (env : ReceiveEnv S) (appTs : ℚ) (e : PlqEmitter) :
    (e.punctuate paneLength env appTs).1.counters = e.counters ∨
      (e.punctuate paneLength env appTs).1.counters = (0, 0) := by
  have hcheck := checkStreamProgress_counters env.pid appTs e
  unfold punctuate
  generalize e.checkStreamProgress env.pid appTs = x at hcheck
  obtain ⟨e₁, p⟩ := x
  cases p with
  | none => exact hcheck
  | some p =>
      have hgen : (e₁.generate paneLength env p).1.counters = e₁.counters := by
        unfold generate
        cases env.elapsed <;> rfl
      dsimp only
      rw [hgen]
      exact hcheck

/-- **One call**: not more tuples are dropped than received, the next one included. -/
theorem processNewTuple_counters (paneLength : Nat) (env : ReceiveEnv S) (t : Tuple DIM)
    {e : PlqEmitter} (h : e.droppedSample ≤ e.rcvSample + 1) :
    (e.processNewTuple paneLength env t).1.droppedSample ≤
      (e.processNewTuple paneLength env t).1.rcvSample + 1 := by
  have hpun := punctuate_counters paneLength env t.appTs e.receive
  unfold processNewTuple
  generalize e.receive.punctuate paneLength env t.appTs = x at hpun
  obtain ⟨e₁, calls⟩ := x
  -- the tuple itself is counted as received before it may be counted as dropped
  have hbound : e₁.droppedSample ≤ e₁.rcvSample := by
    rcases hpun with hsame | hzero
    · obtain ⟨hd, hr⟩ := Prod.mk.inj hsame
      rw [hd, hr]
      exact h
    · obtain ⟨hd, hr⟩ := Prod.mk.inj hzero
      rw [hd, hr]
  dsimp only
  split
  · exact Nat.succ_le_succ hbound
  · exact hbound.trans (Nat.le_succ _)

/-- A stream keeps the bound on the counters. -/
theorem processAll_counters (paneLength : Nat) (xs : List (ReceiveEnv S × Tuple DIM))
    {e : PlqEmitter} (h : e.droppedSample ≤ e.rcvSample + 1) :
    (e.processAll paneLength xs).droppedSample ≤ (e.processAll paneLength xs).rcvSample + 1 := by
  induction xs generalizing e with
  | nil => exact h
  | cons x xs ih => exact ih (processNewTuple_counters paneLength x.1 x.2 h)

end PlqEmitter

/-! ## The in-order emitter -/

namespace PlqEmitterIop

open KSlackBuffer

/-- The dropping probability that the next call hands to `adapt`. -/
def dropProb (e : PlqEmitterIop DIM) : ℚ := e.receive.droppedSample / e.receive.rcvSample

/-- The counters of the sample. -/
def counters (e : PlqEmitterIop DIM) : Nat × Nat := (e.droppedSample, e.rcvSample)

/-- The buffer is apart from the counters. -/
@[simp] theorem setInUse_counters (b : KSlackBuffer DIM) (e : PlqEmitterIop DIM) :
    (e.setInUse b).counters = e.counters := by
  cases h : e.pidEnabled <;> simp [setInUse, counters, h]

/-- The buffered tuples, the new one included, that a new maximum releases although they are older than
the last one scheduled. -/
def overdue (t : Tuple DIM) (e : PlqEmitterIop DIM) : Nat :=
  if t.appTs ≤ e.inUse.tcurr then 0
  else (t :: e.inUse.bufferedTuples).countP fun u =>
    decide (u.appTs < e.lastTimestamp) &&
      decide (u.appTs ≤ t.appTs - e.delay (e.inUse.observe t.appTs).1.k)

/-- The counters when the buffer is drained: the tuple has been received, and the sample may have
ended. -/
def sampled (pid : ℚ → Option ℚ) (e : PlqEmitterIop DIM) : Nat × Nat :=
  if e.pidEnabled = true ∧ (pid e.dropProb).isSome then (0, 0)
  else (e.droppedSample, e.rcvSample + 1)

/-- **Sifting** counts the tuples that are older than the last one scheduled. -/
theorem sift_counters {ts : List (Tuple DIM)} (hs : Sorted ts) (e : PlqEmitterIop DIM) :
    (sift false ts e).1.counters =
      (e.droppedSample + ts.countP (fun u => decide (u.appTs < e.lastTimestamp)), e.rcvSample) := by
  induction ts generalizing e with
  | nil => rfl
  | cons t ts ih =>
      obtain ⟨hle, hs⟩ := List.pairwise_cons.mp hs
      have hsift : (sift false (t :: ts) e).1 = (sift false ts (e.emit false t).1).1 := rfl
      rw [hsift, ih hs]
      unfold emit
      dsimp only
      by_cases hlt : t.appTs < e.lastTimestamp
      · rw [if_pos hlt, if_neg Bool.false_ne_true, List.countP_cons, if_pos (by simpa using hlt)]
        refine Prod.ext ?_ rfl
        show e.droppedSample + 1 + ts.countP (fun u => decide (u.appTs < e.lastTimestamp)) =
          e.droppedSample + (ts.countP (fun u => decide (u.appTs < e.lastTimestamp)) + 1)
        omega
      · -- the later tuples are not older either, before or after `t` is scheduled
        have hzero : ∀ last : ℚ, last ≤ t.appTs →
            ts.countP (fun u => decide (u.appTs < last)) = 0 := by
          intro last hlast
          refine List.countP_eq_zero.mpr fun u hu => ?_
          simpa using hlast.trans (hle u hu)
        rw [if_neg hlt, List.countP_cons, if_neg (by simpa using hlt),
          hzero _ (not_lt.mp hlt), hzero _ le_rfl]

/-- Inserting the tuple and adapting the delay count the tuple, and may end the sample. -/
theorem adapt_counters (pid : ℚ → Option ℚ) (t : Tuple DIM) (e : PlqEmitterIop DIM) :
    ((e.receive.insertTuple t).1.adapt pid).counters = e.sampled pid := by
  have hins : (e.receive.insertTuple t).1.counters = (e.droppedSample, e.rcvSample + 1) := by
    rw [insertTuple_eq, setInUse_counters]
    rfl
  have hmode : (e.receive.insertTuple t).1.pidEnabled = e.pidEnabled := by
    rw [insertTuple_eq, setInUse_pidEnabled]
    rfl
  obtain ⟨hd, hr⟩ := Prod.mk.inj hins
  unfold adapt
  rw [hmode, sampled]
  -- the adaptive mechanism samples before the tuples are let out
  by_cases hpid : e.pidEnabled = true
  · rw [if_pos hpid, hd, hr]
    have hprob : (e.droppedSample : ℚ) / (e.rcvSample + 1 : Nat) = e.dropProb := rfl
    rw [hprob]
    cases pid e.dropProb with
    | none =>
        rw [if_neg (by simp)]
        exact hins
    | some output => rw [if_pos (by simp [hpid])]; rfl
  · rw [if_neg hpid, if_neg fun hc => hpid hc.1, hins]

/-- **One call** discards the overdue tuples. -/
theorem Idle.processNewTuple_counters {e : PlqEmitterIop DIM} (h : e.Idle) (pid : ℚ → Option ℚ)
    (t : Tuple DIM) : ∃ e' out, e.processNewTuple pid t = some (e', out) ∧ e'.Idle ∧
      e'.counters = ((e.sampled pid).1 + e.overdue t, (e.sampled pid).2) := by
  have hidle : e.receive.Idle := ⟨h.sorted, h.idle⟩
  obtain ⟨e₁, he₁⟩ : ∃ e₁, e₁ = (e.receive.insertTuple t).1.adapt pid := ⟨_, rfl⟩
  obtain ⟨hinUse, hsame⟩ := adapt_same (e.receive.insertTuple t).1 pid
  rw [← he₁] at hinUse hsame
  have hlast : e₁.lastTimestamp = e.lastTimestamp := by
    rw [hsame.lastTimestamp, insertTuple_eq]
    exact (setInUse_same _ _).lastTimestamp
  obtain ⟨ts, b, hall, hext⟩ := hidle.extracts t
  have hrel := hidle.releases t pid
  -- what is extracted, and how many of it are older than the last tuple scheduled
  have hcount : Sorted ts ∧
      ts.countP (fun u => decide (u.appTs < e.lastTimestamp)) = e.overdue t := by
    have hnewMax : (e.receive.insertTuple t).2 = true ↔ e.inUse.tcurr < t.appTs := hrel.newMax
    by_cases hnew : (e.receive.insertTuple t).2 = true
    · obtain ⟨ts', b', hall', hts, hsort⟩ := hrel.released hnew _ (Nat.lt_succ_self _)
      rw [← he₁, hinUse, hall] at hall'
      obtain ⟨rfl, rfl⟩ := Prod.mk.inj (Option.some.inj hall')
      refine ⟨hsort, ?_⟩
      have hlt := hnewMax.mp hnew
      have hbuf : (e.receive.insertTuple t).1.inUse.bufferedTuples =
          insertSorted t e.inUse.bufferedTuples := by
        rw [insertTuple_eq, inUse_setInUse, insertTuple_bufferedTuples]
        rfl
      have hrelease : (e.receive.insertTuple t).1.release =
          t.appTs - e.delay (e.inUse.observe t.appTs).1.k := release_new (e := e.receive) hlt
      rw [hts, List.countP_filter, hbuf, (insertSorted_perm t _).countP_eq, hrelease, overdue,
        if_neg (not_le.mpr hlt)]
    · obtain ⟨b', hall'⟩ := hrel.kept (by simpa using hnew) _ (Nat.succ_pos _)
      rw [← he₁, hinUse, hall] at hall'
      obtain ⟨rfl, rfl⟩ := Prod.mk.inj (Option.some.inj hall')
      refine ⟨List.Pairwise.nil, ?_⟩
      rw [overdue, if_pos (not_lt.mp fun hlt => hnew (hnewMax.mpr hlt))]
      rfl
  have hrun : e.processNewTuple pid t =
      some ((sift false ts e₁).1.setInUse b, (sift false ts e₁).2) := by
    rw [processNewTuple]
    show PlqEmitterIop.drain false (((e.receive.insertTuple t).1.adapt pid).inUse.getSize + 1)
      ((e.receive.insertTuple t).1.adapt pid) = _
    rw [← he₁, drain_eq, hinUse, hall]
    rfl
  refine ⟨_, _, hrun, ⟨?_, ?_⟩, ?_⟩
  · rw [inUse_setInUse]
    have hsort := h.sorted.insertSorted t
    have hbuf : (e.receive.insertTuple t).1.inUse.bufferedTuples =
        insertSorted t e.inUse.bufferedTuples := by
      rw [insertTuple_eq, inUse_setInUse, insertTuple_bufferedTuples]
      rfl
    rw [← hbuf, hext.split] at hsort
    exact hsort.sublist (List.sublist_append_right _ _)
  · rw [inUse_setInUse]
    exact hext.idle
  · have hsampled : e₁.counters = e.sampled pid := by
      rw [he₁]
      exact adapt_counters pid t e
    rw [setInUse_counters, sift_counters hcount.1, hlast, hcount.2, ← hsampled]
    rfl

/-- A tuple comes, with the answers of the PID controller to it. -/
def exec (e : PlqEmitterIop DIM) (x : (ℚ → Option ℚ) × Tuple DIM) :
    Except Unit (PlqEmitterIop DIM) :=
  match e.processNewTuple x.1 x.2 with
  | none => .error ()
  | some (e, _) => .ok e

/-- The overdue tuples that a call releases are not more than the current sample has room for. -/
def FewOverdue (e : PlqEmitterIop DIM) (x : (ℚ → Option ℚ) × Tuple DIM) : Prop :=
  (e.sampled x.1).1 + e.overdue x.2 ≤ (e.sampled x.1).2 + 1

/-- What a call leads to. -/
theorem Idle.exec {e : PlqEmitterIop DIM} (h : e.Idle) (x : (ℚ → Option ℚ) × Tuple DIM) :
    ∃ e', PlqEmitterIop.exec e x = .ok e' ∧ e'.Idle ∧
      (e'.droppedSample ≤ e'.rcvSample + 1 ↔ e.FewOverdue x) := by
  obtain ⟨e', out, hrun, hidle, hcount⟩ := h.processNewTuple_counters x.1 x.2
  obtain ⟨hd, hr⟩ := Prod.mk.inj hcount
  exact ⟨e', by rw [PlqEmitterIop.exec, hrun], hidle, by rw [hd, hr]; exact Iff.rfl⟩

end PlqEmitterIop

/-- **When the dropping probability is a probability.** Whatever has been received, and whenever the
PID controller has ended a sample, the out-of-order emitter divides by a positive number and obtains a
number between zero and one at the next call. The in-order emitter does so at all the points of a
sequence of tuples if and only if at no call of it the overdue tuples exceed the room in the sample. -/
theorem drop_prob_is_probability :
    (∀ (S : Strategy N DIM) (paneLength : Nat) (xs : List (ReceiveEnv S × Tuple DIM)),
      IsProbability ((PlqEmitter.new true).processAll paneLength xs).receive.droppedSample
        ((PlqEmitter.new true).processAll paneLength xs).receive.rcvSample) ∧
    ∀ xs : List ((ℚ → Option ℚ) × Tuple DIM),
      (∀ xs', xs' <+: xs → ∃ e, Run.run PlqEmitterIop.exec xs' (PlqEmitterIop.new DIM true) = .ok e ∧
          IsProbability e.receive.droppedSample e.receive.rcvSample) ↔
        Run.Valid PlqEmitterIop.exec PlqEmitterIop.FewOverdue xs (PlqEmitterIop.new DIM true) := by
  constructor
  -- out of order each tuple is counted when it is received and at most once when dropped
  · intro S paneLength xs
    exact isProbability_iff.mpr (PlqEmitter.processAll_counters paneLength xs (Nat.zero_le _))
  -- in order the tuples dropped may have been received in an earlier sample
  · intro xs
    refine Run.Valid.sound_iff (P := fun e : PlqEmitterIop DIM =>
      e.Idle ∧ e.droppedSample ≤ e.rcvSample + 1) (fun e h => isProbability_iff.mpr h.2) ?_ ?_
      (Run.valid_true xs _) ⟨⟨List.Pairwise.nil, rfl⟩, Nat.zero_le _⟩
    · rintro e x ⟨hidle, -⟩ - hfew
      obtain ⟨e', he', hidle', hiff⟩ := hidle.exec x
      exact ⟨e', he', hidle', hiff.mpr hfew⟩
    · rintro e x e' ⟨hidle, -⟩ - hmany hexec hgood
      obtain ⟨e₁, he₁, -, hiff⟩ := hidle.exec x
      obtain rfl := Except.ok.inj (he₁.symm.trans hexec)
      exact hmany (hiff.mp (isProbability_iff.mp hgood))

/-- A tuple with a timestamp only. -/
def stampedTuple (ts : ℚ) : Tuple 1 := { Tuple.new 1 with type := .regular, appTs := ts }

/-- Three late tuples wait in the buffer when a new maximum releases them, and the sample ends. -/
def lateTuples : List ((ℚ → Option ℚ) × Tuple 1) :=
  [(fun _ => none, stampedTuple 10), (fun _ => none, stampedTuple 5),
    (fun _ => none, stampedTuple 5), (fun _ => none, stampedTuple 5),
    (fun _ => some 0, stampedTuple 20)]

/-- The emitter after that. -/
def lateTuplesEnd : PlqEmitterIop 1 :=
  Run.result (Run.run PlqEmitterIop.exec lateTuples (PlqEmitterIop.new 1 true)) (by decide +kernel)

/-- The next call measures a dropping probability of three. -/
theorem drop_prob_fails :
    ¬ ∀ (xs : List ((ℚ → Option ℚ) × Tuple 1)) (e : PlqEmitterIop 1),
      Run.run PlqEmitterIop.exec xs (PlqEmitterIop.new 1 true) = .ok e →
        IsProbability e.receive.droppedSample e.receive.rcvSample := by
  intro h
  have hprob := h lateTuples lateTuplesEnd (Run.eq_ok_result _ _)
  have hthree : lateTuplesEnd.receive.droppedSample = 3 ∧ lateTuplesEnd.receive.rcvSample = 1 := by
    decide +kernel
  have hle := hprob.le_one
  rw [hthree.1, hthree.2] at hle
  norm_num at hle

end ElasticPPQ
