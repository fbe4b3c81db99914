import ElasticPPQ.Plq.EmitterIop

/-! # The in-order emitter neither loses, duplicates nor disorders tuples

The histories of `PLQ_Emitter_IOP` (`InOrderRun`): what has been received, scheduled and discarded. In
every history the buffer is sorted and its extraction closed, and the received tuples are the scheduled
ones, the discarded ones and those in the buffer (`InOrderRun.Kept`). -/

namespace ElasticPPQ

variable {DIM : Nat}

namespace KSlackBuffer

/-- The extraction after an insertion: the tuples returned are the first ones of the deque, the others
stay, and the extraction is closed. -/
structure Extracts (b : KSlackBuffer DIM) (ts : List (Tuple DIM)) (b' : KSlackBuffer DIM) :
    Prop where
  split : b.bufferedTuples = ts ++ b'.bufferedTuples
  idle : b'.toEmit = false
  slack : b'.toKSlack = b.toKSlack

/-- With enough fuel the loop extracts what the last position marks. -/
theorem Emitting.extracts {b : KSlackBuffer DIM} {last : Nat} (h : b.Emitting 0 last) {fuel : Nat}
    (hfuel : b.bufferedTuples.length < fuel) :
    b.extractAll fuel = some (b.bufferedTuples.take last, b.erased last) ∧
      b.Extracts (b.bufferedTuples.take last) (b.erased last) := by
  have hlt : last - 0 < fuel := h.lastLe.trans_lt hfuel
  refine ⟨?_, (List.take_append_drop last b.bufferedTuples).symm, rfl, rfl⟩
  have hall := h.extractAll hlt
  rwa [List.drop_zero] at hall

/-- A buffer that does not emit lets nothing out. -/
theorem extracts_of_idle {b : KSlackBuffer DIM} (h : b.toEmit = false) {fuel : Nat}
    (hfuel : 0 < fuel) : b.extractAll fuel = some ([], b) ∧ b.Extracts [] b := by
  obtain ⟨fuel, rfl⟩ := Nat.exists_eq_succ_of_ne_zero hfuel.ne'
  exact ⟨extractAll_of_idle h fuel, rfl, h, rfl⟩

end KSlackBuffer

open KSlackBuffer

namespace PlqEmitterIop

variable (e : PlqEmitterIop DIM)

/-! ## The buffer in use -/

/-- The attenuation of the slack in use. -/
def alpha : ℚ := if e.pidEnabled then e.bufferPID.alpha else 0

/-- The timestamp up to which a new maximum releases the tuples. -/
def release : ℚ := e.inUse.tcurr - (1 - e.alpha) * e.inUse.k

/-- The delay of the buffer in use. -/
def delay (k : ℚ) : ℚ := (1 - e.alpha) * k

/-- Inserting concerns the buffer in use only. -/
theorem insertTuple_eq (t : Tuple DIM) :
    e.insertTuple t =
      (e.setInUse (e.inUse.insertTuple e.delay t).1, (e.inUse.insertTuple e.delay t).2) := by
  -- the buffer of the adaptive mechanism attenuates the slack, the other one does not
  cases h : e.pidEnabled with
  | true =>
      have hdelay : e.delay = e.bufferPID.toKSlackPid.delay := by
        funext k
        rw [delay, alpha, if_pos h]
        rfl
      simp only [insertTuple, inUse, setInUse, h, if_true, hdelay]
      rfl
  | false =>
      have hdelay : e.delay = id := by
        funext k
        rw [delay, alpha, if_neg (by rw [h]; exact Bool.false_ne_true), sub_zero, one_mul]
        rfl
      simp only [insertTuple, inUse, setInUse, h, Bool.false_eq_true, if_false, hdelay]

/-- The fields that the buffers do not touch. -/
structure SameFields (e e' : PlqEmitterIop DIM) : Prop where
  rcvTotal : e'.rcvTotal = e.rcvTotal
  outTuples : e'.outTuples = e.outTuples
  lastTimestamp : e'.lastTimestamp = e.lastTimestamp

/-- Another buffer in use, the same other fields. -/
theorem setInUse_same (b : KSlackBuffer DIM) : SameFields e (e.setInUse b) := by
  cases h : e.pidEnabled <;> simp only [setInUse, h, if_true, Bool.false_eq_true, if_false] <;>
    exact ⟨rfl, rfl, rfl⟩

/-- Which mechanism is enabled does not depend on the buffer. -/
@[simp] theorem setInUse_pidEnabled (b : KSlackBuffer DIM) :
    (e.setInUse b).pidEnabled = e.pidEnabled := by
  cases h : e.pidEnabled <;> simp [setInUse, h]

/-- Neither does the slack of the adaptive one. -/
@[simp] theorem setInUse_alpha (b : KSlackBuffer DIM) : (e.setInUse b).alpha = e.alpha := by
  cases h : e.pidEnabled <;> simp [alpha, setInUse, h]

/-- Adapting the delay leaves the buffer alone. -/
theorem adapt_same (pid : ℚ → Option ℚ) :
    (e.adapt pid).inUse = e.inUse ∧ SameFields e (e.adapt pid) := by
  unfold adapt
  cases h : e.pidEnabled with
  | true =>
      have hsame : ∀ output, (e.bufferPID.adapt output).1.toKSlackBuffer = e.bufferPID.toKSlackBuffer :=
        fun _ => rfl
      have hb := hsame (pid (e.droppedSample / e.rcvSample))
      generalize e.bufferPID.adapt (pid (e.droppedSample / e.rcvSample)) = x at hb
      obtain ⟨b, newSample⟩ := x
      -- whether the counters of the sample are reset does not matter
      cases newSample <;> simp only [if_true, sample, inUse, h, Bool.false_eq_true, if_false] <;>
        exact ⟨hb, rfl, rfl, rfl⟩
  | false => exact ⟨rfl, rfl, rfl, rfl⟩

/-- **One insertion**: what is extracted before the next `NULL` are the tuples up to the release bound
if the tuple is a new maximum, and none otherwise. -/
structure Releases (t : Tuple DIM) (pid : ℚ → Option ℚ) : Prop where
  newMax : (e.insertTuple t).2 = true ↔ e.inUse.tcurr < t.appTs
  released : (e.insertTuple t).2 = true → ∀ fuel, (e.insertTuple t).1.inUse.getSize < fuel →
    ∃ ts b, (((e.insertTuple t).1.adapt pid).inUse).extractAll fuel = some (ts, b) ∧
      ts = (e.insertTuple t).1.inUse.bufferedTuples.filter
        (fun u => u.appTs ≤ (e.insertTuple t).1.release) ∧ Sorted ts
  kept : (e.insertTuple t).2 = false → ∀ fuel, 0 < fuel →
    ∃ b, (((e.insertTuple t).1.adapt pid).inUse).extractAll fuel = some ([], b)

variable {e}

/-- The buffer is sorted and nothing is being extracted from it. -/
structure Idle (e : PlqEmitterIop DIM) : Prop where
  sorted : Sorted e.inUse.bufferedTuples
  idle : e.inUse.toEmit = false

/-- The release bound of the emitter is the one of the buffer. -/
theorem release_insertTuple (t : Tuple DIM) :
    (e.insertTuple t).1.release = (e.inUse.insertTuple e.delay t).1.release e.delay := by
  rw [insertTuple_eq, release, inUse_setInUse, setInUse_alpha]
  rfl

/-- **Every insertion releases what it should.** -/
theorem Idle.releases (h : e.Idle) (t : Tuple DIM) (pid : ℚ → Option ℚ) : e.Releases t pid where
  newMax := by
    rw [insertTuple_eq]
    exact insertTuple_newMax
  released := by
    -- a new maximal timestamp lets out all that is old enough, in order
    intro hnew fuel hfuel
    rw [(adapt_same _ pid).1, release_insertTuple]
    rw [insertTuple_eq] at hnew hfuel ⊢
    dsimp only at hnew hfuel ⊢
    rw [inUse_setInUse] at hfuel ⊢
    obtain ⟨last, hemit, htake⟩ := insertTuple_of_newMax h.sorted hnew
    refine ⟨_, _, (hemit.extracts hfuel).1, htake, ?_⟩
    rw [insertTuple_bufferedTuples]
    exact (h.sorted.insertSorted t).sublist (List.take_sublist _ _)
  kept := by
    -- without one the buffer does not emit
    intro hold fuel hfuel
    rw [(adapt_same _ pid).1]
    rw [insertTuple_eq] at hold ⊢
    dsimp only at hold ⊢
    rw [inUse_setInUse]
    exact ⟨_, (extracts_of_idle ((insertTuple_of_le hold).trans h.idle) hfuel).1⟩

/-- What is extracted after an insertion. -/
theorem Idle.extracts (h : e.Idle) (t : Tuple DIM) :
    ∃ ts b, (e.insertTuple t).1.inUse.extractAll ((e.insertTuple t).1.inUse.getSize + 1)
      = some (ts, b) ∧ (e.insertTuple t).1.inUse.Extracts ts b := by
  rw [insertTuple_eq]
  dsimp only
  rw [inUse_setInUse]
  cases hnew : (e.inUse.insertTuple e.delay t).2 with
  | true =>
      obtain ⟨last, hemit, -⟩ := insertTuple_of_newMax h.sorted hnew
      exact ⟨_, _, hemit.extracts (Nat.lt_succ_self _)⟩
  | false =>
      exact ⟨_, _, extracts_of_idle ((insertTuple_of_le hnew).trans h.idle) (Nat.succ_pos _)⟩

/-- The release bound after a new maximum. -/
theorem release_new {t : Tuple DIM} (hnew : e.inUse.tcurr < t.appTs) :
    (e.insertTuple t).1.release = t.appTs - e.delay (e.inUse.observe t.appTs).1.k := by
  have hobs := congrArg Prod.fst (insertTuple_observe e.delay t e.inUse)
  obtain ⟨k, hk, -⟩ := KSlack.observe_of_lt hnew
  rw [hk] at hobs ⊢
  dsimp only at hobs
  rw [release_insertTuple]
  show (e.inUse.insertTuple e.delay t).1.toKSlack.tcurr -
    e.delay (e.inUse.insertTuple e.delay t).1.toKSlack.k = _
  rw [hobs]

/-- The released tuples are as old as they have to be. -/
theorem Idle.released (h : e.Idle) {t : Tuple DIM} (pid : ℚ → Option ℚ) {ts : List (Tuple DIM)}
    {b : KSlackBuffer DIM} (hall : (e.insertTuple t).1.inUse.extractAll
      ((e.insertTuple t).1.inUse.getSize + 1) = some (ts, b)) :
    ∀ u ∈ ts, u.appTs ≤ t.appTs - e.delay (e.inUse.observe t.appTs).1.k := by
  have hrel := h.releases t pid
  have hinUse := (adapt_same (e.insertTuple t).1 pid).1
  -- what is let out is old enough, and nothing is let out of an idle buffer
  by_cases hnew : (e.insertTuple t).2 = true
  · obtain ⟨ts', b', hall', hts, -⟩ := hrel.released hnew _ (Nat.lt_succ_self _)
    rw [hinUse, hall] at hall'
    obtain ⟨rfl, -⟩ := Prod.mk.inj (Option.some.inj hall')
    rw [release_new (hrel.newMax.mp hnew)] at hts
    intro u hu
    rw [hts] at hu
    simpa using (List.mem_filter.mp hu).2
  · obtain ⟨b', hall'⟩ := hrel.kept (by simpa using hnew) _ (Nat.succ_pos _)
    rw [hinUse, hall] at hall'
    obtain ⟨rfl, -⟩ := Prod.mk.inj (Option.some.inj hall')
    exact fun u hu => absurd hu List.not_mem_nil

/-- The adaptation does not switch the mechanism. -/
theorem adapt_pidEnabled (pid : ℚ → Option ℚ) (e : PlqEmitterIop DIM) :
    (e.adapt pid).pidEnabled = e.pidEnabled := by
  unfold adapt
  split
  · generalize e.bufferPID.adapt (pid (e.droppedSample / e.rcvSample)) = x
    obtain ⟨b, newSample⟩ := x
    cases newSample <;> rfl
  · rfl

/-- Sifting leaves the mode alone. -/
theorem sift_pidEnabled (flush : Bool) (ts : List (Tuple DIM)) (e : PlqEmitterIop DIM) :
    (sift flush ts e).1.pidEnabled = e.pidEnabled := by
  induction ts generalizing e with
  | nil => rfl
  | cons t ts ih =>
      have hemit : (e.emit flush t).1.pidEnabled = e.pidEnabled := by
        unfold emit
        dsimp only
        split_ifs <;> rfl
      exact (ih _).trans hemit

end PlqEmitterIop

/-! ## Histories -/

/-- The emitter, with what has been received, scheduled and discarded so far. -/
structure InOrderRun (DIM : Nat) where
  /-- The fields of the emitter. -/
  emitter : PlqEmitterIop DIM
  /-- The tuples received so far. -/
  received : List (Tuple DIM)
  /-- The tuples scheduled so far, in order. -/
  scheduled : List (Tuple DIM)
  /-- The tuples discarded so far, in order. -/
  discarded : List (Tuple DIM)

namespace InOrderRun

open PlqEmitterIop

/-- Everything as constructed. -/
def init (DIM : Nat) (pidEnabled : Bool) : InOrderRun DIM :=
  ⟨PlqEmitterIop.new DIM pidEnabled, [], [], []⟩

/-- What left the buffer is recorded. -/
def record (x : InOrderRun DIM) (received : List (Tuple DIM))
    (y : PlqEmitterIop DIM × Sifted DIM) : InOrderRun DIM :=
  ⟨y.1, x.received ++ received, x.scheduled ++ y.2.scheduled, x.discarded ++ y.2.discarded⟩

/-- A tuple comes from the Generator. -/
def process (paneLength : Nat) (pid : ℚ → Option ℚ) (row : Row ℚ DIM) (x : InOrderRun DIM) :
    Option (InOrderRun DIM) :=
  let t := Tuple.createRegular row paneLength
  (x.emitter.processNewTuple pid t).map (x.record [t])

/-- The tuples come one after the other. -/
def processAll (paneLength : Nat) :
    List ((ℚ → Option ℚ) × Row ℚ DIM) → InOrderRun DIM → Option (InOrderRun DIM)
  | [], x => some x
  | i :: is, x => (x.process paneLength i.1 i.2).bind (processAll paneLength is)

/-- The buffer is flushed at the end of the stream. -/
def flush (x : InOrderRun DIM) : Option (InOrderRun DIM) :=
  x.emitter.flushTupleBuffer.map (x.record [])

/-- **The account of the tuples**: those received are those scheduled, discarded and waiting in the
buffer. -/
structure Accounts (received scheduled discarded waiting : List (Tuple DIM))
    (e : PlqEmitterIop DIM) : Prop where
  perm : (scheduled ++ discarded ++ waiting).Perm received
  rcvTotal : e.rcvTotal = received.length
  outTuples : e.outTuples = discarded.length
  ordered : Sorted scheduled
  le : ∀ t ∈ scheduled, t.appTs ≤ e.lastTimestamp

section Accounts

variable {received scheduled discarded waiting : List (Tuple DIM)} {e e' : PlqEmitterIop DIM}

/-- Only the fields that are accounted for matter. -/
theorem Accounts.same (h : Accounts received scheduled discarded waiting e) (hs : SameFields e e') :
    Accounts received scheduled discarded waiting e' where
  perm := h.perm
  rcvTotal := hs.rcvTotal.trans h.rcvTotal
  outTuples := hs.outTuples.trans h.outTuples
  ordered := h.ordered
  le := fun t ht => hs.lastTimestamp ▸ h.le t ht

/-- Sifting the first tuples of the buffer keeps the account. -/
theorem Accounts.sift {ts : List (Tuple DIM)} {out : Sifted DIM}
    (h : Accounts received scheduled discarded (ts ++ waiting) e) (hs : Sifts ts e e' out) :
    Accounts received (scheduled ++ out.scheduled) (discarded ++ out.discarded) waiting e' where
  perm := by
    have hperm := hs.perm
    have hin := h.perm
    rw [← Multiset.coe_eq_coe] at hperm hin ⊢
    simp only [← Multiset.coe_add] at hperm hin ⊢
    rw [← hin, ← hperm]
    abel
  rcvTotal := hs.rcvTotal.trans h.rcvTotal
  outTuples := by rw [hs.outTuples, h.outTuples, List.length_append]
  ordered := by
    -- what is scheduled now is not before what has been scheduled already
    refine List.pairwise_append.mpr ⟨h.ordered, hs.ordered, fun t ht u hu => ?_⟩
    exact (h.le t ht).trans (hs.bounds u hu).1
  le := by
    intro t ht
    rcases List.mem_append.mp ht with ht | ht
    · exact (h.le t ht).trans hs.le
    · exact (hs.bounds t ht).2

/-- A tuple that is received goes to the buffer. -/
theorem Accounts.receive (h : Accounts received scheduled discarded waiting e) (t : Tuple DIM) :
    Accounts (received ++ [t]) scheduled discarded (insertSorted t waiting) e.receive where
  perm := by
    have hins := (insertSorted_perm t waiting).append_left (scheduled ++ discarded)
    refine (hins.trans List.perm_middle).trans ?_
    exact (h.perm.cons t).trans (List.perm_append_singleton t received).symm
  rcvTotal := by
    show e.rcvTotal + 1 = _
    rw [h.rcvTotal, List.length_append]
    rfl
  outTuples := h.outTuples
  ordered := h.ordered
  le := h.le

end Accounts

/-- **The invariant of the histories.** -/
structure Kept (x : InOrderRun DIM) : Prop where
  idle : x.emitter.Idle
  accounts : Accounts x.received x.scheduled x.discarded x.emitter.inUse.bufferedTuples x.emitter

/-- The emitter as constructed. -/
theorem init_kept (DIM : Nat) (pidEnabled : Bool) : (init DIM pidEnabled).Kept := by
  cases pidEnabled <;>
    exact ⟨⟨List.Pairwise.nil, rfl⟩, List.Perm.refl _, rfl, rfl, List.Pairwise.nil,
      fun t ht => absurd ht List.not_mem_nil⟩

/-- What a tuple `t` does to a history `x`, with the tuples `ts` released from the buffer. -/
structure Releasing (t : Tuple DIM) (ts : List (Tuple DIM)) (x x' : InOrderRun DIM) : Prop where
  pidEnabled : x'.emitter.pidEnabled = x.emitter.pidEnabled
  slack : x'.emitter.inUse.toKSlack = (x.emitter.inUse.observe t.appTs).1
  le : ∀ u ∈ ts, u.appTs ≤ t.appTs - x.emitter.delay (x.emitter.inUse.observe t.appTs).1.k

/-- What becomes of a history `x` whose buffer, holding `waiting`, is drained: its first tuples are
sifted, and the others wait on. -/
structure Drains (last : Bool) (waiting ts : List (Tuple DIM)) (e : PlqEmitterIop DIM)
    (x x' : InOrderRun DIM) : Prop where
  split : waiting = ts ++ x'.emitter.inUse.bufferedTuples
  before : e.lastTimestamp = x.emitter.lastTimestamp
  after : x'.emitter.lastTimestamp = (sift last ts e).1.lastTimestamp
  scheduled : x'.scheduled = x.scheduled ++ (sift last ts e).2.scheduled
  discarded : x'.discarded = x.discarded ++ (sift last ts e).2.discarded

/-- The loop drains what the buffer gives, and keeps the account. -/
theorem Accounts.drain {received scheduled discarded : List (Tuple DIM)} {e : PlqEmitterIop DIM}
    (h : Accounts received scheduled discarded e.inUse.bufferedTuples e)
    (hsort : Sorted e.inUse.bufferedTuples) (last : Bool) {fuel : Nat} {ts : List (Tuple DIM)}
    {b : KSlackBuffer DIM} (hall : e.inUse.extractAll fuel = some (ts, b))
    (hext : e.inUse.Extracts ts b) :
    ∃ y, e.drain last fuel = some y ∧
      y = ((PlqEmitterIop.sift last ts e).1.setInUse b, (PlqEmitterIop.sift last ts e).2) ∧
      Kept ⟨y.1, received, scheduled ++ y.2.scheduled, discarded ++ y.2.discarded⟩ := by
  -- the tuples let out are scheduled or discarded, the rest stays in the buffer
  rw [hext.split] at h hsort
  have hacc := (h.sift (sifts last ts e)).same (setInUse_same _ b)
  refine ⟨_, by rw [drain_eq, hall]; rfl, rfl, ⟨?_, ?_⟩, ?_⟩
  · show Sorted (inUse (setInUse b _)).bufferedTuples
    rw [inUse_setInUse]
    exact hsort.sublist (List.sublist_append_right _ _)
  · show (inUse (setInUse b _)).toEmit = false
    rw [inUse_setInUse]
    exact hext.idle
  · show Accounts _ _ _ (inUse (setInUse b _)).bufferedTuples _
    rw [inUse_setInUse]
    exact hacc

/-- **Every tuple is processed**, and the invariant kept. -/
theorem Kept.process {x : InOrderRun DIM} (h : x.Kept) (paneLength : Nat) (pid : ℚ → Option ℚ)
    (row : Row ℚ DIM) : ∃ x', x.process paneLength pid row = some x' ∧ x'.Kept ∧
      x'.received = x.received ++ [Tuple.createRegular row paneLength] ∧
      ∃ ts e, Releasing (Tuple.createRegular row paneLength) ts x x' ∧
        Drains false (insertSorted (Tuple.createRegular row paneLength)
          x.emitter.inUse.bufferedTuples) ts e x x' := by
  obtain ⟨t, ht⟩ : ∃ t, t = Tuple.createRegular row paneLength := ⟨_, rfl⟩
  have hidle : x.emitter.receive.Idle := ⟨h.idle.sorted, h.idle.idle⟩
  -- the tuple goes into the buffer, and the slack may be adapted before anything is let out
  obtain ⟨ts, b, hall, hext⟩ := hidle.extracts t
  have hreleased := hidle.released pid hall
  have hmode : ((x.emitter.receive.insertTuple t).1.adapt pid).pidEnabled = x.emitter.pidEnabled := by
    rw [adapt_pidEnabled, insertTuple_eq, setInUse_pidEnabled]
    rfl
  have hslack : (x.emitter.receive.insertTuple t).1.inUse.toKSlack =
      (x.emitter.inUse.observe t.appTs).1 := by
    rw [insertTuple_eq, inUse_setInUse]
    exact congrArg Prod.fst (insertTuple_observe _ t x.emitter.receive.inUse)
  rw [← hext.slack] at hslack
  obtain ⟨hinUse, hsame⟩ := adapt_same (x.emitter.receive.insertTuple t).1 pid
  have hsame' : SameFields x.emitter.receive (x.emitter.receive.insertTuple t).1 := by
    rw [insertTuple_eq]
    exact setInUse_same _ _
  have hins : (x.emitter.receive.insertTuple t).1.inUse.bufferedTuples =
      insertSorted t x.emitter.inUse.bufferedTuples := by
    rw [insertTuple_eq]
    dsimp only
    rw [inUse_setInUse, insertTuple_bufferedTuples]
    rfl
  -- the adaptation leaves the buffer and the accounts alone
  have hacc := ((h.accounts.receive t).same hsame').same hsame
  have hsort := h.idle.sorted.insertSorted t
  rw [← hins, ← hinUse] at hacc hsort
  rw [← hinUse] at hall hext
  -- the loop lets out what is old enough
  obtain ⟨y, hy, hyeq, hkept⟩ := hacc.drain hsort false hall hext
  refine ⟨x.record [t] y, ?_, hkept, by rw [← ht]; rfl, ts,
    (x.emitter.receive.insertTuple t).1.adapt pid, ⟨?_, ?_, ?_⟩, ?_, ?_, ?_, ?_, ?_⟩
  · rw [InOrderRun.process, ← ht]
    show (PlqEmitterIop.drain false _ _).map _ = _
    rw [hy]
    rfl
  · rw [hyeq]
    exact (setInUse_pidEnabled _ b).trans ((sift_pidEnabled false ts _).trans hmode)
  · rw [hyeq, ← ht]
    show (inUse (setInUse b _)).toKSlack = _
    rw [inUse_setInUse]
    exact hslack
  · rw [← ht]
    exact hreleased
  · rw [← ht, ← hins, ← hinUse, hext.split, hyeq]
    show _ = ts ++ (inUse (setInUse b _)).bufferedTuples
    rw [inUse_setInUse]
  · exact hsame.lastTimestamp.trans hsame'.lastTimestamp
  · rw [hyeq]
    exact (setInUse_same _ b).lastTimestamp
  · rw [hyeq]
    rfl
  · rw [hyeq]
    rfl

/-- **The flush** empties the buffer. -/
theorem Kept.flush {x : InOrderRun DIM} (h : x.Kept) :
    ∃ x', x.flush = some x' ∧ x'.Kept ∧ x'.received = x.received ∧
      x'.emitter.inUse.bufferedTuples = [] ∧
      ∃ ts e, Drains true x.emitter.inUse.bufferedTuples ts e x x' := by
  obtain ⟨e, he⟩ : ∃ e, e = x.emitter.prepareToFlush := ⟨_, rfl⟩
  have hflush := he
  rw [prepareToFlush_eq] at hflush
  have hinUse : e.inUse = x.emitter.inUse.prepareToFlush := by rw [hflush, inUse_setInUse]
  have hacc : Accounts x.received x.scheduled x.discarded e.inUse.bufferedTuples e := by
    rw [hinUse]
    refine h.accounts.same ?_
    rw [hflush]
    exact setInUse_same _ _
  have hsort : Sorted e.inUse.bufferedTuples := by
    rw [hinUse]
    exact h.idle.sorted
  -- the flush marks all that is in the buffer
  have hemit := prepareToFlush_emitting x.emitter.inUse
  rw [← hinUse] at hemit
  obtain ⟨hall, hext⟩ := hemit.extracts (Nat.lt_succ_self _)
  obtain ⟨y, hy, hyeq, hkept⟩ := hacc.drain hsort true hall hext
  have hnil : y.1.inUse.bufferedTuples = [] := by
    rw [hyeq, inUse_setInUse, erased, hinUse]
    exact List.drop_length
  refine ⟨⟨y.1, x.received, x.scheduled ++ y.2.scheduled, x.discarded ++ y.2.discarded⟩, ?_, hkept,
    rfl, hnil, e.inUse.bufferedTuples.take x.emitter.inUse.bufferedTuples.length, e, ?_, ?_, ?_, ?_,
    ?_⟩
  · rw [InOrderRun.flush, PlqEmitterIop.flushTupleBuffer, ← he]
    rw [KSlackBuffer.getSize, hy, Option.map_some, record, List.append_nil]
  · have hsplit := hext.split
    rw [hinUse] at hsplit
    show x.emitter.inUse.bufferedTuples = _ ++ y.1.inUse.bufferedTuples
    rw [hyeq, inUse_setInUse, hinUse]
    exact hsplit
  · rw [hflush]
    exact (setInUse_same _ _).lastTimestamp
  · rw [hyeq]
    exact (setInUse_same _ _).lastTimestamp
  · rw [hyeq]
  · rw [hyeq]

/-! ## What every history guarantees -/

/-- Nothing is lost, duplicated or disordered in a history: the buffer is sorted, the next insertion
releases the tuples up to its bound, the received tuples are accounted for, the scheduled ones are in
order, and the flush empties the buffer. -/
structure KeepsOrder (x : InOrderRun DIM) : Prop where
  sorted : Sorted x.emitter.inUse.bufferedTuples
  releases : ∀ t pid, x.emitter.receive.Releases t pid
  total : x.emitter.rcvTotal =
    x.scheduled.length + x.emitter.outTuples + x.emitter.inUse.getSize
  ordered : Sorted x.scheduled
  flush : ∃ x', x.flush = some x' ∧ x'.received = x.received ∧
    x'.emitter.inUse.bufferedTuples = [] ∧ Sorted x'.scheduled ∧
    x'.emitter.rcvTotal = x'.scheduled.length + x'.emitter.outTuples ∧
    (x'.scheduled ++ x'.discarded).Perm x.received

/-- The counters agree with the account. -/
theorem Kept.total {x : InOrderRun DIM} (h : x.Kept) : x.emitter.rcvTotal =
    x.scheduled.length + x.emitter.outTuples + x.emitter.inUse.getSize := by
  have hlen := h.accounts.perm.length_eq
  rw [List.length_append, List.length_append] at hlen
  rw [h.accounts.rcvTotal, h.accounts.outTuples, KSlackBuffer.getSize]
  exact hlen.symm

/-- What the invariant says about the order. -/
theorem Kept.keepsOrder {x : InOrderRun DIM} (h : x.Kept) : x.KeepsOrder where
  sorted := h.idle.sorted
  releases := fun t pid =>
    (show x.emitter.receive.Idle from ⟨h.idle.sorted, h.idle.idle⟩).releases t pid
  total := h.total
  ordered := h.accounts.ordered
  flush := by
    obtain ⟨x', hx', hkept, hreceived, hnil, -⟩ := h.flush
    have htotal := hkept.total
    have hperm := hkept.accounts.perm
    rw [KSlackBuffer.getSize, hnil, List.length_nil, Nat.add_zero] at htotal
    rw [hnil, List.append_nil, hreceived] at hperm
    exact ⟨x', hx', hreceived, hnil, hkept.accounts.ordered, htotal, hperm⟩

/-- Any sequence of tuples keeps the invariant. -/
theorem Kept.processAll {x : InOrderRun DIM} (h : x.Kept) (paneLength : Nat)
    (is : List ((ℚ → Option ℚ) × Row ℚ DIM)) :
    ∃ x', x.processAll paneLength is = some x' ∧ x'.Kept ∧
      x'.received = x.received ++ is.map fun i => Tuple.createRegular i.2 paneLength := by
  induction is generalizing x with
  | nil => exact ⟨x, rfl, h, (List.append_nil _).symm⟩
  | cons i is ih =>
      obtain ⟨x₁, hx₁, h₁, hrec₁, -⟩ := h.process paneLength i.1 i.2
      obtain ⟨x', hx', h', hrec'⟩ := ih h₁
      refine ⟨x', by rw [InOrderRun.processAll, hx₁]; exact hx', h', ?_⟩
      rw [hrec', hrec₁, List.append_assoc]
      rfl

end InOrderRun

open InOrderRun

/-- **The in-order emitter neither loses, duplicates nor disorders tuples**, with the standard and with
the adaptive buffer, for every sequence of tuples and of answers of the PID controller. -/
theorem in_order_emitter_keeps_order (paneLength : Nat) (pidEnabled : Bool)
    (is : List ((ℚ → Option ℚ) × Row ℚ DIM)) :
    ∃ x, (init DIM pidEnabled).processAll paneLength is = some x ∧ x.KeepsOrder ∧
      x.received = is.map fun i => Tuple.createRegular i.2 paneLength := by
  obtain ⟨x, hx, hkept, hrec⟩ := (init_kept DIM pidEnabled).processAll paneLength is
  exact ⟨x, hx, hkept.keepsOrder, hrec⟩

end ElasticPPQ
