import ElasticPPQ.Plq.InOrder
import ElasticPPQ.Slack.Buffer

/-! # The in-order emitter

`PLQ_Emitter_IOP` in front of a strategy. The tuples go through the reordering buffer; what leaves it
is scheduled if it is in order, and discarded otherwise. The loops that drain the buffer extract a list
of tuples and sift it (`PlqEmitterIop.drain_eq`), so nothing is lost, duplicated or disordered. -/

namespace ElasticPPQ

variable {DIM : Nat}

/-- The fields of `PLQ_Emitter_IOP`, apart from the strategy. -/
structure PlqEmitterIop (DIM : Nat) where
  /-- Whether the adaptive slack mechanism is enabled. -/
  pidEnabled : Bool
  /-- Reordering buffer based on standard K-slack. -/
  buffer : KSlackBuffer DIM
  /-- Reordering buffer based on adaptive K-slack. -/
  bufferPID : KSlackPidBuffer DIM
  /-- Number of tuples received in the last sample. -/
  rcvSample : Nat
  /-- Number of tuples dropped in the last sample. -/
  droppedSample : Nat
  /-- Total number of dropped tuples. -/
  droppedTotal : Nat
  /-- Total number of received tuples. -/
  rcvTotal : Nat
  /-- Total number of tuples emitted out-of-order. -/
  outTuples : Nat
  /-- Total number of tuples extracted from the ordering buffer. -/
  nExtractedTuples : Nat
  /-- Application timestamp of the last tuple scheduled to the PLQ workers. -/
  lastTimestamp : ℚ

/-- What leaves the buffer while it is drained. -/
structure Sifted (DIM : Nat) where
  /-- The tuples scheduled, in order. -/
  scheduled : List (Tuple DIM)
  /-- The tuples discarded, in order. -/
  discarded : List (Tuple DIM)

/-- A tuple joins what has left the buffer. -/
def Sifted.cons (t : Tuple DIM) (scheduled : Bool) (out : Sifted DIM) : Sifted DIM :=
  if scheduled then { out with scheduled := t :: out.scheduled }
  else { out with discarded := t :: out.discarded }

namespace PlqEmitterIop

/-- The constructor. -/
def new (DIM : Nat) (pidEnabled : Bool) : PlqEmitterIop DIM where
  pidEnabled := pidEnabled
  buffer := KSlackBuffer.new DIM
  bufferPID := KSlackPidBuffer.new DIM
  rcvSample := 0
  droppedSample := 0
  droppedTotal := 0
  rcvTotal := 0
  outTuples := 0
  nExtractedTuples := 0
  lastTimestamp := 0

/-- The tuple is counted as received. -/
def receive (e : PlqEmitterIop DIM) : PlqEmitterIop DIM :=
  { e with rcvSample := e.rcvSample + 1, rcvTotal := e.rcvTotal + 1 }

/-- The tuple is inserted into the buffer in use. -/
def insertTuple (t : Tuple DIM) (e : PlqEmitterIop DIM) : PlqEmitterIop DIM × Bool :=
  if e.pidEnabled then
    let (b, newMax) := e.bufferPID.insertTuple t
    ({ e with bufferPID := b }, newMax)
  else
    let (b, newMax) := e.buffer.insertTuple id t
    ({ e with buffer := b }, newMax)

/-- A new sampling interval of the PID resets the counters of the sample. -/
def sample (newSample : Bool) (e : PlqEmitterIop DIM) : PlqEmitterIop DIM :=
  if newSample then { e with droppedSample := 0, rcvSample := 0 } else e

/-- The delay of the adaptive buffer is adapted, given the answer of the PID controller to the drop
probability. -/
def adapt (pid : ℚ → Option ℚ) (e : PlqEmitterIop DIM) : PlqEmitterIop DIM :=
  if e.pidEnabled then
    let (b, newSample) := e.bufferPID.adapt (pid (e.droppedSample / e.rcvSample))
    -- a new sample starts with empty counters
    { e.sample newSample with bufferPID := b }
  else e

/-- A tuple is extracted from the buffer in use. -/
def extractTuple (e : PlqEmitterIop DIM) : Option (Option (Tuple DIM) × PlqEmitterIop DIM) :=
  if e.pidEnabled then
    e.bufferPID.extractTuple.map fun x => (x.1, { e with bufferPID := x.2 })
  else e.buffer.extractTuple.map fun x => (x.1, { e with buffer := x.2 })

/-- The buffer in use is prepared for the flush. -/
def prepareToFlush (e : PlqEmitterIop DIM) : PlqEmitterIop DIM :=
  if e.pidEnabled then { e with bufferPID := e.bufferPID.prepareToFlush }
  else { e with buffer := e.buffer.prepareToFlush }

/-- The buffer in use. -/
def inUse (e : PlqEmitterIop DIM) : KSlackBuffer DIM :=
  if e.pidEnabled then e.bufferPID.toKSlackBuffer else e.buffer

/-- An extracted tuple that is not in order is discarded; the drop counters are not updated by the
final flush. Otherwise it is scheduled, which the result tells. -/
def emit (flush : Bool) (t : Tuple DIM) (e : PlqEmitterIop DIM) : PlqEmitterIop DIM × Bool :=
  let e := { e with nExtractedTuples := e.nExtractedTuples + 1 }
  if t.appTs < e.lastTimestamp then
    -- while flushing, a late tuple is not counted as dropped
    if flush then ({ e with outTuples := e.outTuples + 1 }, false)
    else
      ({ e with
          outTuples := e.outTuples + 1
          droppedSample := e.droppedSample + 1
          droppedTotal := e.droppedTotal + 1 }, false)
  else ({ e with lastTimestamp := t.appTs }, true)

/-- The loop that drains the buffer, with `fuel` for the number of extractions. -/
def drain (flush : Bool) : Nat → PlqEmitterIop DIM → Option (PlqEmitterIop DIM × Sifted DIM)
  | 0, _ => none
  -- the buffer says after the last tuple that there is none left
  | fuel + 1, e =>
      match e.extractTuple with
      | none => none
      | some (none, e) => some (e, ⟨[], []⟩)
      | some (some t, e) =>
          let (e, scheduled) := e.emit flush t
          (drain flush fuel e).map fun x => (x.1, x.2.cons t scheduled)

/-- `processNewTuple`: the new state and what has left the buffer. -/
def processNewTuple (pid : ℚ → Option ℚ) (t : Tuple DIM) (e : PlqEmitterIop DIM) :
    Option (PlqEmitterIop DIM × Sifted DIM) :=
  let e := (e.receive.insertTuple t).1.adapt pid
  -- enough fuel for all the tuples buffered
  e.drain false (e.inUse.getSize + 1)

/-- `flushTupleBuffer`. -/
def flushTupleBuffer (e : PlqEmitterIop DIM) : Option (PlqEmitterIop DIM × Sifted DIM) :=
  let e := e.prepareToFlush
  e.drain true (e.inUse.getSize + 1)

/-! ## The loop that drains the buffer -/

/-- Another state of the buffer in use. -/
def setInUse (b : KSlackBuffer DIM) (e : PlqEmitterIop DIM) : PlqEmitterIop DIM :=
  if e.pidEnabled then { e with bufferPID := { e.bufferPID with toKSlackBuffer := b } }
  else { e with buffer := b }

/-- The buffer that has been put in use is in use. -/
@[simp] theorem inUse_setInUse (b : KSlackBuffer DIM) (e : PlqEmitterIop DIM) :
    (e.setInUse b).inUse = b := by
  cases h : e.pidEnabled <;> simp [setInUse, inUse, h]

/-- The last buffer put in use counts. -/
@[simp] theorem setInUse_setInUse (b b' : KSlackBuffer DIM) (e : PlqEmitterIop DIM) :
    (e.setInUse b).setInUse b' = e.setInUse b' := by
  cases h : e.pidEnabled <;> simp [setInUse, h]

/-- Extraction concerns the buffer in use only. -/
theorem extractTuple_eq (e : PlqEmitterIop DIM) :
    e.extractTuple = e.inUse.extractTuple.map fun x => (x.1, e.setInUse x.2) := by
  cases h : e.pidEnabled with
  | true =>
      simp only [extractTuple, inUse, setInUse, h, if_true, KSlackPidBuffer.extractTuple,
        Option.map_map]
      rfl
  | false => simp only [extractTuple, inUse, setInUse, h, Bool.false_eq_true, if_false]

/-- Preparing the flush concerns the buffer in use only. -/
theorem prepareToFlush_eq (e : PlqEmitterIop DIM) :
    e.prepareToFlush = e.setInUse e.inUse.prepareToFlush := by
  cases h : e.pidEnabled <;> simp [prepareToFlush, KSlackPidBuffer.prepareToFlush, inUse, setInUse, h]

/-- What becomes of an extracted tuple does not depend on the buffer. -/
theorem emit_setInUse (flush : Bool) (t : Tuple DIM) (b : KSlackBuffer DIM) (e : PlqEmitterIop DIM) :
    (e.setInUse b).emit flush t = ((e.emit flush t).1.setInUse b, (e.emit flush t).2) := by
  cases h : e.pidEnabled <;> cases flush <;> by_cases hlt : t.appTs < e.lastTimestamp <;>
    simp [emit, setInUse, h, hlt]

/-- The extracted tuples are looked at one after the other. -/
def sift (flush : Bool) : List (Tuple DIM) → PlqEmitterIop DIM → PlqEmitterIop DIM × Sifted DIM
  | [], e => (e, ⟨[], []⟩)
  | t :: ts, e =>
      let (e, scheduled) := e.emit flush t
      let (e, out) := sift flush ts e
      (e, out.cons t scheduled)

/-- Sifting does not depend on the buffer. -/
theorem sift_setInUse (flush : Bool) (ts : List (Tuple DIM)) (b : KSlackBuffer DIM)
    (e : PlqEmitterIop DIM) :
    sift flush ts (e.setInUse b) = ((sift flush ts e).1.setInUse b, (sift flush ts e).2) := by
  induction ts generalizing e with
  | nil => rfl
  | cons t ts ih =>
      simp only [sift]
      rw [emit_setInUse, ih]

/-- **The loop extracts a list of tuples and sifts it.** -/
theorem drain_eq (flush : Bool) (fuel : Nat) (e : PlqEmitterIop DIM) :
    e.drain flush fuel = (e.inUse.extractAll fuel).map fun x =>
      ((sift flush x.1 e).1.setInUse x.2, (sift flush x.1 e).2) := by
  -- induction on the fuel; whether a tuple is dropped does not depend on the buffer
  induction fuel generalizing e with
  | zero => rfl
  | succ fuel ih =>
      rw [drain, KSlackBuffer.extractAll, extractTuple_eq]
      cases hx : e.inUse.extractTuple with
      | none => rfl
      | some x =>
          obtain ⟨t, b⟩ := x
          cases t with
          | none => rfl
          | some t =>
              simp only [Option.map_some]
              rw [emit_setInUse]
              dsimp only
              rw [ih, inUse_setInUse]
              simp only [Option.map_map, sift_setInUse, setInUse_setInUse]
              rfl

/-- What sifting `ts` does to the emitter, and what it lets through. -/
structure Sifts (ts : List (Tuple DIM)) (e e' : PlqEmitterIop DIM) (out : Sifted DIM) : Prop where
  perm : (out.scheduled ++ out.discarded).Perm ts
  ordered : KSlackBuffer.Sorted out.scheduled
  le : e.lastTimestamp ≤ e'.lastTimestamp
  bounds : ∀ t ∈ out.scheduled, e.lastTimestamp ≤ t.appTs ∧ t.appTs ≤ e'.lastTimestamp
  rcvTotal : e'.rcvTotal = e.rcvTotal
  outTuples : e'.outTuples = e.outTuples + out.discarded.length

/-- One tuple: it is scheduled, and becomes the last one, or it is out of order. -/
theorem emit_cases (flush : Bool) (t : Tuple DIM) (e : PlqEmitterIop DIM) :
    (e.emit flush t).1.rcvTotal = e.rcvTotal ∧
      ((e.emit flush t).2 = true ∧ e.lastTimestamp ≤ t.appTs ∧
          (e.emit flush t).1.lastTimestamp = t.appTs ∧
          (e.emit flush t).1.outTuples = e.outTuples ∨
        (e.emit flush t).2 = false ∧ (e.emit flush t).1.lastTimestamp = e.lastTimestamp ∧
          (e.emit flush t).1.outTuples = e.outTuples + 1) := by
  unfold emit
  dsimp only
  by_cases hlt : t.appTs < e.lastTimestamp
  · rw [if_pos hlt]
    cases flush <;> exact ⟨rfl, Or.inr ⟨rfl, rfl, rfl⟩⟩
  · rw [if_neg hlt]
    exact ⟨rfl, Or.inl ⟨rfl, not_lt.mp hlt, rfl, rfl⟩⟩

/-- **Sifting** neither loses nor disorders a tuple. -/
theorem sifts (flush : Bool) (ts : List (Tuple DIM)) (e : PlqEmitterIop DIM) :
    Sifts ts e (sift flush ts e).1 (sift flush ts e).2 := by
  induction ts generalizing e with
  | nil =>
      exact ⟨List.Perm.refl _, List.Pairwise.nil, le_rfl, fun t ht => absurd ht List.not_mem_nil,
        rfl, rfl⟩
  | cons t ts ih =>
      obtain ⟨htotal, hcases⟩ := emit_cases flush t e
      obtain ⟨hperm, hord, hle, hbounds, hrcv, hout⟩ := ih (e.emit flush t).1
      have hsift : sift flush (t :: ts) e = ((sift flush ts (e.emit flush t).1).1,
          (sift flush ts (e.emit flush t).1).2.cons t (e.emit flush t).2) := rfl
      rw [hsift]
      rcases hcases with ⟨hs, hlast, hts, houts⟩ | ⟨hs, hlast, houts⟩
      · -- the tuple comes first, and is not after the later ones
        rw [hs]
        rw [hts] at hle hbounds
        refine ⟨hperm.cons t, List.pairwise_cons.mpr ⟨fun u hu => (hbounds u hu).1, hord⟩,
          hlast.trans hle, fun u hu => ?_, hrcv.trans htotal, by rw [hout, houts]; rfl⟩
        rcases List.mem_cons.mp hu with rfl | hu
        · exact ⟨hlast, hle⟩
        · exact ⟨hlast.trans (hbounds u hu).1, (hbounds u hu).2⟩
      · rw [hs]
        rw [hlast] at hle hbounds
        refine ⟨?_, hord, hle, hbounds, hrcv.trans htotal, ?_⟩
        · exact List.perm_middle.trans (hperm.cons t)
        · rw [hout, houts]
          show e.outTuples + 1 + _ = e.outTuples + (_ + 1)
          omega

end PlqEmitterIop

end ElasticPPQ
