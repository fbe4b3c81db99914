import ElasticPPQ.Lib.LowerBound
import ElasticPPQ.Slack.KSlack
import ElasticPPQ.Tuple

/-! # The reordering buffers

`KSlack_Buffer` and `KSlackPID_Buffer`. The tuples wait in a deque sorted by timestamp; when a new
maximum is inserted, two iterators delimit those that may leave, and these are extracted one by one
over several calls, and erased by the last one. An iterator is a position in the deque, or `none`
where an insertion or an erasure has invalidated it. -/

namespace ElasticPPQ

variable {DIM : Nat}

/-- The fields of `KSlack_Buffer`. -/
structure KSlackBuffer (DIM : Nat) extends KSlack where
  /-- Buffer of tuples waiting to be emitted. -/
  bufferedTuples : List (Tuple DIM)
  /-- Whether some tuples must be emitted. -/
  toEmit : Bool
  /-- Iterator to the first tuple to emit. -/
  firstTuple : Option Nat
  /-- Iterator past the last tuple to emit. -/
  lastTuple : Option Nat

namespace KSlackBuffer

/-- The constructor. -/
def new (DIM : Nat) : KSlackBuffer DIM where
  toKSlack := KSlack.new
  bufferedTuples := []
  toEmit := false
  firstTuple := none
  lastTuple := none

/-- Where a tuple goes: at the end of the deque, or in front of the first one that is not older. -/
def insertSorted (t : Tuple DIM) (ts : List (Tuple DIM)) : List (Tuple DIM) :=
  let it := lowerBound (fun u => decide (u.appTs < t.appTs)) ts
  if it = ts.length then ts ++ [t] else insertAt ts it t

/-- `insertTuple`, the slack being delayed by `delay`. A new maximum opens the extraction of the
tuples that are old enough; the result tells whether it is one. -/
def insertTuple (delay : ℚ → ℚ) (t : Tuple DIM) (b : KSlackBuffer DIM) : KSlackBuffer DIM × Bool :=
  let bufferedTuples := insertSorted t b.bufferedTuples
  let (s, newMax) := b.toKSlack.observe t.appTs
  -- the iterators are only valid after a new maximum
  if newMax then
    ({ toKSlack := s
       bufferedTuples := bufferedTuples
       toEmit := true
       firstTuple := some 0
       lastTuple :=
         some (lowerBound (fun u => decide (u.appTs ≤ s.tcurr - delay s.k)) bufferedTuples) },
      true)
  else
    ({ toKSlack := s
       bufferedTuples := bufferedTuples
       toEmit := b.toEmit
       firstTuple := none
       lastTuple := none },
      false)

/-- `extractTuple`, `none` where it would use an iterator that is not valid. -/
def extractTuple (b : KSlackBuffer DIM) : Option (Option (Tuple DIM) × KSlackBuffer DIM) :=
  if b.toEmit then
    match b.firstTuple, b.lastTuple with
    | some first, some last =>
        if first = last then
          -- the emitted tuples are removed
          some (none, { b with
            bufferedTuples := b.bufferedTuples.drop last
            toEmit := false
            firstTuple := none
            lastTuple := none })
        else b.bufferedTuples[first]?.map fun t => (some t, { b with firstTuple := some (first + 1) })
    -- an iterator that is not valid is dereferenced
    | _, _ => none
  else some (none, b)

/-- `prepareToFlush`. -/
def prepareToFlush (b : KSlackBuffer DIM) : KSlackBuffer DIM :=
  { b with toEmit := true, firstTuple := some 0, lastTuple := some b.bufferedTuples.length }

/-- `getSize`. -/
def getSize (b : KSlackBuffer DIM) : Nat := b.bufferedTuples.length

/-- The tuples that `extractTuple` returns before the next `NULL`. -/
def extractAll : Nat → KSlackBuffer DIM → Option (List (Tuple DIM) × KSlackBuffer DIM)
  | 0, _ => none
  | fuel + 1, b =>
      match b.extractTuple with
      | none => none
      | some (none, b) => some ([], b)
      | some (some t, b) => (extractAll fuel b).map fun x => (t :: x.1, x.2)

end KSlackBuffer

/-- The fields of `KSlackPID_Buffer`. -/
structure KSlackPidBuffer (DIM : Nat) extends KSlackBuffer DIM, KSlackPid

namespace KSlackPidBuffer

/-- The constructor. -/
def new (DIM : Nat) : KSlackPidBuffer DIM := { KSlackBuffer.new DIM with alpha := 0 }

/-- `insertTuple`: the real delay is attenuated. -/
def insertTuple (t : Tuple DIM) (b : KSlackPidBuffer DIM) : KSlackPidBuffer DIM × Bool :=
  let (b', newMax) := b.toKSlackBuffer.insertTuple b.toKSlackPid.delay t
  ({ b with toKSlackBuffer := b' }, newMax)

/-- `adapt`, given the output of the PID controller. -/
def adapt (output : Option ℚ) (b : KSlackPidBuffer DIM) : KSlackPidBuffer DIM × Bool :=
  let (s, newSample) := b.toKSlackPid.adapt output
  ({ b with alpha := s.alpha }, newSample)

/-- `extractTuple`. -/
def extractTuple (b : KSlackPidBuffer DIM) : Option (Option (Tuple DIM) × KSlackPidBuffer DIM) :=
  b.toKSlackBuffer.extractTuple.map fun x => (x.1, { b with toKSlackBuffer := x.2 })

/-- `prepareToFlush`. -/
def prepareToFlush (b : KSlackPidBuffer DIM) : KSlackPidBuffer DIM :=
  { b with toKSlackBuffer := b.toKSlackBuffer.prepareToFlush }

end KSlackPidBuffer

namespace KSlackBuffer

/-! ## The deque stays sorted -/

/-- The deque is sorted by timestamp. -/
def Sorted (ts : List (Tuple DIM)) : Prop := ts.Pairwise fun t u => t.appTs ≤ u.appTs

/-- At the end of the deque or not, the tuple goes to the lower bound. -/
theorem insertSorted_eq (t : Tuple DIM) (ts : List (Tuple DIM)) :
    insertSorted t ts = insertAt ts (lowerBound (fun u => decide (u.appTs < t.appTs)) ts) t := by
  unfold insertSorted
  dsimp only
  split
  · rename_i hend
    rw [insertAt, hend, List.take_length, List.drop_length]
  · rfl

/-- An insertion adds one tuple. -/
theorem insertSorted_perm (t : Tuple DIM) (ts : List (Tuple DIM)) :
    (insertSorted t ts).Perm (t :: ts) := by
  rw [insertSorted_eq]
  exact insertAt_perm _ _ _

/-- An insertion keeps the buffer sorted. -/
theorem Sorted.insertSorted {ts : List (Tuple DIM)} (h : Sorted ts) (t : Tuple DIM) :
    Sorted (insertSorted t ts) := by
  rw [insertSorted_eq]
  exact pairwise_insertAt (fun u : Tuple DIM => u.appTs) h t

variable {delay : ℚ → ℚ} {t : Tuple DIM} {b : KSlackBuffer DIM}

/-- An insertion puts the tuple into the deque, whatever its timestamp. -/
@[simp] theorem insertTuple_bufferedTuples :
    (b.insertTuple delay t).1.bufferedTuples = insertSorted t b.bufferedTuples := by
  unfold insertTuple
  dsimp only
  split <;> rfl

/-- The slack is updated, and tells whether the tuple is a new maximum. -/
theorem insertTuple_observe (delay : ℚ → ℚ) (t : Tuple DIM) (b : KSlackBuffer DIM) :
    ((b.insertTuple delay t).1.toKSlack, (b.insertTuple delay t).2) = b.toKSlack.observe t.appTs := by
  unfold insertTuple
  dsimp only
  split
  · rename_i hnew
    exact Prod.ext rfl hnew.symm
  · rename_i hold
    exact Prod.ext rfl (eq_false_of_ne_true hold).symm

/-- The result tells whether the tuple is a new maximum. -/
theorem insertTuple_newMax : (b.insertTuple delay t).2 = true ↔ b.tcurr < t.appTs := by
  have h := congrArg Prod.snd (insertTuple_observe delay t b)
  dsimp only at h
  rw [h]
  rcases le_or_gt t.appTs b.tcurr with hle | hlt
  · rw [KSlack.observe_of_le hle]
    exact ⟨fun hf => absurd hf Bool.false_ne_true, fun hlt => absurd hlt (not_lt.mpr hle)⟩
  · obtain ⟨k, hk, -⟩ := KSlack.observe_of_lt hlt
    rw [hk]
    exact ⟨fun _ => hlt, fun _ => rfl⟩

/-- A tuple that is no new maximum leaves the extraction as it was. -/
theorem insertTuple_of_le (h : (b.insertTuple delay t).2 = false) :
    (b.insertTuple delay t).1.toEmit = b.toEmit := by
  unfold insertTuple at h ⊢
  dsimp only at h ⊢
  split
  · rename_i hnew
    rw [if_pos hnew] at h
    cases h
  · rfl

/-- The tuples between the iterators are still to be extracted. -/
structure Emitting (first last : Nat) (b : KSlackBuffer DIM) : Prop where
  toEmit : b.toEmit = true
  firstTuple : b.firstTuple = some first
  lastTuple : b.lastTuple = some last
  le : first ≤ last
  lastLe : last ≤ b.bufferedTuples.length

/-- The timestamp up to which a new maximum releases the tuples. -/
def release (delay : ℚ → ℚ) (b : KSlackBuffer DIM) : ℚ := b.tcurr - delay b.k

/-- A new maximum opens the extraction, of the tuples that are old enough. -/
theorem insertTuple_of_newMax (hs : Sorted b.bufferedTuples)
    (h : (b.insertTuple delay t).2 = true) :
    ∃ last, (b.insertTuple delay t).1.Emitting 0 last ∧
      (b.insertTuple delay t).1.bufferedTuples.take last =
        (b.insertTuple delay t).1.bufferedTuples.filter fun u =>
          u.appTs ≤ (b.insertTuple delay t).1.release delay := by
  have hsort := hs.insertSorted t
  unfold insertTuple at h ⊢
  dsimp only at h ⊢
  -- only a new maximal timestamp makes the buffer emit
  split
  · have hp := partitioned_le (fun u : Tuple DIM => u.appTs) hsort
      ((b.toKSlack.observe t.appTs).1.tcurr - delay (b.toKSlack.observe t.appTs).1.k)
    exact ⟨_, ⟨rfl, rfl, rfl, Nat.zero_le _, lowerBound_le hp⟩, take_lowerBound hp⟩
  · rename_i hold
    rw [if_neg hold] at h
    cases h

/-! ## Extraction -/

/-- The deque without the tuples that have been extracted. -/
def erased (last : Nat) (b : KSlackBuffer DIM) : KSlackBuffer DIM :=
  { b with
    bufferedTuples := b.bufferedTuples.drop last
    toEmit := false
    firstTuple := none
    lastTuple := none }

/-- Nothing is extracted unless the extraction is open. -/
theorem extractAll_of_idle (h : b.toEmit = false) (fuel : Nat) :
    b.extractAll (fuel + 1) = some ([], b) := by
  rw [extractAll, extractTuple, if_neg (by rw [h]; exact Bool.false_ne_true)]

/-- **Extraction.** The tuples between the iterators are returned in order, and then erased together
with the ones before. -/
theorem Emitting.extractAll {first last : Nat} (h : b.Emitting first last) {fuel : Nat}
    (hfuel : last - first < fuel) :
    b.extractAll fuel = some ((b.bufferedTuples.take last).drop first, b.erased last) := by
  induction fuel generalizing b first with
  | zero => exact absurd hfuel (Nat.not_lt_zero _)
  | succ fuel ih =>
      rw [KSlackBuffer.extractAll, extractTuple, if_pos h.toEmit, h.firstTuple, h.lastTuple]
      dsimp only
      by_cases heq : first = last
      · -- the last call
        rw [if_pos heq, heq]
        dsimp only
        rw [List.drop_of_length_le (List.length_take_le _ _)]
        rfl
      · rw [if_neg heq]
        have hlt : first < last := lt_of_le_of_ne h.le heq
        have hlen : first < b.bufferedTuples.length := hlt.trans_le h.lastLe
        rw [List.getElem?_eq_getElem hlen]
        dsimp only [Option.map_some]
        have hnext : Emitting (first + 1) last
            { b with firstTuple := some (first + 1), lastTuple := some last } :=
          ⟨h.toEmit, rfl, rfl, hlt, h.lastLe⟩
        rw [ih hnext (by omega)]
        dsimp only [Option.map_some]
        have htake : first < (b.bufferedTuples.take last).length := by
          rw [List.length_take]
          omega
        rw [List.drop_eq_getElem_cons htake, List.getElem_take]
        rfl

/-- Flushing opens the extraction of everything. -/
theorem prepareToFlush_emitting (b : KSlackBuffer DIM) :
    b.prepareToFlush.Emitting 0 b.bufferedTuples.length :=
  ⟨rfl, rfl, rfl, Nat.zero_le _, le_rfl⟩

end KSlackBuffer

end ElasticPPQ
