import ElasticPPQ.Rset

/-! # The PLQ workers

The classes `PLQ_Worker` and `PLQ_Worker_IOP` (`plq.hpp`). A worker keeps the results sets of its
open panes in a deque; `svc` reacts to one message of the emitter and returns the results sets sent
to the next stage, or `none` where the source aborts. The two versions differ in how panes are
closed: by punctuations, or by the arrival of a later pane. -/

namespace ElasticPPQ

/-- The number of windows that contain pane `paneId`, as both versions of the worker compute it:
`size_t` arithmetic modulo `2^64`, quotients of doubles taken exactly. -/
def countWindows (wp sp paneId : Nat) : UInt64 :=
  -- the identifier is adjusted to start from 1
  let idx : ℚ := (((paneId + 1) % 2 ^ 64 : Nat) : ℚ)
  let first : UInt64 := if idx < wp then 1 else UInt64.ofNat (⌈(idx - wp) / sp⌉ + 1).toNat
  let last : UInt64 := UInt64.ofNat ⌈idx / sp⌉.toNat
  first - last + 1

/-- A PLQ worker: the deque of its open panes and the number of results sets it has allocated. -/
structure PlqWorker (R : Type) where
  /-- The results sets of the open panes. -/
  paneSet : List (Rset R)
  /-- Number of results sets allocated so far. -/
  allocs : Nat

namespace PlqWorker

variable {R : Type} {DIM : Nat}

/-- The worker as constructed. -/
def new (R : Type) : PlqWorker R := ⟨[], 0⟩

/-- The results sets of the deque before the lower bound of `paneId`. -/
def before (w : PlqWorker R) (paneId : Nat) : List (Rset R) :=
  w.paneSet.takeWhile fun r => r.id < paneId

/-- The results sets of the deque from the lower bound of `paneId` on. -/
def lowerBound (w : PlqWorker R) (paneId : Nat) : List (Rset R) :=
  w.paneSet.dropWhile fun r => r.id < paneId

variable [PrefQuery (Row ℚ DIM) R]

/-- The results set that a worker allocates for the pane of a message. -/
def newRset (wp sp : Nat) (w : PlqWorker R) (t : Tuple DIM) : Rset R where
  addr := w.allocs
  refCounter := countWindows wp sp t.paneId
  id := t.paneId
  noInstances := t.noInstances
  set := PrefQuery.new

/-- A regular tuple is added to the results set of its pane; an `EMPTYPANE` message is not. -/
def compute (pane : Rset R) (t : Tuple DIM) : Rset R :=
  if t.type = .regular then { pane with set := PrefQuery.addComputeTuple pane.set t.toRow }
  else pane

/-- The branch of `svc` for `NEW_INST`, the same in both versions: the counter of the results set
of the pane is changed. It must exist, otherwise the source aborts. -/
def setInstances (w : PlqWorker R) (t : Tuple DIM) : Option (PlqWorker R) :=
  match w.lowerBound t.paneId with
  | [] => none
  | r :: rest =>
      if r.id ≠ t.paneId then none
      else some { w with paneSet := w.before t.paneId ++ r.setNoInstances t.noInstances :: rest }

/-- The last branch of `PLQ_Worker::svc`: the results set of the pane is searched, created at the end
or in the middle of the deque if it is not present, and updated if the message is regular. -/
def updatePane (wp sp : Nat) (w : PlqWorker R) (t : Tuple DIM) : PlqWorker R :=
  match w.lowerBound t.paneId with
  -- all the open panes are earlier
  | [] => ⟨w.paneSet ++ [compute (newRset wp sp w t) t], w.allocs + 1⟩
  | r :: rest =>
      -- the pane comes between two open ones
      if r.id ≠ t.paneId then
        ⟨w.before t.paneId ++ compute (newRset wp sp w t) t :: r :: rest, w.allocs + 1⟩
      else { w with paneSet := w.before t.paneId ++ compute r t :: rest }

/-- `PLQ_Worker::svc`. -/
def svc (wp sp : Nat) (w : PlqWorker R) (t : Tuple DIM) :
    Option (PlqWorker R × List (Rset R)) :=
  match t.type with
  | .punct => some ({ w with paneSet := w.lowerBound t.paneId }, w.before t.paneId)
  | .end => some ({ w with paneSet := [] }, w.paneSet)
  | .newInst => (w.setInstances t).map fun w' => (w', [])
  -- zero stands for a number of partitions that is not known yet
  | .flush => some ({ w with paneSet := [] }, w.paneSet.map fun r => r.setNoInstances 0)
  -- the empty results set is sent out at once, and not kept
  | .lull => some ({ w with allocs := w.allocs + 1 }, [newRset wp sp w t])
  | _ => some (updatePane wp sp w t, [])

/-- The last branch of `PLQ_Worker_IOP::svc`: the results sets before the pane are sent out; they
leave the deque only where the pane is new, and then it is added at the end. -/
def updatePaneIop (wp sp : Nat) (w : PlqWorker R) (t : Tuple DIM) : PlqWorker R :=
  match w.lowerBound t.paneId with
  | [] => ⟨[compute (newRset wp sp w t) t], w.allocs + 1⟩
  -- the results set found is taken to be the one of the pane
  | r :: rest => { w with paneSet := w.before t.paneId ++ compute r t :: rest }

/-- `PLQ_Worker_IOP::svc`: there are no punctuations, and the arrival of a pane closes the earlier
ones. -/
def svcIop (wp sp : Nat) (w : PlqWorker R) (t : Tuple DIM) :
    Option (PlqWorker R × List (Rset R)) :=
  match t.type with
  | .end => some ({ w with paneSet := [] }, w.paneSet)
  | .newInst => (w.setInstances t).map fun w' => (w', [])
  | .flush =>
      -- the panes below the one in the message are closed: their counter is final
      some ({ w with paneSet := [] },
        w.paneSet.map fun r => if t.paneId ≤ r.id then r.setNoInstances 0 else r)
  | .lull => some ({ w with allocs := w.allocs + 1 }, [newRset wp sp w t])
  | _ => some (updatePaneIop wp sp w t, w.before t.paneId)

end PlqWorker

end ElasticPPQ
