import ElasticPPQ.Lib.Resize
import ElasticPPQ.Tuple

/-! # The scheduling strategies of the PLQ emitter: common part

The abstract class `Sched` (`sched_plq.hpp`). Worker identifiers are `Fin N` for
`N = NUM_WORKER_THREADS`. A method returns the new state and the messages it sends, in order, or
`none` where the source aborts. The snapshot keeps only the splitting factors of the completed
panes: its other counters feed the utilization estimates of the controller. -/

namespace ElasticPPQ

/-- The messages that a method sends, with their addressees, in order. -/
abbrev Sends (N DIM : Nat) := List (Fin N × Tuple DIM)

/-- Whether a worker is in a list of workers. -/
instance decidableMemWorkers {N : Nat} (w : Fin N) (ws : List (Fin N)) : Decidable (w ∈ ws) :=
  inferInstance

/-- The state of `Sched`. -/
structure Sched (N : Nat) where
  /-- Number of PLQ workers currently utilized. -/
  nwPlq : Nat
  /-- `pInstances[i]` is the number of partitions of pane `i`. -/
  pInstances : List Nat
  /-- `paneSize[i]` is the number of tuples of pane `i`. -/
  paneSize : List Nat
  /-- Where the next round-robin scan starts. -/
  lastW : Nat
  /-- Identifier of the next pane to complete. -/
  nextPaneId : Nat
  /-- Which workers are activated. -/
  activatedWorker : Fin N → Bool
  /-- Splitting factors of the panes completed during the current snapshot. -/
  cmPanesSplit : List Nat

namespace Sched

variable {N DIM : Nat}

/-- The constructor: the first `nwPlq` workers are utilized. -/
def new (N nwPlq : Nat) : Sched N where
  nwPlq := nwPlq
  pInstances := []
  paneSize := []
  lastW := 0
  nextPaneId := 0
  activatedWorker := fun i => decide (i.val < nwPlq)
  cmPanesSplit := []

/-- The order in which a scan that starts at worker `w` visits the workers. -/
def scanOrder (N w : Nat) : List (Fin N) := (List.finRange N).drop w ++ (List.finRange N).take w

/-- `get_rr_w`: the next activated worker in the round-robin sequence. -/
def getRrW (s : Sched N) : Option (Fin N × Sched N) :=
  ((scanOrder N s.lastW).find? s.activatedWorker).map fun i =>
    (i, { s with lastW := (i.val + 1) % N })

/-- The scan of `get_llw_w`: the first activated worker with the shortest input queue. -/
def leastLoaded (active : Fin N → Bool) (qlen : Fin N → Nat) :
    List (Fin N) → Option (Fin N) → Option (Fin N)
  | [], best => best
  | w :: ws, none => leastLoaded active qlen ws (if active w then some w else none)
  -- a tie is won by the worker visited first
  | w :: ws, some b =>
      leastLoaded active qlen ws (if active w && decide (qlen w < qlen b) then some w else some b)

/-- `get_llw_w`, given the queue lengths that the scan reads. -/
def getLlwW (qlen : Fin N → Nat) (s : Sched N) : Option (Fin N × Sched N) :=
  (leastLoaded s.activatedWorker qlen (scanOrder N s.lastW) none).map fun i =>
    (i, { s with lastW := (i.val + 1) % N })

/-- `broadcast_punc_to_w`: to all the activated workers. -/
def broadcastPuncToW (t : Tuple DIM) (s : Sched N) : Sends N DIM :=
  ((List.finRange N).filter s.activatedWorker).map fun i => (i, t)

/-- `multicast_newinst_to_w`: all the addressees must be activated. -/
def multicastNewinstToW (ws : List (Fin N)) (paneId countInstances : Nat) (s : Sched N) :
    Option (Sends N DIM) :=
  if ws.all s.activatedWorker then
    some (ws.map fun w => (w, Tuple.createNewinst paneId countInstances ws.length))
  else none

/-- `multicast_flush_to_w`: all the addressees must be de-activated. -/
def multicastFlushToW (ws : List (Fin N)) (paneId : Nat) (s : Sched N) : Option (Sends N DIM) :=
  if ws.any s.activatedWorker then none
  else some (ws.map fun w => (w, Tuple.createFlush ws.length paneId))

/-- The loop of `addWorkers`: each worker must be de-activated. -/
def activate : List (Fin N) → (Fin N → Bool) → Option (Fin N → Bool)
  | [], active => some active
  | w :: ws, active => if active w then none else activate ws (Function.update active w true)

/-- The loop of `removeWorkers`: each worker must be activated. -/
def deactivate : List (Fin N) → (Fin N → Bool) → Option (Fin N → Bool)
  | [], active => some active
  | w :: ws, active => if active w then deactivate ws (Function.update active w false) else none

/-- `addWorkers`. -/
def addWorkers (num : Nat) (ws : List (Fin N)) (s : Sched N) : Option (Sched N) :=
  (activate ws s.activatedWorker).map fun active =>
    { s with nwPlq := s.nwPlq + num, activatedWorker := active }

/-- The first lines of every `removeWorkers`: the workers are de-activated and flushed. -/
def deactivateAndFlush (num : Nat) (ws : List (Fin N)) (s : Sched N) :
    Option (Sched N × Sends N DIM) := do
  let active ← deactivate ws s.activatedWorker
  -- the addressees must be de-activated before they are flushed
  let s := { s with nwPlq := s.nwPlq - num, activatedWorker := active }
  let flush ← s.multicastFlushToW ws s.nextPaneId
  some (s, flush)

/-- The vectors are resized to have an entry for pane `paneId`. -/
def growTo (paneId : Nat) (s : Sched N) : Sched N :=
  if s.pInstances.length ≤ paneId then
    { s with
      pInstances := resize s.pInstances (paneId + 1) 0
      paneSize := resize s.paneSize (paneId + 1) 0 }
  else s

/-- The body of the loop over the completed panes: a pane without tuples has one partition, and its
empty result is produced by a lull message to an activated worker. -/
def closePane (i : Nat) (s : Sched N) : Option (Sched N × Sends N DIM) := do
  let (s, lull) ←
    -- an empty pane counts one partition, whose result an activated worker produces
    if s.paneSize.getD i 0 = 0 then do
      let s := { s with pInstances := s.pInstances.set i 1 }
      let (w, s) ← s.getRrW
      some (s, [(w, Tuple.createLull i)])
    else some (s, [])
  some ({ s with cmPanesSplit := s.cmPanesSplit ++ [s.pInstances.getD i 0] }, lull)

/-- The loop over the completed panes `i, …, i + n - 1`. -/
def closePanes : Nat → Nat → Sched N → Option (Sched N × Sends N DIM)
  | _, 0, s => some (s, [])
  | i, n + 1, s => do
      let (s, lull) ← closePane i s
      let (s, lulls) ← closePanes (i + 1) n s
      some (s, lull ++ lulls)

/-- `executeStreamProgress`: all the panes below `pId` are complete. With `IOP` defined no
punctuation is sent. -/
def executeStreamProgress (iop : Bool) (ts : ℚ) (pId : Nat) (s : Sched N) :
    Option (Sched N × Sends N DIM) :=
  if pId < s.nextPaneId then some (s, [])
  else do
    let s := s.growTo pId
    let (s, lulls) ← closePanes s.nextPaneId (pId - s.nextPaneId) s
    let s := { s with nextPaneId := pId }
    -- the workers of the in-order pipeline close their panes themselves
    if iop then some (s, lulls)
    else some (s, lulls ++ s.broadcastPuncToW (Tuple.createPunctuation ts pId s.nwPlq))

/-- `broadcast_end_to_w`: all the workers are woken up and receive the end-of-stream message. -/
def broadcastEndToW (s : Sched N) : Sched N × Sends N DIM :=
  ({ s with activatedWorker := fun _ => true },
    (List.finRange N).map fun i => (i, Tuple.createEnd N))

end Sched

end ElasticPPQ
