import ElasticPPQ.Plq.Sched
import ElasticPPQ.Rset

/-! # The WLQ emitter

The class `WLQ_Emitter` (`wlq.hpp`). The results sets that arrive from the first stage wait in the
pending queues of the windows that contain their pane; the emitter turns them into tasks for the
workers of the second stage. It only handles addresses of results sets, so that its state has no
contents. A method returns the new state and the tasks it sends, or an error where the source aborts
or would access the deque of descriptors wrongly. -/

namespace ElasticPPQ

/-- The address of a results set in the second stage. -/
inductive Addr
  /-- The results set of a pane partition, numbered by arrival. -/
  | pane (i : Nat)
  /-- A results set created by a `MERGE` task. -/
  | merged (j : Nat)
  /-- The results set of a window. -/
  | win (k : Nat)
  deriving DecidableEq

/-- The types of tasks (`type_wtask_t`). -/
inductive TypeWTask
  | winUpdate
  | merge
  deriving DecidableEq

/-- A task (`WLQ_Task_t`). -/
structure WTask where
  /-- Type of the task. -/
  type : TypeWTask
  /-- First results set. -/
  p1 : Addr
  /-- Second results set, null once the task has been executed. -/
  p2 : Option Addr
  /-- Window of the task. -/
  winId : Nat
  /-- Whether the first results set is the final one of the window. -/
  finalize : Bool
  deriving DecidableEq

/-- A window descriptor (`Win_Descr_t`). -/
structure WinDescr where
  /-- Identifier of the window (of its results set). -/
  id : Nat
  /-- First pane of the window. -/
  firstPaneId : Nat
  /-- Number of partitions of each pane of the window, `-1` if not known yet. -/
  cntIns : List Int
  /-- Number of completed tasks. -/
  cntTasksCom : Int
  /-- The results sets to be computed; the back of the vector comes first. -/
  pendingQueue : List Addr
  /-- Whether a `WIN_UPDATE` task is being executed. -/
  isBusy : Bool
  deriving DecidableEq

/-- What may go wrong. -/
inductive WlqError
  /-- A call of `abort()`. -/
  | abort
  /-- An access through a null pointer. -/
  | null
  /-- An access outside of the deque or of an array. -/
  | outOfRange
  /-- A difference of identifiers below zero. -/
  | underflow
  deriving DecidableEq

namespace WinDescr

/-- The constructor. -/
def new (id wp first : Nat) : WinDescr where
  id := id
  firstPaneId := first
  cntIns := List.replicate wp (-1)
  cntTasksCom := 0
  pendingQueue := []
  isBusy := false

/-- The loop of `toFinalize`: the sum of the counters, or `-1` if one is not known. -/
def sumCounts : List Int → Int → Int
  | [], sum => sum
  | c :: cs, sum => if c = -1 then -1 else sumCounts cs (sum + c)

/-- `toFinalize`: just one task of the window is left to complete. -/
def toFinalize (wd : WinDescr) : Bool := decide (sumCounts wd.cntIns 0 = wd.cntTasksCom + 1)

/-- `updateCount`, for a results set of pane `paneId`. -/
def updateCount (paneId noInstances : Nat) (wd : WinDescr) : Except WlqError WinDescr :=
  let lpId := paneId - wd.firstPaneId
  if paneId < wd.firstPaneId then .error .underflow
  else if wd.cntIns.length ≤ lpId then .error .outOfRange
  -- the counter is set once, by the first results set that carries the number
  else if wd.cntIns.getD lpId 0 = -1 ∧ 0 < noInstances then
    .ok { wd with cntIns := wd.cntIns.set lpId noInstances }
  else .ok wd

/-- `incrementCompletedTask`. -/
def incrementCompletedTask (wd : WinDescr) : WinDescr :=
  { wd with cntTasksCom := wd.cntTasksCom + 1 }

end WinDescr

/-- The state of `WLQ_Emitter`. -/
structure WlqEmitter (N : Nat) where
  /-- Number of activated workers. -/
  nwWlq : Nat
  /-- The last worker used. -/
  lastW : Nat
  /-- The window of the first descriptor. -/
  firstWinId : Nat
  /-- The descriptors of the open windows, null for the finalized ones. -/
  descrSet : List (Option WinDescr)
  /-- Number of pending tasks. -/
  nPendingtasks : Nat
  /-- Which workers can receive a task. -/
  workerReady : Fin N → Bool
  /-- How many workers can. -/
  nReadyWorkers : Nat
  /-- Number of end-of-stream messages received from the first stage. -/
  eosReceived : Nat
  /-- Which workers are activated. -/
  activatedWorker : Fin N → Bool
  /-- Whether the end of the stream has been broadcast to the workers. -/
  wlqTerminated : Bool
  /-- Whether a call of `svc` has come to its end without a `return`, where its behaviour is undefined. -/
  noReturn : Bool

/-- The first window that contains pane `paneId`. -/
def firstWin (wp sp paneId : Nat) : Nat :=
  if paneId < wp then 0 else ⌈((paneId + 1 - wp : Nat) : ℚ) / sp⌉₊

/-- The last window that contains pane `paneId`. -/
def lastWin (sp paneId : Nat) : Nat := ⌈((paneId + 1 : Nat) : ℚ) / sp⌉₊ - 1

namespace WlqEmitter

variable {N : Nat}

/-- The constructor: the last `nwWlq` workers are activated. -/
def new (N nwWlq : Nat) : WlqEmitter N where
  nwWlq := nwWlq
  lastW := 0
  firstWinId := 0
  descrSet := []
  nPendingtasks := 0
  workerReady := fun _ => true
  nReadyWorkers := N
  eosReceived := 0
  activatedWorker := fun w => decide (N - nwWlq ≤ w.val)
  wlqTerminated := false
  noReturn := false

/-- A worker is idle: activated and ready. -/
def isIdle (s : WlqEmitter N) (w : Fin N) : Bool := s.activatedWorker w && s.workerReady w

/-- `selectIdleWorker`. -/
def selectIdleWorker (s : WlqEmitter N) : Option (Fin N × WlqEmitter N) :=
  ((Sched.scanOrder N (s.lastW + 1)).find? s.isIdle).map fun w => (w, { s with lastW := w.val })

/-- `getNumIdleWorkers`. -/
def getNumIdleWorkers (s : WlqEmitter N) : Nat := (List.finRange N).countP s.isIdle

/-- The descriptor of a window is changed by `f`; a null one is the error `err`. -/
def modifyDescr (err : WlqError) (winId : Nat) (f : WinDescr → Except WlqError WinDescr)
    (s : WlqEmitter N) : Except WlqError (WlqEmitter N) :=
  if winId < s.firstWinId then .error .underflow
  else match s.descrSet[winId - s.firstWinId]? with
    | none => .error .outOfRange
    | some none => .error err
    | some (some wd) => do
        let wd ← f wd
        .ok { s with descrSet := s.descrSet.set (winId - s.firstWinId) (some wd) }

/-- The descriptor of a window is deleted: a null pointer takes its place. -/
def deleteDescr (winId : Nat) (s : WlqEmitter N) : Except WlqError (WlqEmitter N) :=
  if winId < s.firstWinId then .error .underflow
  else if s.descrSet.length ≤ winId - s.firstWinId then .error .outOfRange
  else .ok { s with descrSet := s.descrSet.set (winId - s.firstWinId) none }

/-- `sendTaskToWorker`; the monitoring snapshot is left out. -/
def sendTaskToWorker (t : WTask) (w : Fin N) (s : WlqEmitter N) :
    Except WlqError (WlqEmitter N) :=
  let s := { s with
    workerReady := Function.update s.workerReady w false
    nReadyWorkers := s.nReadyWorkers - 1 }
  if t.finalize then s.deleteDescr t.winId else .ok s

/-- What both branches of `svc` do with a task that has been found: the window of a `WIN_UPDATE` task
becomes busy, one task less is pending, and the task is sent. -/
def schedule (t : WTask) (w : Fin N) (s : WlqEmitter N) : Except WlqError (WlqEmitter N) := do
  let s ← if t.type = .winUpdate then
      s.modifyDescr .null t.winId fun wd => .ok { wd with isBusy := true }
    else .ok s
  -- a finalizing task deletes the descriptor, so that this comes after the window became busy
  sendTaskToWorker t w { s with nPendingtasks := s.nPendingtasks - 1 }

/-- Phase 1 of `getWTasksToSchedule`: `WIN_UPDATE` tasks, `n` at most. Returned are the tasks, how many
may still be found, and the descriptors. -/
def findUpdates : Nat → List (Option WinDescr) → List WTask × Nat × List (Option WinDescr)
  | n, [] => ([], n, [])
  | 0, ds => ([], 0, ds)
  | n + 1, none :: ds =>
      let (ts, m, ds) := findUpdates (n + 1) ds
      (ts, m, none :: ds)
  | n + 1, some wd :: ds =>
      match wd.isBusy, wd.pendingQueue with
      -- the window is not busy and has a results set pending
      | false, p :: q =>
          let (ts, m, ds) := findUpdates n ds
          (⟨.winUpdate, .win wd.id, some p, wd.id, wd.toFinalize⟩ :: ts, m,
            some { wd with pendingQueue := q } :: ds)
      -- the window is skipped, and as many tasks are still looked for
      | _, _ =>
          let (ts, m, ds) := findUpdates (n + 1) ds
          (ts, m, some wd :: ds)

/-- Phase 2 of `getWTasksToSchedule`: `MERGE` tasks, `n` at most. -/
def findMerges : Nat → List (Option WinDescr) → List WTask × List (Option WinDescr)
  | _, [] => ([], [])
  | 0, ds => ([], ds)
  | n + 1, none :: ds =>
      let (ts, ds) := findMerges (n + 1) ds
      (ts, none :: ds)
  | n + 1, some wd :: ds =>
      match wd.pendingQueue with
      -- two pending results sets are merged even if the window is busy
      | p1 :: p2 :: q =>
          let (ts, ds) := findMerges n ds
          (⟨.merge, p1, some p2, wd.id, false⟩ :: ts, some { wd with pendingQueue := q } :: ds)
      | _ =>
          let (ts, ds) := findMerges (n + 1) ds
          (ts, some wd :: ds)

/-- `getWTasksToSchedule`. -/
def getWTasksToSchedule (nTasks : Nat) (s : WlqEmitter N) : List WTask × WlqEmitter N :=
  let (updates, n, ds) := findUpdates nTasks s.descrSet
  let (merges, ds) := findMerges n ds
  (updates ++ merges, { s with descrSet := ds })

/-- The loop that schedules the tasks found to idle workers, which must exist. -/
def scheduleAll : List WTask → WlqEmitter N → Except WlqError (WlqEmitter N × List (Fin N × WTask))
  | [], s => .ok (s, [])
  | t :: ts, s =>
      match s.selectIdleWorker with
      | none => .error .abort
      | some (w, s) => do
          let s ← schedule t w s
          let (s, sent) ← scheduleAll ts s
          .ok (s, (w, t) :: sent)

/-- New descriptors are created, so that there is one for window `last`. -/
def openWindows (wp sp last : Nat) (s : WlqEmitter N) : Except WlqError (WlqEmitter N) :=
  if last < s.firstWinId then .error .underflow
  else .ok { s with
    descrSet := s.descrSet ++
      (List.range' s.descrSet.length (last - s.firstWinId + 1 - s.descrSet.length)).map fun i =>
        some (.new (i + s.firstWinId) wp (sp * (i + s.firstWinId))) }

/-- The loop that adds the results set `p` of pane `paneId` to the pending queues of windows. -/
def addPending (p : Addr) (paneId noInstances : Nat) :
    List Nat → WlqEmitter N → Except WlqError (WlqEmitter N)
  | [], s => .ok s
  | k :: ks, s => do
      -- the same results set is pending in every window of its pane
      let s ← s.modifyDescr .abort k fun wd => do
        let wd ← wd.updateCount paneId noInstances
        .ok { wd with pendingQueue := p :: wd.pendingQueue }
      addPending p paneId noInstances ks { s with nPendingtasks := s.nPendingtasks + 1 }

/-- The descriptors of the finalized windows at the beginning of the deque are deleted. -/
def dropFinalized (s : WlqEmitter N) : WlqEmitter N :=
  { s with
    firstWinId := s.firstWinId + (s.descrSet.takeWhile Option.isNone).length
    descrSet := s.descrSet.dropWhile Option.isNone }

/-- `svc`, for a results set `p` of pane `paneId` from the first stage. -/
def arrive (wp sp : Nat) (p : Addr) (paneId noInstances : Nat) (s : WlqEmitter N) :
    Except WlqError (WlqEmitter N × List (Fin N × WTask)) := do
  let s ← s.openWindows wp sp (lastWin sp paneId)
  let s ← s.addPending p paneId noInstances
    (List.range' (firstWin wp sp paneId) (lastWin sp paneId + 1 - firstWin wp sp paneId))
  -- at most one task for each idle worker
  let (tasks, s) := s.getWTasksToSchedule s.getNumIdleWorkers
  let (s, sent) ← scheduleAll tasks s
  .ok (s.dropFinalized, sent)

/-- What `checkTermination` returns. -/
def terminates (s : WlqEmitter N) : Bool :=
  decide (s.eosReceived = N ∧ s.nPendingtasks = 0 ∧ s.nReadyWorkers = N)

/-- `checkTermination`, with what both callers do next: the workers are woken up and the end of the
stream is broadcast to them. -/
def checkTermination (s : WlqEmitter N) : WlqEmitter N :=
  if s.eosReceived = N ∧ s.nPendingtasks = 0 ∧ s.nReadyWorkers = N then
    { s with activatedWorker := fun _ => true, wlqTerminated := true }
  else s

/-- The end of `svc` for a feedback, from its call of `checkTermination` on. -/
def endFeedback (s : WlqEmitter N) : WlqEmitter N :=
  -- only the other branch has a `return`: the broadcast is the last defined action of the call
  if s.terminates then { s.checkTermination with noReturn := true } else s

/-- `svc`, for a feedback of worker `w`, up to the point where the worker is ready. -/
def complete (w : Fin N) (fb : WTask) (s : WlqEmitter N) : Except WlqError (WlqEmitter N) := do
  -- a window whose last task has been sent has no descriptor any more
  let s ← if fb.finalize = false ∧ fb.type = .winUpdate then
      s.modifyDescr .null fb.winId fun wd =>
        .ok { wd with isBusy := false }.incrementCompletedTask
    else if fb.type = .merge then
      -- the merged results set is pending in its turn
      s.modifyDescr .null fb.winId fun wd =>
        .ok { wd with pendingQueue := fb.p1 :: wd.pendingQueue }.incrementCompletedTask
    else .ok s
  .ok { s with
    workerReady := Function.update s.workerReady w true
    nReadyWorkers := s.nReadyWorkers + 1 }

/-- `svc`, for a feedback of worker `w`. -/
def feedback (w : Fin N) (fb : WTask) (s : WlqEmitter N) :
    Except WlqError (WlqEmitter N × List (Fin N × WTask)) := do
  let s ← s.complete w fb
  -- a worker that has been removed gets no other task
  if s.activatedWorker w then
    match s.getWTasksToSchedule 1 with
    | ([t], s) => do
        let s ← schedule t w s
        .ok (s.endFeedback, [(w, t)])
    | (_, s) => .ok (s.endFeedback, [])
  else .ok (s.endFeedback, [])

/-- `eosnotify`, for an end-of-stream message of the first stage. -/
def eosnotify (s : WlqEmitter N) : WlqEmitter N :=
  checkTermination { s with eosReceived := s.eosReceived + 1 }

/-- `addWorkers`. -/
def addWorkers (num : Nat) (ws : List (Fin N)) (s : WlqEmitter N) :
    Except WlqError (WlqEmitter N) :=
  match Sched.activate ws s.activatedWorker with
  | none => .error .abort
  | some active => .ok { s with nwWlq := s.nwWlq + num, activatedWorker := active }

/-- `removeWorkers`. -/
def removeWorkers (num : Nat) (ws : List (Fin N)) (s : WlqEmitter N) :
    Except WlqError (WlqEmitter N) :=
  match Sched.deactivate ws s.activatedWorker with
  | none => .error .abort
  | some active => .ok { s with nwWlq := s.nwWlq - num, activatedWorker := active }

end WlqEmitter

end ElasticPPQ
