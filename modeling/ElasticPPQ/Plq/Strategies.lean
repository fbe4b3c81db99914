import ElasticPPQ.Plq.Sched

/-! # The three scheduling strategies

The classes `PB_RR_Sched`, `TB_RR_Sched` and `Adaptive_Sched` with `Adaptive_Sched_PID`
(`sched_plq.hpp`). Each keeps a table of its own next to the common state: the worker of each pane,
the holders of each pane, or the pane descriptors. -/

namespace ElasticPPQ

variable {N DIM : Nat}

/-! ## Pane-based round-robin -/

/-- The state of `PB_RR_Sched`. -/
structure PbRrSched (N : Nat) extends Sched N where
  /-- The worker assigned to each pane (`none` for `-1`). -/
  panesWs : List (Option (Fin N))

namespace PbRrSched

/-- The constructor. -/
def new (N nwPlq : Nat) : PbRrSched N := { Sched.new N nwPlq with panesWs := [] }

/-- The vectors are resized to have an entry for pane `paneId`. -/
def growTo (paneId : Nat) (s : PbRrSched N) : PbRrSched N :=
  if s.pInstances.length ≤ paneId then
    { s with
      pInstances := resize s.pInstances (paneId + 1) 0
      paneSize := resize s.paneSize (paneId + 1) 0
      panesWs := resize s.panesWs (paneId + 1) none }
  else s

/-- `PB_RR_Sched::sched_to_worker`. -/
def schedToWorker (t : Tuple DIM) (s : PbRrSched N) : Option (PbRrSched N × Sends N DIM) := do
  let p := t.paneId
  let s := s.growTo p
  let s := { s with paneSize := s.paneSize.set p (s.paneSize.getD p 0 + 1) }
  match s.panesWs.getD p none with
  | none =>
      let (w, base) ← s.getRrW
      let s := { s with
        toSched := { base with pInstances := base.pInstances.set p 1 }
        panesWs := s.panesWs.set p (some w) }
      some (s, [(w, { t with noInstances := s.pInstances.getD p 0 })])
  | some w => some (s, [(w, { t with noInstances := s.pInstances.getD p 0 })])

/-- The loop of `PB_RR_Sched::removeWorkers` over the non-closed panes `p, …, p + n - 1`: a pane of a
removed worker `ws` gets another partition. -/
def reassign (ws : List (Fin N)) : Nat → Nat → PbRrSched N → Option (PbRrSched N × Sends N DIM)
  | _, 0, s => some (s, [])
  | p, n + 1, s => do
      let (s, out) ←
        if ws.any (fun w => s.panesWs.getD p none = some w) then do
          let s := { s with pInstances := s.pInstances.set p (s.pInstances.getD p 0 + 1) }
          let (w, base) ← s.getRrW
          let s := { s with toSched := base, panesWs := s.panesWs.set p (some w) }
          some (s, [(w, Tuple.createEmptypane p (s.pInstances.getD p 0))])
        else some (s, [])
      let (s, outs) ← reassign ws (p + 1) n s
      some (s, out ++ outs)

/-- `PB_RR_Sched::removeWorkers`. -/
def removeWorkers (num : Nat) (ws : List (Fin N)) (s : PbRrSched N) :
    Option (PbRrSched N × Sends N DIM) := do
  let (base, flush) ← s.deactivateAndFlush num ws
  let s := { s with toSched := base }
  let (s, outs) ← reassign ws s.nextPaneId (s.panesWs.length - s.nextPaneId) s
  some (s, flush ++ outs)

/-- `PB_RR_Sched::executeStreamProgress`. -/
def executeStreamProgress (iop : Bool) (ts : ℚ) (pId : Nat) (s : PbRrSched N) :
    Option (PbRrSched N × Sends N DIM) :=
  if pId < s.nextPaneId then some (s, [])
  else do
    let s := if s.panesWs.length ≤ pId then
      { s with panesWs := resize s.panesWs (pId + 1) none } else s
    let (base, outs) ← s.toSched.executeStreamProgress iop ts pId
    some ({ s with toSched := base }, outs)

end PbRrSched

/-! ## Tuple-based round-robin -/

/-- The state of `TB_RR_Sched`. -/
structure TbRrSched (N : Nat) extends Sched N where
  /-- The workers that have a partition of each pane. -/
  pWorkers : List (List (Fin N))

namespace TbRrSched

/-- The constructor. -/
def new (N nwPlq : Nat) : TbRrSched N := { Sched.new N nwPlq with pWorkers := [] }

/-- The vectors are resized to have an entry for pane `paneId`. -/
def growTo (paneId : Nat) (s : TbRrSched N) : TbRrSched N :=
  if s.pInstances.length ≤ paneId then
    { s with
      pInstances := resize s.pInstances (paneId + 1) 0
      paneSize := resize s.paneSize (paneId + 1) 0
      pWorkers := resize s.pWorkers (paneId + 1) [] }
  else s

/-- `TB_RR_Sched::sched_to_worker`. -/
def schedToWorker (t : Tuple DIM) (s : TbRrSched N) : Option (TbRrSched N × Sends N DIM) := do
  let p := t.paneId
  let s := s.growTo p
  let s := { s with paneSize := s.paneSize.set p (s.paneSize.getD p 0 + 1) }
  let (w, base) ← s.getRrW
  let s := { s with toSched := base }
  let (s, news) ←
    if w ∈ s.pWorkers.getD p [] then some (s, [])
    else do
      let s := { s with pInstances := s.pInstances.set p (s.pInstances.getD p 0 + 1) }
      let news ← s.multicastNewinstToW (s.pWorkers.getD p []) p (s.pInstances.getD p 0)
      some ({ s with pWorkers := s.pWorkers.set p (s.pWorkers.getD p [] ++ [w]) }, news)
  some (s, news ++ [(w, { t with noInstances := s.pInstances.getD p 0 })])

/-- The loop of `TB_RR_Sched::removeWorkers` over the non-closed panes `p, …, p + n - 1`: the holders
that are still activated are kept, and a pane left without one gets another partition. -/
def reassign : Nat → Nat → TbRrSched N → Option (TbRrSched N × Sends N DIM)
  | _, 0, s => some (s, [])
  | p, n + 1, s => do
      let kept := (s.pWorkers.getD p []).filter s.activatedWorker
      let (s, list, out) ←
        if kept = [] then do
          let s := { s with pInstances := s.pInstances.set p (s.pInstances.getD p 0 + 1) }
          let (w, base) ← s.getRrW
          let s := { s with toSched := base }
          some (s, kept ++ [w], [(w, Tuple.createEmptypane p (s.pInstances.getD p 0))])
        else some (s, kept, [])
      let s := { s with pWorkers := s.pWorkers.set p list }
      let (s, outs) ← reassign (p + 1) n s
      some (s, out ++ outs)

/-- `TB_RR_Sched::removeWorkers`. -/
def removeWorkers (num : Nat) (ws : List (Fin N)) (s : TbRrSched N) :
    Option (TbRrSched N × Sends N DIM) := do
  let (base, flush) ← s.deactivateAndFlush num ws
  let s := { s with toSched := base }
  let (s, outs) ← reassign s.nextPaneId (s.pWorkers.length - s.nextPaneId) s
  some (s, flush ++ outs)

/-- `TB_RR_Sched::executeStreamProgress`. -/
def executeStreamProgress (iop : Bool) (ts : ℚ) (pId : Nat) (s : TbRrSched N) :
    Option (TbRrSched N × Sends N DIM) :=
  if pId < s.nextPaneId then some (s, [])
  else do
    let s := if s.pWorkers.length ≤ pId then
      { s with pWorkers := resize s.pWorkers (pId + 1) [] } else s
    let (base, outs) ← s.toSched.executeStreamProgress iop ts pId
    some ({ s with toSched := base }, outs)

end TbRrSched

/-! ## Adaptive scheduling -/

/-- The pane descriptor `pane_des_t`. -/
structure PaneDes (N : Nat) where
  /-- The worker of the active partition (`none` for `-1`). -/
  aWorker : Option (Fin N)
  /-- The workers that have a partition of the pane. -/
  wIds : List (Fin N)
  /-- Number of tuples of the active partition. -/
  aTuples : Nat
  /-- Sizes of the partitions by worker. -/
  iSizes : Fin N → Nat

/-- The default constructor of `pane_des_t`. -/
def PaneDes.new (N : Nat) : PaneDes N := ⟨none, [], 0, fun _ => 0⟩

/-- The state of `Adaptive_Sched`. -/
structure AdaptiveSched (N : Nat) extends Sched N where
  /-- The pane descriptors. -/
  pv : List (PaneDes N)
  /-- Average size of the partitions. -/
  avgSize : ℚ
  /-- Sum of the squared deviations of the partition sizes. -/
  snSize : ℚ
  /-- Standard deviation of the partition sizes (`none` for not-a-number). -/
  stdSize : Option ℚ
  /-- Number of partitions accounted. -/
  totInstances : ℚ
  /-- Whether the initial warmup period lasts. -/
  warmup : Bool

/-- What one method of `Adaptive_Sched` reads from outside its state. -/
structure AdaptiveEnv (N : Nat) where
  /-- The lengths of the input queues seen by the scan of `get_llw_w` for pane `p`. -/
  qlen : Nat → Fin N → Nat
  /-- The factor that divides the threshold: `1`, or the `alpha` of `Adaptive_Sched_PID`. -/
  alpha : ℚ
  /-- What a read at index `p` past the end of `i_sizes` finds. -/
  outOfRange : Nat → Nat
  /-- The square root of the mathematical library. -/
  sqrt : ℚ → ℚ

namespace AdaptiveSched

/-- The constructor. -/
def new (N nwPlq : Nat) : AdaptiveSched N :=
  { Sched.new N nwPlq with
    pv := [], avgSize := 0, snSize := 0, stdSize := some 0, totInstances := 0, warmup := true }

/-- The vectors are resized to have an entry for pane `paneId`. -/
def growTo (paneId : Nat) (s : AdaptiveSched N) : AdaptiveSched N :=
  if s.pInstances.length ≤ paneId then
    { s with
      pInstances := resize s.pInstances (paneId + 1) 0
      paneSize := resize s.paneSize (paneId + 1) 0
      pv := resize s.pv (paneId + 1) (PaneDes.new N) }
  else s

/-- The descriptor of pane `p`. -/
def des (s : AdaptiveSched N) (p : Nat) : PaneDes N := s.pv.getD p (PaneDes.new N)

/-- The descriptor of pane `p` is overwritten. -/
def setDes (p : Nat) (pd : PaneDes N) (s : AdaptiveSched N) : AdaptiveSched N :=
  { s with pv := s.pv.set p pd }

/-- The comparison of the active partition with the threshold; it fails against a not-a-number. -/
def belowThreshold (env : AdaptiveEnv N) (aTuples : Nat) (s : AdaptiveSched N) : Bool :=
  match s.stdSize with
  | none => false
  | some std => decide ((aTuples : ℚ) ≤ 1 / env.alpha * (s.avgSize + std))

/-- `sched_to_worker` of `Adaptive_Sched` and of `Adaptive_Sched_PID`, which differ in the factor
`alpha` only. -/
def schedToWorker (env : AdaptiveEnv N) (t : Tuple DIM) (s : AdaptiveSched N) :
    Option (AdaptiveSched N × Sends N DIM) := do
  let p := t.paneId
  let s := s.growTo p
  let s := { s with paneSize := s.paneSize.set p (s.paneSize.getD p 0 + 1) }
  let pd := s.des p
  if s.paneSize.getD p 0 = 1 then
    -- the tuple is the first of a new pane
    let (w, base) ← s.getLlwW (env.qlen p)
    let s := { s with toSched := { base with pInstances := base.pInstances.set p 1 } }
    let s := s.setDes p ⟨some w, pd.wIds ++ [w], 1, Function.update pd.iSizes w 1⟩
    some (s, [(w, { t with noInstances := s.pInstances.getD p 0 })])
  else if s.belowThreshold env pd.aTuples || s.warmup then
    -- the pane partition is not so large: schedule the tuple as before
    let w ← pd.aWorker
    let s := s.setDes p { pd with
      aTuples := pd.aTuples + 1
      iSizes := Function.update pd.iSizes w (pd.iSizes w + 1) }
    some (s, [(w, { t with noInstances := s.pInstances.getD p 0 })])
  else do
    let (w, base) ← s.getLlwW (env.qlen p)
    let s := { s with toSched := base }
    if w ∈ pd.wIds then
      -- the worker already has a partition, which becomes the active one again
      let s := s.setDes p { pd with
        aTuples := pd.iSizes w + 1
        aWorker := some w
        iSizes := Function.update pd.iSizes w (pd.iSizes w + 1) }
      some (s, [(w, { t with noInstances := s.pInstances.getD p 0 })])
    else
      let s := { s with pInstances := s.pInstances.set p (s.pInstances.getD p 0 + 1) }
      let news ← s.multicastNewinstToW pd.wIds p (s.pInstances.getD p 0)
      let s := s.setDes p ⟨some w, pd.wIds ++ [w], 1, Function.update pd.iSizes w 1⟩
      some (s, news ++ [(w, { t with noInstances := s.pInstances.getD p 0 })])

/-- The body of the loop of `removeWorkers` for pane `p`: the holders that are still activated are
kept, and a split is forced if there is none or if the active one is gone. -/
def reassignPane (env : AdaptiveEnv N) (p : Nat) (s : AdaptiveSched N) :
    Option (AdaptiveSched N × Sends N DIM) :=
  let pd := s.des p
  let kept := pd.wIds.filter s.activatedWorker
  let pd := { pd with
    wIds := kept
    iSizes := fun w => if w ∈ pd.wIds ∧ s.activatedWorker w = false then 0 else pd.iSizes w }
  if kept = [] ∨ pd.aWorker.all s.activatedWorker = false then do
    let (w, base) ← s.getLlwW (env.qlen p)
    let s := { s with toSched := base }
    if w ∈ kept then
      -- the source reads `i_sizes[p]`, the index being the pane and not the worker
      let a := if h : p < N then pd.iSizes ⟨p, h⟩ else env.outOfRange p
      some (s.setDes p { pd with aWorker := some w, aTuples := a }, [])
    else
      let s := { s with pInstances := s.pInstances.set p (s.pInstances.getD p 0 + 1) }
      let news ← s.multicastNewinstToW kept p (s.pInstances.getD p 0)
      let s := s.setDes p ⟨some w, kept ++ [w], 0, Function.update pd.iSizes w 0⟩
      some (s, news ++ [(w, Tuple.createEmptypane p (s.pInstances.getD p 0))])
  else some (s.setDes p pd, [])

/-- The loop of `removeWorkers` over the non-closed panes `p, …, p + n - 1`. -/
def reassign (env : AdaptiveEnv N) :
    Nat → Nat → AdaptiveSched N → Option (AdaptiveSched N × Sends N DIM)
  | _, 0, s => some (s, [])
  | p, n + 1, s => do
      let (s, out) ← reassignPane env p s
      let (s, outs) ← reassign env (p + 1) n s
      some (s, out ++ outs)

/-- `Adaptive_Sched::removeWorkers`. -/
def removeWorkers (env : AdaptiveEnv N) (num : Nat) (ws : List (Fin N)) (s : AdaptiveSched N) :
    Option (AdaptiveSched N × Sends N DIM) := do
  let (base, flush) ← s.deactivateAndFlush num ws
  let s := { s with toSched := base }
  let (s, outs) ← reassign env s.nextPaneId (s.pv.length - s.nextPaneId) s
  some (s, flush ++ outs)

/-- The loop over the partition sizes of a completed pane: mean and deviations are updated. -/
def accountSizes : List Nat → AdaptiveSched N → AdaptiveSched N
  | [], s => s
  | n :: ns, s =>
      if 0 < n then
        let tot := s.totInstances + 1
        let avg := s.avgSize + 1 / tot * (n - s.avgSize)
        accountSizes ns { s with
          totInstances := tot
          avgSize := avg
          snSize := s.snSize + (n - s.avgSize) * (n - avg) }
      else accountSizes ns s

/-- The loop over the completed panes `i, …, i + n - 1`. -/
def closePanes : Nat → Nat → AdaptiveSched N → Option (AdaptiveSched N × Sends N DIM)
  | _, 0, s => some (s, [])
  | i, n + 1, s => do
      let sizes := (List.finRange N).map (s.des i).iSizes
      let (base, lull) ← s.toSched.closePane i
      let s := accountSizes sizes { s with toSched := base }
      let (s, lulls) ← closePanes (i + 1) n s
      some (s, lull ++ lulls)

/-- `executeStreamProgress` of `Adaptive_Sched` and of `Adaptive_Sched_PID`. -/
def executeStreamProgress (env : AdaptiveEnv N) (iop : Bool) (ts : ℚ) (pId : Nat)
    (s : AdaptiveSched N) : Option (AdaptiveSched N × Sends N DIM) :=
  if pId < s.nextPaneId then some (s, [])
  else do
    let s := s.growTo pId
    let (s, lulls) ← closePanes s.nextPaneId (pId - s.nextPaneId) s
    let s := { s with
      stdSize := if s.totInstances = 0 then none else some (env.sqrt (s.snSize / s.totInstances))
      warmup := if 5 < pId then false else s.warmup
      nextPaneId := pId }
    if iop then some (s, lulls)
    else some (s, lulls ++ s.broadcastPuncToW (Tuple.createPunctuation ts pId s.nwPlq))

end AdaptiveSched

end ElasticPPQ
