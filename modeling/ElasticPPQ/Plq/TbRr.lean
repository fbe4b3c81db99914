import ElasticPPQ.Plq.Refines

/-! # Tuple-based round-robin refines the ledger

A pane is held by all the workers that got one of its tuples. A removal leaves every non-closed pane
of the tables with a holder, whether it has tuples or not. -/

namespace ElasticPPQ

open FifoNet

variable {N DIM : Nat}

namespace TbRrSched

/-- The holders of a pane. -/
def held (s : TbRrSched N) (p : Nat) : List (Fin N) := s.pWorkers.getD p []

/-- The tables read as a ledger. -/
def ledger (s : TbRrSched N) : Ledger N := s.toSched.ledger s.held

/-- The invariant of the tables. -/
structure Inv (s : TbRrSched N) : Prop where
  sound : s.Sound s.held
  length : s.pWorkers.length = s.pInstances.length

/-- The strategy as constructed. -/
theorem new_inv (N nw : Nat) : (new N nw).Inv where
  sound := ⟨rfl, fun _ _ => ⟨fun _ => rfl, fun _ => rfl⟩, fun _ _ h => absurd rfl h⟩
  length := rfl

/-- `sched_to_worker` after its first lines. -/
def counted (p : Nat) (s : TbRrSched N) : TbRrSched N :=
  { toSched := s.toSched.counted p, pWorkers := growTable s.pWorkers p [] }

/-- The two tables grow together. -/
theorem growTo_eq {s : TbRrSched N} (h : s.pWorkers.length = s.pInstances.length) (p : Nat) :
    s.growTo p = { toSched := s.toSched.growTo p, pWorkers := growTable s.pWorkers p [] } := by
  unfold growTo Sched.growTo growTable
  rw [h]
  split <;> rfl

/-- The method, with the state `c` after its first lines named. -/
theorem schedToWorker_eq {s c : TbRrSched N} (h : s.pWorkers.length = s.pInstances.length)
    {t : Tuple DIM} (hc : c = s.counted t.paneId) :
    s.schedToWorker t = (do
      let (w, base) ← c.getRrW
      let c' := { c with toSched := base }
      let (c', news) ←
        if w ∈ c'.held t.paneId then some (c', [])
        else do
          let c' := { c' with
            pInstances := c'.pInstances.set t.paneId (c'.pInstances.getD t.paneId 0 + 1) }
          let news ← c'.multicastNewinstToW (c'.held t.paneId) t.paneId
            (c'.pInstances.getD t.paneId 0)
          some ({ c' with pWorkers := c'.pWorkers.set t.paneId (c'.held t.paneId ++ [w]) }, news)
      some (c', news ++ [(w, { t with noInstances := c'.pInstances.getD t.paneId 0 })])) := by
  rw [schedToWorker, growTo_eq h, hc]
  rfl

/-- The tables after the first lines of `sched_to_worker`. -/
theorem counted_spec {iop : Bool} {s : TbRrSched N} (h : s.Inv) {t : Tuple DIM}
    (ht : t.type = .regular) (hp : s.ledger.MayOpen iop t.paneId) :
    Sched.Arrives iop t s.held s.toSched (s.counted t.paneId).toSched ∧
      (∀ q, (s.counted t.paneId).held q = s.held q) ∧
      (s.counted t.paneId).pWorkers.length = (s.counted t.paneId).pInstances.length := by
  have hcount : Sched.Counted t.paneId s.toSched (s.counted t.paneId).toSched :=
    Sched.counted_spec h.sound.sizes t.paneId
  refine ⟨⟨h.sound, ht, hp, hcount⟩, fun q => ?_, ?_⟩
  · exact getD_growTable s.pWorkers t.paneId [] q
  · rw [hcount.length, ← h.length]
    exact length_growTable s.pWorkers t.paneId []

/-- The tables when pane `p` gets another partition, of the worker `w`. -/
def opened (p : Nat) (w : Fin N) (lastW : Nat) (ws : List (Fin N)) (c : TbRrSched N) : TbRrSched N :=
  { c with
    lastW := lastW
    pInstances := c.pInstances.set p (c.instances p + 1)
    pWorkers := c.pWorkers.set p (ws ++ [w]) }

/-- What opening a partition writes. -/
theorem opened_spec {p : Nat} {c : TbRrSched N} (hlt : p < c.pInstances.length)
    (hlen : c.pWorkers.length = c.pInstances.length) (w : Fin N) (lastW : Nat) (ws : List (Fin N)) :
    Sched.Rewritten p c.toSched (c.opened p w lastW ws).toSched ∧
      (c.opened p w lastW ws).instances p = c.instances p + 1 ∧
      (∀ q, (c.opened p w lastW ws).held q = if q = p then ws ++ [w] else c.held q) ∧
      (c.opened p w lastW ws).pWorkers.length = (c.opened p w lastW ws).pInstances.length := by
  -- a partition opened is one instance more
  have hset : ∀ q, (c.pInstances.set p (c.instances p + 1)).getD q 0
      = if q = p then c.instances p + 1 else c.instances q :=
    fun q => getD_set_of_lt hlt q _ 0
  refine ⟨⟨rfl, rfl, rfl, rfl, List.length_set, fun q hq => ?_⟩, ?_, fun q => ?_, ?_⟩
  · exact (hset q).trans (if_neg hq)
  · exact (hset p).trans (if_pos rfl)
  · exact getD_set_of_lt (by omega) q _ []
  · show (c.pWorkers.set _ _).length = (c.pInstances.set _ _).length
    rw [List.length_set, List.length_set, hlen]

/-- **`sched_to_worker` refines the ledger.** -/
theorem schedToWorker_refines {iop : Bool} {s : TbRrSched N} (h : s.Inv) (hact : s.HasActive)
    (hheldact : ∀ p, s.nextPaneId ≤ p → ∀ w ∈ s.held p, s.activatedWorker w = true)
    {t : Tuple DIM} (ht : t.type = .regular) (hp : s.ledger.MayOpen iop t.paneId) :
    ∃ (s' : TbRrSched N) (out : Sends N DIM), s.schedToWorker t = some (s', out) ∧ s'.Inv ∧
      Sched.Scheduled iop True t s.held s'.held s.toSched s'.toSched out := by
  obtain ⟨c, hc⟩ : ∃ c, c = s.counted t.paneId := ⟨_, rfl⟩
  obtain ⟨harr, hheld, hlen⟩ := counted_spec h ht hp
  rw [← hc] at harr hheld hlen
  have hcact : c.HasActive := by
    rw [Sched.HasActive, harr.counted.activatedWorker]
    exact hact
  have hsched := schedToWorker_eq h.length (t := t) hc
  obtain ⟨w, lastW, hrr, hwa⟩ := Sched.getRrW_spec hcact
  rw [harr.counted.activatedWorker] at hwa
  rw [hrr] at hsched
  simp only [Option.bind_eq_bind, Option.bind_some] at hsched
  have hcinst : c.instances t.paneId = s.instances t.paneId := harr.counted.instances _
  by_cases hmem : w ∈ s.held t.paneId
  · -- the worker holds a partition already
    obtain ⟨s', hs'⟩ : ∃ s' : TbRrSched N, s' = { c with lastW := lastW } := ⟨_, rfl⟩
    have hheld' : s'.held = s.held := by
      funext q
      rw [hs', ← hheld q]
      rfl
    have hw : Sched.Rewritten t.paneId c.toSched s'.toSched := by
      rw [hs']
      exact ⟨rfl, rfl, rfl, rfl, rfl, fun _ _ => rfl⟩
    have hinst : s'.instances t.paneId = s.instances t.paneId := by
      rw [hs']
      exact hcinst
    obtain ⟨hsound, hsch⟩ : s'.Sound s'.held ∧
        Sched.Scheduled iop True t s.held s'.held s.toSched s'.toSched _ :=
      hw.fed harr (fun q _ => by rw [hheld']) (by rw [hheld']) hmem hwa hinst
        (c.instances t.paneId)
    refine ⟨s', _, ?_, ⟨hsound, ?_⟩, hsch⟩
    · rw [hsched, ← hs', if_pos (by rw [hheld']; exact hmem), hs']
      rfl
    · rw [hs']
      exact hlen
  · -- the worker gets a new partition, and the other holders are told
    obtain ⟨hw, hinst, hheld', hlen'⟩ := opened_spec harr.lt hlen w lastW (s.held t.paneId)
    have hone : (c.pInstances.set t.paneId (c.instances t.paneId + 1)).getD t.paneId 0
        = s.instances t.paneId + 1 := hinst.trans (congrArg (· + 1) hcinst)
    have hmulti : Sched.multicastNewinstToW (c.held t.paneId) t.paneId
        ((c.pInstances.set t.paneId (c.instances t.paneId + 1)).getD t.paneId 0) { c.toSched with
          lastW := lastW
          pInstances := c.pInstances.set t.paneId (c.instances t.paneId + 1) }
        = some ((s.held t.paneId).map fun v =>
          (v, (Tuple.createNewinst t.paneId (s.instances t.paneId + 1) (s.held t.paneId).length
            : Tuple DIM))) := by
      rw [hone, hheld]
      refine Sched.multicastNewinstToW_spec (fun v hv => ?_) _ _
      show c.activatedWorker v = true
      rw [harr.counted.activatedWorker]
      exact hheldact _ hp.1 v hv
    have hoff : ∀ q, q ≠ t.paneId →
        (c.opened t.paneId w lastW (s.held t.paneId)).held q = s.held q := fun q hq => by
      rw [hheld', if_neg hq, hheld]
    have hnew : (c.opened t.paneId w lastW (s.held t.paneId)).held t.paneId
        = s.held t.paneId ++ [w] := by
      rw [hheld', if_pos rfl]
    obtain ⟨hsound, hsch⟩ : Sched.Sound _ (c.opened t.paneId w lastW (s.held t.paneId)).held ∧
        Sched.Scheduled iop True t s.held (c.opened t.paneId w lastW (s.held t.paneId)).held
          s.toSched _ _ :=
      hw.opened harr hoff hnew hmem hwa (hheldact _ hp.1) hone
    refine ⟨_, _, ?_, ⟨hsound, hlen'⟩, hsch⟩
    have hcheld : ({ c with lastW := lastW } : TbRrSched N).held t.paneId = s.held t.paneId :=
      hheld _
    rw [hsched, if_neg (by rw [hcheld]; exact hmem)]
    refine Option.bind_eq_some_iff.mpr ⟨_, hmulti, ?_⟩
    rw [← hone, ← hheld]
    rfl

variable (DIM) in
/-- One pane of the loop of `removeWorkers`. -/
theorem reassign_succ (iop : Bool) {p : Nat} {s : TbRrSched N} (h : s.Inv) (hact : s.HasActive)
    (hp : s.ledger.MayOpen iop p) (hlt : p < s.pInstances.length) (n : Nat) :
    ∃ (s' : TbRrSched N) (out : Sends N DIM), s'.Inv ∧
      reassign p (n + 1) s = (reassign (p + 1) n s').map (fun x => (x.1, out ++ x.2)) ∧
      Sched.PaneReassigned iop p s.held s'.held s.toSched s'.toSched out := by
  have hlt' : p < s.pWorkers.length := by rw [h.length]; exact hlt
  by_cases hkept : (s.held p).filter s.activatedWorker = []
  · -- no holder is left: the pane gets another partition
    obtain ⟨w, lastW, hrr, hwa⟩ := Sched.getRrW_spec
      (s := { s.toSched with pInstances := s.pInstances.set p (s.instances p + 1) }) hact
    obtain ⟨hw, hinst, hheld, hlen⟩ := opened_spec hlt h.length w lastW []
    have hoff : ∀ q, q ≠ p → (s.opened p w lastW []).held q = s.held q := fun q hq => by
      rw [hheld, if_neg hq]
    have hnew : (s.opened p w lastW []).held p = (s.held p).filter s.activatedWorker ++ [w] := by
      rw [hheld, if_pos rfl, hkept]
    have hmem : w ∉ (s.held p).filter s.activatedWorker := by
      rw [hkept]
      exact List.not_mem_nil
    have hd := hw.split DIM h.sound hp hoff hnew hmem hwa hinst
    rw [hkept] at hd
    refine ⟨_, _, ⟨hd.sound, hlen⟩, ?_, hd⟩
    rw [reassign]
    rw [held] at hkept
    rw [Sched.instances] at hrr
    have hone : (s.pInstances.set p (s.pInstances.getD p 0 + 1)).getD p 0 = s.instances p + 1 := hinst
    simp only [hkept, if_true, hrr, Option.bind_eq_bind, Option.bind_some, hone]
    exact Option.map_eq_bind.symm
  · -- the holders that are still activated keep the pane
    obtain ⟨s', hs'⟩ : ∃ s' : TbRrSched N, s' = { s with
      pWorkers := s.pWorkers.set p ((s.held p).filter s.activatedWorker) } := ⟨_, rfl⟩
    have hheld : ∀ q, s'.held q = if q = p then (s.held p).filter s.activatedWorker else s.held q := by
      intro q
      rw [hs']
      exact getD_set_of_lt hlt' q _ []
    have hw : Sched.Rewritten p s.toSched s'.toSched := by
      rw [hs']
      exact ⟨rfl, rfl, rfl, rfl, rfl, fun _ _ => rfl⟩
    have hoff : ∀ q, q ≠ p → s'.held q = s.held q := fun q hq => by rw [hheld, if_neg hq]
    have hsame : s'.held p = (s.held p).filter s.activatedWorker := by rw [hheld, if_pos rfl]
    have hd : Sched.PaneReassigned iop p s.held s'.held s.toSched s'.toSched ([] : Sends N DIM) :=
      hw.kept h.sound hp.1 hoff hsame (by rw [hsame]; exact hkept) (by rw [hs'])
    refine ⟨s', [], ⟨hd.sound, ?_⟩, ?_, hd⟩
    · rw [hs']
      show (s.pWorkers.set _ _).length = s.pInstances.length
      rw [List.length_set, h.length]
    · rw [reassign]
      rw [held] at hkept hs'
      simp only [if_neg hkept, Option.bind_eq_bind, Option.bind_some]
      rw [← hs']
      exact Option.map_eq_bind.symm

variable (DIM) in
/-- **The loop of `removeWorkers` refines the ledger**, pane by pane. -/
theorem reassign_refines (iop : Bool) {p n : Nat} {s : TbRrSched N}
    (h : s.Inv) (hact : s.HasActive) (hp : s.nextPaneId ≤ p) (hn : p + n = max p s.pWorkers.length)
    (hsingle : s.Single iop) :
    ∃ (s' : TbRrSched N) (out : Sends N DIM), reassign p n s = some (s', out) ∧ s'.Inv ∧
      Sched.Reassigned iop p s.held s'.held s.toSched s'.toSched out := by
  -- induction on the panes still to visit, from the next one to close upwards
  induction n generalizing p s with
  | zero =>
      refine ⟨s, [], rfl, h, Sched.Reassigned.refl fun q hq => ?_⟩
      rw [held, List.getD_eq_default _ _ (by omega)]
  | succ n ih =>
      have hlt : p < s.pInstances.length := by rw [← h.length]; omega
      obtain ⟨s₁, out, hinv, hstep, hd⟩ :=
        reassign_succ DIM iop h hact (hsingle.mayOpen hp hlt) hlt n
      have hlen : s₁.pWorkers.length = s.pWorkers.length := by
        rw [hinv.length, hd.length, h.length]
      obtain ⟨s', outs, hrun, hinv', hre⟩ := ih hinv
        (by rw [Sched.HasActive, hd.activatedWorker]; exact hact) (p := p + 1)
        (by rw [hd.nextPaneId]; omega) (by omega)
        (by intro hi; rw [hd.nextPaneId, hd.length]; exact hsingle hi)
      exact ⟨s', out ++ outs, by rw [hstep, hrun]; rfl, hinv', hd.cons hre⟩

/-- **`removeWorkers` refines the ledger.** -/
theorem removeWorkers_refines {iop : Bool} {ws : List (Fin N)} {s : TbRrSched N} (h : s.Inv)
    (hws : ws.Nodup) (hactive : ∀ w ∈ ws, s.activatedWorker w = true)
    (hleft : ∃ w, w ∉ ws ∧ s.activatedWorker w = true)
    (hheld : ∀ p, s.nextPaneId ≤ p → ∀ w ∈ s.held p, s.activatedWorker w = true)
    (hsingle : s.Single iop) (num : Nat) :
    ∃ (s' : TbRrSched N) (out : Sends N DIM), s.removeWorkers num ws = some (s', out) ∧ s'.Inv ∧
      Sched.Removed iop num ws s.held s'.held s.toSched s'.toSched out := by
  -- the state after the de-activation and the FLUSH, before any pane is reassigned
  obtain ⟨s₁, hs₁⟩ : ∃ s₁ : TbRrSched N,
    s₁ = { s with toSched := s.toSched.deactivated num ws } := ⟨_, rfl⟩
  have hbase : s₁.toSched = s.toSched.deactivated num ws := by rw [hs₁]
  have htable : s₁.pWorkers = s.pWorkers := by rw [hs₁]
  have hheld₁ : s₁.held = s.held := by funext p; rw [held, held, htable]
  have hinv₁ : s₁.Inv := by
    refine ⟨?_, ?_⟩
    · rw [hheld₁, hbase]
      exact h.sound.deactivated num ws
    · rw [htable, hbase]
      exact h.length
  have hact₁ : s₁.HasActive := by
    obtain ⟨w, hw, ha⟩ := hleft
    refine ⟨w, ?_⟩
    rw [hbase]
    simp [Sched.deactivated, hw, ha]
  obtain ⟨s', out, hrun, hinv', hre⟩ := reassign_refines DIM iop hinv₁ hact₁ le_rfl
    (n := s₁.pWorkers.length - s₁.nextPaneId) (by omega) (by rw [hbase]; exact hsingle)
  refine ⟨s', (ws.map fun w => (w, Tuple.createFlush ws.length s.nextPaneId)) ++ out, ?_, hinv', ?_⟩
  rotate_left
  · rw [hheld₁, hbase] at hre
    exact hre.removed hws hheld
  · rw [removeWorkers, Sched.deactivateAndFlush_spec hws hactive]
    rw [hbase, htable] at hrun
    simp only [Option.bind_eq_bind, Option.bind_some]
    rw [← hs₁, hrun]
    rfl

/-- **`executeStreamProgress` refines the ledger**, if no closed pane without tuples has a
partition. -/
theorem executeStreamProgress_refines {s : TbRrSched N} (h : s.Inv) (hact : s.HasActive)
    (iop : Bool) (ts : ℚ) (pId : Nat) :
    ∃ (s' : TbRrSched N) (out : Sends N DIM),
      s.executeStreamProgress iop ts pId = some (s', out) ∧ s'.Inv ∧ s'.held = s.held ∧
      Sched.Progressed iop s.held pId s.toSched s'.toSched out := by
  obtain ⟨base, out, hrun, hpr⟩ :=
    Sched.executeStreamProgress_refines hact h.sound iop ts pId
  -- a progress to a pane below the next one does nothing
  by_cases hlt : pId < s.nextPaneId
  · refine ⟨s, [], by rw [executeStreamProgress, if_pos hlt], h, rfl, ?_⟩
    exact Sched.Progressed.refl h.sound hlt
  · obtain ⟨s', hs'⟩ : ∃ s' : TbRrSched N,
      s' = { toSched := base, pWorkers := growTable s.pWorkers pId [] } := ⟨_, rfl⟩
    have hbase : s'.toSched = base := by rw [hs']
    -- the table only grows by panes nobody holds
    have hheld : s'.held = s.held := by
      funext q
      rw [hs']
      exact getD_growTable s.pWorkers pId [] q
    have hlength : s'.pWorkers.length = max s.pWorkers.length (pId + 1) := by
      rw [hs']
      exact length_growTable s.pWorkers pId []
    refine ⟨s', out, ?_, ⟨?_, ?_⟩, hheld, hbase ▸ hpr⟩
    · rw [executeStreamProgress, if_neg hlt, hs', growTable]
      by_cases hlen : s.pWorkers.length ≤ pId
      · simp only [if_pos hlen, hrun, Option.bind_eq_bind, Option.bind_some]
      · simp only [if_neg hlen, hrun, Option.bind_eq_bind, Option.bind_some]
    · rw [hheld, hbase]
      exact hpr.sound
    · rw [hbase, hpr.length, if_neg hlt, hlength, h.length]

end TbRrSched

end ElasticPPQ
