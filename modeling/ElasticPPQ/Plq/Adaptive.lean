import ElasticPPQ.Plq.Refines

/-! # Adaptive scheduling refines the ledger

The first tuple of a pane, a split and a removal all write the number of partitions of a pane. The
first of them overwrites it, so it asks for a pane that no removal has touched
(`AdaptiveSched.FirstOk`); the other ones always fit. -/

namespace ElasticPPQ

open FifoNet

variable {N DIM : Nat}

namespace AdaptiveSched

/-- The holders of a pane. -/
def held (s : AdaptiveSched N) (p : Nat) : List (Fin N) := (s.des p).wIds

/-- The tables read as a ledger. -/
def ledger (s : AdaptiveSched N) : Ledger N := s.toSched.ledger s.held

/-- The invariant of the tables: the active partition of a non-closed pane is one of its
partitions. -/
structure Inv (s : AdaptiveSched N) : Prop where
  sound : s.Sound s.held
  length : s.pv.length = s.pInstances.length
  active : ∀ p, s.nextPaneId ≤ p → s.held p ≠ [] → ∃ w ∈ s.held p, (s.des p).aWorker = some w

/-- The strategy as constructed. -/
theorem new_inv (N nw : Nat) : (new N nw).Inv where
  sound := ⟨rfl, fun _ _ => ⟨fun _ => rfl, fun _ => rfl⟩, fun _ _ h => absurd rfl h⟩
  length := rfl
  active := fun _ _ h => absurd rfl h

/-- A first tuple finds its pane without partitions, or with the one of the worker that the tuple
goes to. -/
def FirstOk (env : AdaptiveEnv N) (p : Nat) (s : AdaptiveSched N) : Prop :=
  s.size p = 0 → s.held p = [] ∨
    s.instances p = 1 ∧ s.held p = ((s.getLlwW (env.qlen p)).map Prod.fst).toList

instance decidableFirstOk (env : AdaptiveEnv N) (p : Nat) (s : AdaptiveSched N) :
    Decidable (s.FirstOk env p) := by
  unfold FirstOk
  infer_instance

/-- `sched_to_worker` after its first lines. -/
def counted (p : Nat) (s : AdaptiveSched N) : AdaptiveSched N :=
  { s with toSched := s.toSched.counted p, pv := growTable s.pv p (PaneDes.new N) }

/-- The two tables grow together. -/
theorem growTo_eq {s : AdaptiveSched N} (h : s.pv.length = s.pInstances.length) (p : Nat) :
    s.growTo p =
      { s with toSched := s.toSched.growTo p, pv := growTable s.pv p (PaneDes.new N) } := by
  unfold growTo Sched.growTo growTable
  rw [h]
  split <;> rfl

/-! ## Scheduling a tuple -/

/-- What is left of the invariant when a descriptor of pane `p` has been written: the new descriptor
has an active partition among its partitions. -/
theorem Inv.of_setDes {s s' : AdaptiveSched N} (h : s.Inv) {p : Nat} {pd : PaneDes N}
    (hsound : s'.Sound s'.held) (hnext : s'.nextPaneId = s.nextPaneId)
    (hlen : s'.pv.length = s'.pInstances.length)
    (hdes : ∀ q, s'.des q = if q = p then pd else s.des q)
    (hpd : ∃ w ∈ pd.wIds, pd.aWorker = some w) : s'.Inv := by
  refine ⟨hsound, hlen, fun q hq hne => ?_⟩
  by_cases hqp : q = p
  · rw [held, hdes, if_pos hqp]
    exact hpd
  · rw [held, hdes, if_neg hqp] at hne ⊢
    exact h.active q (hnext ▸ hq) hne

/-- `s'` is `c` with the descriptor `pd` of pane `p`, and possibly another count of its partitions. -/
structure Written (p : Nat) (pd : PaneDes N) (c s' : AdaptiveSched N) : Prop where
  nextPaneId : s'.nextPaneId = c.nextPaneId
  nwPlq : s'.nwPlq = c.nwPlq
  activatedWorker : s'.activatedWorker = c.activatedWorker
  paneSize : s'.paneSize = c.paneSize
  length : s'.pInstances.length = c.pInstances.length
  instances : ∀ q, q ≠ p → s'.instances q = c.instances q
  pv : s'.pv = c.pv.set p pd

/-- What `sched_to_worker` starts from. -/
structure Start (iop : Bool) (t : Tuple DIM) (s c : AdaptiveSched N) : Prop where
  inv : s.Inv
  type : t.type = .regular
  mayOpen : s.ledger.MayOpen iop t.paneId
  counted : Sched.Counted t.paneId s.toSched c.toSched
  des : ∀ q, c.des q = s.des q
  length : c.pv.length = c.pInstances.length

/-- What the tables that all strategies have start from. -/
theorem Start.arrives {iop : Bool} {t : Tuple DIM} {s c : AdaptiveSched N} (h : Start iop t s c) :
    Sched.Arrives iop t s.held s.toSched c.toSched :=
  ⟨h.inv.sound, h.type, h.mayOpen, h.counted⟩

/-- What a write does to these tables. -/
theorem Written.rewritten {p : Nat} {pd : PaneDes N} {c s' : AdaptiveSched N}
    (hw : Written p pd c s') : Sched.Rewritten p c.toSched s'.toSched :=
  ⟨hw.nextPaneId, hw.nwPlq, hw.activatedWorker, hw.paneSize, hw.length, hw.instances⟩

/-- The tables have room for the pane of the tuple. -/
theorem Start.lt {iop : Bool} {t : Tuple DIM} {s c : AdaptiveSched N} (h : Start iop t s c) :
    t.paneId < c.pInstances.length := h.arrives.lt

/-- The other descriptors are as before the call. -/
theorem Written.des {iop : Bool} {t : Tuple DIM} {s c s' : AdaptiveSched N} {pd : PaneDes N}
    (hw : Written t.paneId pd c s') (h : Start iop t s c) (q : Nat) :
    s'.des q = if q = t.paneId then pd else s.des q := by
  rw [AdaptiveSched.des, hw.pv, ← h.des q, getD_set_of_lt (by rw [h.length]; exact h.lt)]
  rfl

/-- The holders of the pane of the tuple after a write. -/
theorem Written.held_self {iop : Bool} {t : Tuple DIM} {s c s' : AdaptiveSched N} {pd : PaneDes N}
    (hw : Written t.paneId pd c s') (h : Start iop t s c) : s'.held t.paneId = pd.wIds := by
  rw [held, hw.des h, if_pos rfl]

/-- The holders of the other panes. -/
theorem Written.held_of_ne {iop : Bool} {t : Tuple DIM} {s c s' : AdaptiveSched N} {pd : PaneDes N}
    (hw : Written t.paneId pd c s') (h : Start iop t s c) (q : Nat) (hq : q ≠ t.paneId) :
    s'.held q = s.held q := by
  rw [held, hw.des h, if_neg hq]
  rfl

/-- The invariant after a write that leaves the pane with an active partition. -/
theorem Written.inv {iop : Bool} {t : Tuple DIM} {s c s' : AdaptiveSched N} {pd : PaneDes N}
    (hw : Written t.paneId pd c s') (h : Start iop t s c) (hsound : s'.Sound s'.held)
    (hpd : ∃ w ∈ pd.wIds, pd.aWorker = some w) : s'.Inv := by
  refine h.inv.of_setDes hsound (hw.nextPaneId.trans h.counted.nextPaneId) ?_ (hw.des h) hpd
  rw [hw.pv, List.length_set, hw.length, h.length]

/-- The tuple goes to a worker that holds a partition of the pane. -/
theorem Written.fed {iop : Bool} {ok : Prop} {t : Tuple DIM} {s c s' : AdaptiveSched N} {pd : PaneDes N}
    (hw : Written t.paneId pd c s') (h : Start iop t s c) {w : Fin N}
    (hpd : ∃ w ∈ pd.wIds, pd.aWorker = some w) (hmem : w ∈ s.held t.paneId)
    (hwa : s.activatedWorker w = true)
    (hids : pd.wIds.toFinset = (s.held t.paneId).toFinset)
    (hinst : s'.instances t.paneId = s.instances t.paneId) (n : Nat) :
    s'.Inv ∧ Sched.Scheduled iop ok t s.held s'.held s.toSched s'.toSched
      [(w, { t with noInstances := n })] := by
  have hsame : (s'.held t.paneId).toFinset = (s.held t.paneId).toFinset := by
    rw [hw.held_self h, hids]
  obtain ⟨hsound, hsch⟩ := hw.rewritten.fed h.arrives (hw.held_of_ne h) hsame hmem hwa hinst n
  exact ⟨hw.inv h hsound hpd, hsch⟩

/-- The tuple opens a new partition of the pane, and the other holders are told. -/
theorem Written.opened {iop : Bool} {ok : Prop} {t : Tuple DIM} {s c s' : AdaptiveSched N} {pd : PaneDes N}
    (hw : Written t.paneId pd c s') (h : Start iop t s c) {w : Fin N}
    (hpd : pd.wIds = s.held t.paneId ++ [w]) (ha : pd.aWorker = some w)
    (hmem : w ∉ s.held t.paneId) (hwa : s.activatedWorker w = true)
    (hheldact : ∀ v ∈ s.held t.paneId, s.activatedWorker v = true)
    (hinst : s'.instances t.paneId = s.instances t.paneId + 1) :
    s'.Inv ∧ Sched.Scheduled iop ok t s.held s'.held s.toSched s'.toSched
      (((s.held t.paneId).map fun v => (v, Tuple.createNewinst t.paneId
        (s.instances t.paneId + 1) (s.held t.paneId).length)) ++
      [(w, { t with noInstances := s.instances t.paneId + 1 })]) := by
  have hnew : s'.held t.paneId = s.held t.paneId ++ [w] := (hw.held_self h).trans hpd
  obtain ⟨hsound, hsch⟩ :=
    -- the pane is split: its holders are told, and the new one gets the tuple
    hw.rewritten.opened h.arrives (hw.held_of_ne h) hnew hmem hwa hheldact hinst
  refine ⟨hw.inv h hsound ⟨w, ?_, ha⟩, hsch⟩
  rw [hpd]
  exact List.mem_append_right _ (List.mem_singleton_self w)

/-- The first tuple of a pane overwrites the count of a pane that a removal has touched. -/
theorem Written.reopened {iop : Bool} {ok : Prop} {t : Tuple DIM} {s c s' : AdaptiveSched N}
    {pd : PaneDes N} (hw : Written t.paneId pd c s') (h : Start iop t s c) {w : Fin N}
    (hok : ¬ ok) (hpd : pd.wIds = s.held t.paneId ++ [w]) (ha : pd.aWorker = some w)
    (hwa : s.activatedWorker w = true) (hinst : s'.instances t.paneId = 1) :
    s'.Inv ∧ Sched.Scheduled iop ok t s.held s'.held s.toSched s'.toSched
      [(w, { t with noInstances := 1 })] := by
  have hnext := hw.nextPaneId.trans h.counted.nextPaneId
  have hactive := hw.activatedWorker.trans h.counted.activatedWorker
  have hnew : s'.held t.paneId = s.held t.paneId ++ [w] := (hw.held_self h).trans hpd
  -- the count is set back to 1 although the pane has holders, so this is not a split
  have hledger : s'.ledger = s.ledger.deliver t.paneId w 1 := by
    rw [← hinst]
    refine Sched.ledger_deliver hnext hactive ?_ (fun q hq => ?_) fun q hq => ?_
    · rw [hnew]
      ext v
      simp
    · rw [hw.held_of_ne h q hq]
    · exact (hw.instances q hq).trans (h.counted.instances q)
  refine ⟨hw.inv h (hw.rewritten.sound h.arrives (hw.held_of_ne h) ?_ ?_) ⟨w, ?_, ha⟩, ?_⟩
  · rw [hnew]
    exact List.append_ne_nil_of_right_ne_nil _ (List.cons_ne_nil _ _)
  · rw [hinst]
    exact Nat.one_ne_zero
  · rw [hpd]
    exact List.mem_append_right _ (List.mem_singleton_self w)
  -- no move of the ledger does this, and the step is one only where the condition fails
  · exact {
      moves := fun h => absurd h hok
      route := by
        intro _
        show Ledger.Route s.ledger _ s'.ledger
        rw [hledger]
        exact Ledger.Route.reopen s.ledger w { t with noInstances := 1 } 1 h.type h.mayOpen.1 hwa
          Nat.one_ne_zero
      nextPaneId := hnext
      nwPlq := hw.nwPlq.trans h.counted.nwPlq
      activatedWorker := hactive
      size := by
        intro q
        rw [Sched.size, hw.paneSize]
        exact h.counted.size q
      length := by rw [hw.length, h.counted.length]
      sent := ⟨[], w, 1, rfl, fun _ hx => absurd hx List.not_mem_nil⟩
      toActive := by
        intro x hx
        rw [List.mem_singleton.mp hx]
        exact hwa }

/-- The method, with the state `c` after its first lines named. -/
theorem schedToWorker_eq {s c : AdaptiveSched N} (h : s.pv.length = s.pInstances.length)
    (env : AdaptiveEnv N) {t : Tuple DIM} (hc : c = s.counted t.paneId) :
    s.schedToWorker env t = (
      if c.size t.paneId = 1 then do
        let (w, base) ← c.getLlwW (env.qlen t.paneId)
        let c' := { c with toSched := { base with pInstances := base.pInstances.set t.paneId 1 } }
        let pd := c.des t.paneId
        let c' := c'.setDes t.paneId ⟨some w, pd.wIds ++ [w], 1, Function.update pd.iSizes w 1⟩
        some (c', [(w, { t with noInstances := c'.pInstances.getD t.paneId 0 })])
      else if c.belowThreshold env (c.des t.paneId).aTuples || c.warmup then do
        let pd := c.des t.paneId
        let w ← pd.aWorker
        let c' := c.setDes t.paneId { pd with
          aTuples := pd.aTuples + 1
          iSizes := Function.update pd.iSizes w (pd.iSizes w + 1) }
        some (c', [(w, { t with noInstances := c'.pInstances.getD t.paneId 0 })])
      else do
        let pd := c.des t.paneId
        let (w, base) ← c.getLlwW (env.qlen t.paneId)
        let c' := { c with toSched := base }
        if w ∈ pd.wIds then
          let c' := c'.setDes t.paneId { pd with
            aTuples := pd.iSizes w + 1
            aWorker := some w
            iSizes := Function.update pd.iSizes w (pd.iSizes w + 1) }
          some (c', [(w, { t with noInstances := c'.pInstances.getD t.paneId 0 })])
        else do
          let c' := { c' with
            pInstances := c'.pInstances.set t.paneId (c'.pInstances.getD t.paneId 0 + 1) }
          let news ← c'.multicastNewinstToW pd.wIds t.paneId (c'.pInstances.getD t.paneId 0)
          let c' := c'.setDes t.paneId ⟨some w, pd.wIds ++ [w], 1, Function.update pd.iSizes w 1⟩
          some (c', news ++ [(w, { t with noInstances := c'.pInstances.getD t.paneId 0 })])) := by
  rw [schedToWorker, growTo_eq h, hc]
  rfl

/-- The state in which a call of `schedToWorker` looks for a worker. -/
theorem Start.of_counted {iop : Bool} {s : AdaptiveSched N} (h : s.Inv) {t : Tuple DIM}
    (ht : t.type = .regular) (hp : s.ledger.MayOpen iop t.paneId) :
    Start iop t s (s.counted t.paneId) := by
  have hcount : Sched.Counted t.paneId s.toSched (s.counted t.paneId).toSched :=
    Sched.counted_spec h.sound.sizes t.paneId
  refine ⟨h, ht, hp, hcount, fun q => getD_growTable s.pv t.paneId _ q, ?_⟩
  rw [hcount.length, ← h.length]
  exact length_growTable s.pv t.paneId _

section

variable {iop : Bool} {s c : AdaptiveSched N} {t : Tuple DIM}

/-- A write to the entry of the pane of the tuple. -/
theorem Start.instances_set (h : Start iop t s c) (n q : Nat) :
    (c.pInstances.set t.paneId n).getD q 0 = if q = t.paneId then n else c.instances q :=
  getD_set_of_lt h.lt q n 0

/-- The first tuple of a pane. -/
theorem Start.first (h : Start iop t s c) (hc : c = s.counted t.paneId) (hact : c.HasActive)
    (hheldact : ∀ v ∈ s.held t.paneId, s.activatedWorker v = true) (env : AdaptiveEnv N)
    (hone : c.size t.paneId = 1) :
    ∃ (s' : AdaptiveSched N) (out : Sends N DIM), s.schedToWorker env t = some (s', out) ∧ s'.Inv ∧
      Sched.Scheduled iop (s.FirstOk env t.paneId) t s.held s'.held s.toSched s'.toSched out := by
  obtain ⟨w, lastW, hllw, hwa⟩ := Sched.getLlwW_spec hact (env.qlen t.paneId)
  rw [h.counted.activatedWorker] at hwa
  obtain ⟨s', hs'⟩ : ∃ s' : AdaptiveSched N, s' = { c with
    lastW := lastW
    pInstances := c.pInstances.set t.paneId 1
    pv := c.pv.set t.paneId ⟨some w, (c.des t.paneId).wIds ++ [w], 1,
      Function.update (c.des t.paneId).iSizes w 1⟩ } := ⟨_, rfl⟩
  have hw : Written t.paneId ⟨some w, (c.des t.paneId).wIds ++ [w], 1,
      Function.update (c.des t.paneId).iSizes w 1⟩ c s' := by
    rw [hs']
    exact ⟨rfl, rfl, rfl, rfl, List.length_set,
      fun q hq => (h.instances_set 1 q).trans (if_neg hq), rfl⟩
  have hset : (c.pInstances.set t.paneId 1).getD t.paneId 0 = 1 :=
    (h.instances_set 1 _).trans (if_pos rfl)
  have hinst : s'.instances t.paneId = 1 := by
    rw [hs']
    exact hset
  have hrun : s.schedToWorker env t = some (s', [(w, { t with noInstances := 1 })]) := by
    rw [schedToWorker_eq h.inv.length env hc, if_pos hone, hllw]
    simp only [Option.bind_eq_bind, Option.bind_some, setDes, hset, hs']
  have hdes : c.des t.paneId = s.des t.paneId := h.des _
  have hsize : c.size t.paneId = s.size t.paneId + 1 :=
    (h.counted.size t.paneId).trans (if_pos rfl)
  have hllw' : (s.getLlwW (env.qlen t.paneId)).map Prod.fst = some w := by
    have := congrArg (Option.map Prod.fst) hllw
    simp only [Sched.getLlwW, Option.map_map, h.counted.activatedWorker, h.counted.lastW] at this ⊢
    exact this
  by_cases hfirst : s.held t.paneId = [] ∨
      s.instances t.paneId = 1 ∧
        s.held t.paneId = ((s.getLlwW (env.qlen t.paneId)).map Prod.fst).toList
  rotate_left
  · -- a removal has given the pane other partitions
    refine ⟨s', _, hrun, hw.reopened h (fun hok => hfirst (hok (by omega))) ?_ rfl hwa hinst⟩
    rw [hdes]
    rfl
  -- either the pane has no partition yet, or a removal has given it one
  rcases hfirst with hnil | ⟨hinst₁, hheld⟩
  · have hzero : s.instances t.paneId = 0 := (h.inv.sound.held_iff _ h.mayOpen.1).mp hnil
    obtain ⟨hinv', hsch⟩ : s'.Inv ∧ Sched.Scheduled iop (s.FirstOk env t.paneId) t s.held s'.held
        s.toSched s'.toSched _ :=
      hw.opened h (w := w) (by rw [hdes]; rfl) rfl
        (by rw [hnil]; exact List.not_mem_nil) hwa hheldact (by rw [hinst, hzero])
    rw [hnil, hzero] at hsch
    exact ⟨s', _, hrun, hinv', hsch⟩
  · -- the worker has the partition that a removal has given the pane
    rw [hllw'] at hheld
    refine ⟨s', _, hrun, hw.fed h ⟨w, ?_, rfl⟩ ?_ hwa ?_ ?_ 1⟩
    · exact List.mem_append_right _ (List.mem_singleton_self w)
    · rw [hheld]
      exact List.mem_singleton_self w
    · rw [hdes]
      show (s.held t.paneId ++ [w]).toFinset = _
      rw [hheld]
      simp
    · rw [hinst, hinst₁]

/-- Below the threshold the tuple goes where the last one of its pane went. -/
theorem Start.below (h : Start iop t s c) (hc : c = s.counted t.paneId)
    (hheldact : ∀ v ∈ s.held t.paneId, s.activatedWorker v = true) (env : AdaptiveEnv N)
    (hone : c.size t.paneId ≠ 1) (hne : s.held t.paneId ≠ [])
    (hbelow : (c.belowThreshold env (c.des t.paneId).aTuples || c.warmup) = true) :
    ∃ (s' : AdaptiveSched N) (out : Sends N DIM), s.schedToWorker env t = some (s', out) ∧ s'.Inv ∧
      Sched.Scheduled iop (s.FirstOk env t.paneId) t s.held s'.held s.toSched s'.toSched out := by
  obtain ⟨a, ha, haw⟩ := h.inv.active t.paneId h.mayOpen.1 hne
  rw [← h.des] at haw
  -- what the code writes: the tuple counts for the pane and for its active worker
  obtain ⟨pd, hpd⟩ : ∃ pd : PaneDes N, pd = { c.des t.paneId with
    aTuples := (c.des t.paneId).aTuples + 1
    iSizes := Function.update (c.des t.paneId).iSizes a ((c.des t.paneId).iSizes a + 1) } :=
    ⟨_, rfl⟩
  have hids : pd.wIds = s.held t.paneId := by rw [hpd, h.des]; rfl
  have hw : Written t.paneId pd c (c.setDes t.paneId pd) :=
    ⟨rfl, rfl, rfl, rfl, rfl, fun _ _ => rfl, rfl⟩
  refine ⟨c.setDes t.paneId pd, [(a, { t with noInstances := c.instances t.paneId })], ?_,
    hw.fed h ⟨a, by rw [hids]; exact ha, ?_⟩ ha (hheldact a ha) (by rw [hids])
      (h.counted.instances _) _⟩
  · rw [schedToWorker_eq h.inv.length env hc, if_neg hone, if_pos hbelow]
    simp only [haw, Option.bind_eq_bind, Option.bind_some, hpd]
    rfl
  · rw [hpd]
    exact haw

/-- Above the threshold the tuple goes to the least loaded worker, which may get a new partition. -/
theorem Start.above (h : Start iop t s c) (hc : c = s.counted t.paneId) (hact : c.HasActive)
    (hheldact : ∀ v ∈ s.held t.paneId, s.activatedWorker v = true) (env : AdaptiveEnv N)
    (hone : c.size t.paneId ≠ 1)
    (hbelow : ¬ (c.belowThreshold env (c.des t.paneId).aTuples || c.warmup) = true) :
    ∃ (s' : AdaptiveSched N) (out : Sends N DIM), s.schedToWorker env t = some (s', out) ∧ s'.Inv ∧
      Sched.Scheduled iop (s.FirstOk env t.paneId) t s.held s'.held s.toSched s'.toSched out := by
  obtain ⟨w, lastW, hllw, hwa⟩ := Sched.getLlwW_spec hact (env.qlen t.paneId)
  rw [h.counted.activatedWorker] at hwa
  have hsched := schedToWorker_eq h.inv.length env hc
  rw [if_neg hone, if_neg hbelow, hllw] at hsched
  simp only [Option.bind_eq_bind, Option.bind_some] at hsched
  have hheld : (c.des t.paneId).wIds = s.held t.paneId := by rw [h.des]; rfl
  by_cases hmem : w ∈ s.held t.paneId
  · -- the least loaded worker has a partition, which becomes the active one again
    obtain ⟨pd, hpd⟩ : ∃ pd : PaneDes N, pd = { c.des t.paneId with
      aTuples := (c.des t.paneId).iSizes w + 1
      aWorker := some w
      iSizes := Function.update (c.des t.paneId).iSizes w ((c.des t.paneId).iSizes w + 1) } :=
      ⟨_, rfl⟩
    have hids : pd.wIds = s.held t.paneId := by rw [hpd, h.des]; rfl
    obtain ⟨s', hs'⟩ : ∃ s' : AdaptiveSched N, s' = { c with
      lastW := lastW, pv := c.pv.set t.paneId pd } := ⟨_, rfl⟩
    have hw : Written t.paneId pd c s' := by
      rw [hs']
      exact ⟨rfl, rfl, rfl, rfl, rfl, fun _ _ => rfl, rfl⟩
    refine ⟨s', [(w, { t with noInstances := c.instances t.paneId })], ?_,
      hw.fed h ⟨w, by rw [hids]; exact hmem, by rw [hpd]⟩ hmem hwa (by rw [hids]) ?_ _⟩
    · rw [hsched, if_pos (by rw [hheld]; exact hmem), hs', hpd]
      rfl
    · rw [hs']
      exact h.counted.instances _
  · -- another partition is created, and becomes the active one
    obtain ⟨pd, hpd⟩ : ∃ pd : PaneDes N, pd = ⟨some w, s.held t.paneId ++ [w], 1,
      Function.update (c.des t.paneId).iSizes w 1⟩ := ⟨_, rfl⟩
    obtain ⟨s', hs'⟩ : ∃ s' : AdaptiveSched N, s' = { c with
      lastW := lastW
      pInstances := c.pInstances.set t.paneId (c.instances t.paneId + 1)
      pv := c.pv.set t.paneId pd } := ⟨_, rfl⟩
    have hw : Written t.paneId pd c s' := by
      rw [hs']
      exact ⟨rfl, rfl, rfl, rfl, List.length_set,
        fun q hq => (h.instances_set _ q).trans (if_neg hq), rfl⟩
    have hinst : (c.pInstances.set t.paneId (c.instances t.paneId + 1)).getD t.paneId 0
        = s.instances t.paneId + 1 := by
      rw [h.instances_set, if_pos rfl, h.counted.instances]
    have hmulti : Sched.multicastNewinstToW (c.des t.paneId).wIds t.paneId
        ((c.pInstances.set t.paneId (c.instances t.paneId + 1)).getD t.paneId 0) { c.toSched with
          lastW := lastW
          pInstances := c.pInstances.set t.paneId (c.instances t.paneId + 1) }
        = some ((s.held t.paneId).map fun v =>
          (v, (Tuple.createNewinst t.paneId (s.instances t.paneId + 1) (s.held t.paneId).length
            : Tuple DIM))) := by
      rw [hinst, hheld]
      refine Sched.multicastNewinstToW_spec (fun v hv => ?_) _ _
      show c.activatedWorker v = true
      rw [h.counted.activatedWorker]
      exact hheldact v hv
    refine ⟨s', _, ?_, hw.opened h (w := w) (by rw [hpd]) (by rw [hpd]) hmem hwa hheldact ?_⟩
    · rw [hsched, if_neg (by rw [hheld]; exact hmem)]
      refine Option.bind_eq_some_iff.mpr ⟨_, hmulti, ?_⟩
      rw [hs', hpd, ← hinst, ← hheld]
      rfl
    · rw [hs']
      exact hinst

end

/-- **`sched_to_worker` refines the ledger**, if a first tuple finds no other partition. -/
theorem schedToWorker_refines {iop : Bool} {s : AdaptiveSched N} (h : s.Inv) (hact : s.HasActive)
    (hheldact : ∀ p, s.nextPaneId ≤ p → ∀ w ∈ s.held p, s.activatedWorker w = true)
    {t : Tuple DIM} (ht : t.type = .regular) (hp : s.ledger.MayOpen iop t.paneId)
    (env : AdaptiveEnv N) :
    ∃ (s' : AdaptiveSched N) (out : Sends N DIM), s.schedToWorker env t = some (s', out) ∧ s'.Inv ∧
      Sched.Scheduled iop (s.FirstOk env t.paneId) t s.held s'.held s.toSched s'.toSched out := by
  obtain ⟨c, hc⟩ : ∃ c, c = s.counted t.paneId := ⟨_, rfl⟩
  have hstart : Start iop t s c := hc ▸ Start.of_counted h ht hp
  have hcact : c.HasActive := by
    rw [Sched.HasActive, hstart.counted.activatedWorker]
    exact hact
  have hsize : c.size t.paneId = s.size t.paneId + 1 :=
    (hstart.counted.size t.paneId).trans (if_pos rfl)
  -- the first tuple of the pane, one below the threshold, or one above it
  by_cases hone : c.size t.paneId = 1
  · exact hstart.first hc hcact (hheldact _ hp.1) env hone
  -- a pane that has had a tuple has a holder
  · have hne : s.held t.paneId ≠ [] := by
      intro hnil
      refine h.sound.sized t.paneId hp.1 (by omega) ?_
      exact (h.sound.held_iff _ hp.1).mp hnil
    by_cases hbelow : (c.belowThreshold env (c.des t.paneId).aTuples || c.warmup) = true
    · exact hstart.below hc (hheldact _ hp.1) env hone hne hbelow
    · exact hstart.above hc hcact (hheldact _ hp.1) env hone hbelow

/-! ## Removing workers -/

/-- What the loop of `removeWorkers` does at pane `p`. -/
structure PaneDone (iop : Bool) (p : Nat) (s s' : AdaptiveSched N) (out : Sends N DIM) : Prop where
  inv : s'.Inv
  moves : Ledger.Moves iop (s.toSched.ledger (s.kept s.held p)) out
    (s'.toSched.ledger (s'.kept s'.held (p + 1)))
  nextPaneId : s'.nextPaneId = s.nextPaneId
  nwPlq : s'.nwPlq = s.nwPlq
  activatedWorker : s'.activatedWorker = s.activatedWorker
  paneSize : s'.paneSize = s.paneSize
  length : s'.pInstances.length = s.pInstances.length
  control : ∀ x ∈ out, x.2.type ≠ .regular ∧ x.2.type ≠ .punct
  toActive : ∀ x ∈ out, s.activatedWorker x.1 = true

/-- A pane that has been dealt with, next to the active partitions. -/
theorem PaneDone.of_reassigned {iop : Bool} {p : Nat} {s s' : AdaptiveSched N} {out : Sends N DIM}
    (hinv : s'.Inv) (hd : Sched.PaneReassigned iop p s.held s'.held s.toSched s'.toSched out) :
    PaneDone iop p s s' out :=
  ⟨hinv, hd.moves, hd.nextPaneId, hd.nwPlq, hd.activatedWorker, hd.paneSize, hd.length, hd.control,
    hd.toActive⟩

/-- A removal treats a pane as the ledger says. -/
theorem PaneDone.reassigned {iop : Bool} {p : Nat} {s s' : AdaptiveSched N} {out : Sends N DIM}
    (hd : PaneDone iop p s s' out) :
    Sched.PaneReassigned iop p s.held s'.held s.toSched s'.toSched out :=
  ⟨hd.inv.sound, hd.moves, hd.nextPaneId, hd.nwPlq, hd.activatedWorker, hd.paneSize, hd.length,
    hd.control, hd.toActive⟩

/-- The descriptors after a write to pane `p`. -/
theorem Written.des_pane {s s' : AdaptiveSched N} {p : Nat} {pd : PaneDes N} (hw : Written p pd s s')
    (h : s.Inv) (hlt : p < s.pInstances.length) (q : Nat) :
    s'.des q = if q = p then pd else s.des q := by
  rw [AdaptiveSched.des, hw.pv, getD_set_of_lt (by rw [h.length]; exact hlt)]
  rfl

/-- The invariant after a write to pane `p` that leaves it with an active partition. -/
theorem Written.inv_pane {s s' : AdaptiveSched N} {p : Nat} {pd : PaneDes N} (hw : Written p pd s s')
    (h : s.Inv) (hlt : p < s.pInstances.length) (hsound : s'.Sound s'.held)
    (hpd : ∃ w ∈ pd.wIds, pd.aWorker = some w) : s'.Inv := by
  refine h.of_setDes hsound hw.nextPaneId ?_ (hw.des_pane h hlt) hpd
  rw [hw.pv, List.length_set, hw.length, h.length]

/-- The pane keeps its activated holders, of which one is or becomes the active one. -/
theorem Written.keptDone {iop : Bool} {s s' : AdaptiveSched N} {p : Nat} {pd : PaneDes N}
    (hw : Written p pd s s') (h : s.Inv) (hp : s.nextPaneId ≤ p) (hlt : p < s.pInstances.length)
    (hids : pd.wIds = (s.held p).filter s.activatedWorker) (hpd : ∃ w ∈ pd.wIds, pd.aWorker = some w)
    (hinst : s'.instances p = s.instances p) :
    PaneDone iop p s s' ([] : Sends N DIM) := by
  -- the descriptor keeps the workers that are still activated, all other panes are as before
  have hself : s'.held p = pd.wIds := by rw [held, hw.des_pane h hlt, if_pos rfl]
  have hoff : ∀ q, q ≠ p → s'.held q = s.held q := fun q hq => by
    rw [held, hw.des_pane h hlt, if_neg hq]
    rfl
  have hne : s'.held p ≠ [] := by
    obtain ⟨w, hmem, -⟩ := hpd
    rw [hself]
    exact List.ne_nil_of_mem hmem
  have hd : Sched.PaneReassigned iop p s.held s'.held s.toSched s'.toSched ([] : Sends N DIM) :=
    hw.rewritten.kept h.sound hp hoff (hself.trans hids) hne hinst
  exact PaneDone.of_reassigned (hw.inv_pane h hlt hd.sound hpd) hd

/-- The pane is split: an `EMPTYPANE` message opens another partition. -/
theorem Written.splitDone {iop : Bool} {s s' : AdaptiveSched N} {p : Nat} {pd : PaneDes N}
    (hw : Written p pd s s') (h : s.Inv) (hp : s.ledger.MayOpen iop p)
    (hlt : p < s.pInstances.length) {w : Fin N}
    (hids : pd.wIds = (s.held p).filter s.activatedWorker ++ [w]) (ha : pd.aWorker = some w)
    (hmem : w ∉ (s.held p).filter s.activatedWorker) (hwa : s.activatedWorker w = true)
    (hinst : s'.instances p = s.instances p + 1) :
    PaneDone iop p s s' ((((s.held p).filter s.activatedWorker).map fun v =>
        (v, (Tuple.createNewinst p (s.instances p + 1)
          ((s.held p).filter s.activatedWorker).length : Tuple DIM))) ++
      [(w, Tuple.createEmptypane p (s.instances p + 1))]) := by
  have hself : s'.held p = pd.wIds := by rw [held, hw.des_pane h hlt, if_pos rfl]
  have hoff : ∀ q, q ≠ p → s'.held q = s.held q := fun q hq => by
    rw [held, hw.des_pane h hlt, if_neg hq]
    rfl
  -- the pane goes to one more worker, which gets an `EMPTYPANE`
  have hd := hw.rewritten.split DIM h.sound hp hoff (hself.trans hids) hmem hwa hinst
  refine PaneDone.of_reassigned (hw.inv_pane h hlt hd.sound ⟨w, ?_, ha⟩) hd
  rw [hids]
  exact List.mem_append_right _ (List.mem_singleton_self w)

variable (DIM) in
/-- The body of the loop, with the remaining holders and the pruned descriptor named. -/
theorem reassignPane_eq (env : AdaptiveEnv N) {p : Nat} {s : AdaptiveSched N} {kept : List (Fin N)}
    {pd : PaneDes N} (hkept : kept = (s.des p).wIds.filter s.activatedWorker)
    (hpd : pd = { s.des p with
      wIds := kept
      iSizes := fun w =>
        if w ∈ (s.des p).wIds ∧ s.activatedWorker w = false then 0 else (s.des p).iSizes w }) :
    reassignPane env p s = ((
      if kept = [] ∨ pd.aWorker.all s.activatedWorker = false then do
        let (w, base) ← s.getLlwW (env.qlen p)
        let s' := { s with toSched := base }
        if w ∈ kept then
          let a := if h : p < N then pd.iSizes ⟨p, h⟩ else env.outOfRange p
          some (s'.setDes p { pd with aWorker := some w, aTuples := a }, [])
        else
          let s' := { s' with pInstances := s'.pInstances.set p (s'.pInstances.getD p 0 + 1) }
          let news ← s'.multicastNewinstToW kept p (s'.pInstances.getD p 0)
          let s' := s'.setDes p ⟨some w, kept ++ [w], 0, Function.update pd.iSizes w 0⟩
          some (s', news ++ [(w, Tuple.createEmptypane p (s'.pInstances.getD p 0))])
      else some (s.setDes p pd, [])) : Option (AdaptiveSched N × Sends N DIM)) := by
  rw [reassignPane, hpd, hkept]

variable (DIM) in
/-- One pane of the loop of `removeWorkers`. -/
theorem reassignPane_refines (iop : Bool) (env : AdaptiveEnv N) {p : Nat} {s : AdaptiveSched N}
    (h : s.Inv) (hact : s.HasActive) (hp : s.ledger.MayOpen iop p)
    (hlt : p < s.pInstances.length) :
    ∃ (s' : AdaptiveSched N) (out : Sends N DIM), reassignPane env p s = some (s', out) ∧
      PaneDone iop p s s' out := by
  obtain ⟨kept, hkept⟩ : ∃ kept, kept = (s.des p).wIds.filter s.activatedWorker := ⟨_, rfl⟩
  obtain ⟨pd, hpd⟩ : ∃ pd : PaneDes N, pd = { s.des p with
    wIds := kept
    iSizes := fun w =>
      if w ∈ (s.des p).wIds ∧ s.activatedWorker w = false then 0 else (s.des p).iSizes w } := ⟨_, rfl⟩
  obtain ⟨w, lastW, hllw, hwa⟩ := Sched.getLlwW_spec hact (env.qlen p)
  have hrun := reassignPane_eq DIM env hkept hpd
  have hheld : kept = (s.held p).filter s.activatedWorker := hkept
  have hids : pd.wIds = (s.held p).filter s.activatedWorker := by rw [hpd, hheld]
  have hset : ∀ n, (s.pInstances.set p n).getD p 0 = n := by
    intro n
    rw [getD_set_of_lt hlt, if_pos rfl]
  by_cases hsplit : kept = [] ∨ pd.aWorker.all s.activatedWorker = false
  · by_cases hmem : w ∈ kept
    · -- the least loaded worker has a partition of the pane
      obtain ⟨pd', hpd'⟩ : ∃ pd' : PaneDes N, pd' = { pd with
        aWorker := some w
        aTuples := if h : p < N then pd.iSizes ⟨p, h⟩ else env.outOfRange p } := ⟨_, rfl⟩
      obtain ⟨s', hs'⟩ : ∃ s' : AdaptiveSched N, s' = { s with
        lastW := lastW, pv := s.pv.set p pd' } := ⟨_, rfl⟩
      have hw : Written p pd' s s' := by
        rw [hs']
        exact ⟨rfl, rfl, rfl, rfl, rfl, fun _ _ => rfl, rfl⟩
      refine ⟨s', [], ?_, hw.keptDone h hp.1 hlt (by rw [hpd', ← hids]) ⟨w, ?_, by rw [hpd']⟩ ?_⟩
      · rw [hrun, if_pos hsplit, hllw]
        simp only [Option.bind_eq_bind, Option.bind_some]
        rw [if_pos hmem, hs', hpd']
        rfl
      · rw [hpd']
        show w ∈ pd.wIds
        rw [hids, ← hheld]
        exact hmem
      · rw [hs']
    · -- the pane is split
      obtain ⟨pd', hpd'⟩ : ∃ pd' : PaneDes N,
        pd' = ⟨some w, kept ++ [w], 0, Function.update pd.iSizes w 0⟩ := ⟨_, rfl⟩
      obtain ⟨s', hs'⟩ : ∃ s' : AdaptiveSched N, s' = { s with
        lastW := lastW
        pInstances := s.pInstances.set p (s.instances p + 1)
        pv := s.pv.set p pd' } := ⟨_, rfl⟩
      have hw : Written p pd' s s' := by
        rw [hs']
        refine ⟨rfl, rfl, rfl, rfl, List.length_set, fun q hq => ?_, rfl⟩
        show (s.pInstances.set p _).getD q 0 = _
        rw [getD_set_of_lt hlt, if_neg hq]
      have hmulti : Sched.multicastNewinstToW kept p
          ((s.pInstances.set p (s.instances p + 1)).getD p 0) { s.toSched with
            lastW := lastW
            pInstances := s.pInstances.set p (s.instances p + 1) }
          = some (kept.map fun v =>
            (v, (Tuple.createNewinst p (s.instances p + 1) kept.length : Tuple DIM))) := by
        rw [hset]
        refine Sched.multicastNewinstToW_spec (fun v hv => ?_) _ _
        rw [hkept] at hv
        exact (List.mem_filter.mp hv).2
      refine ⟨s', _, ?_, hw.splitDone h hp hlt (w := w) (by rw [hpd', hheld]) (by rw [hpd'])
        (by rw [← hheld]; exact hmem) hwa ?_⟩
      · rw [hrun, if_pos hsplit, hllw]
        simp only [Option.bind_eq_bind, Option.bind_some]
        rw [if_neg hmem]
        refine Option.bind_eq_some_iff.mpr ⟨_, hmulti, ?_⟩
        rw [hs', hpd', ← hheld]
        refine congrArg some (Prod.ext rfl ?_)
        show _ ++ [(w, Tuple.createEmptypane p
          ((s.pInstances.set p (s.instances p + 1)).getD p 0))] = _
        rw [hset]
      · rw [hs']
        exact hset _
  · -- the active partition stays
    have hne : kept ≠ [] := fun hnil => hsplit (Or.inl hnil)
    have hheldne : s.held p ≠ [] := by
      intro hnil
      rw [hheld, hnil] at hne
      exact hne rfl
    obtain ⟨a, ha, haw⟩ := h.active p hp.1 hheldne
    have hact' : s.activatedWorker a = true := by
      by_contra hfalse
      refine hsplit (Or.inr ?_)
      rw [hpd]
      show (s.des p).aWorker.all s.activatedWorker = false
      rw [haw]
      simpa using hfalse
    have hw : Written p pd s (s.setDes p pd) := ⟨rfl, rfl, rfl, rfl, rfl, fun _ _ => rfl, rfl⟩
    refine ⟨s.setDes p pd, [], by rw [hrun, if_neg hsplit],
      hw.keptDone h hp.1 hlt hids ⟨a, ?_, ?_⟩ rfl⟩
    · rw [hids]
      exact List.mem_filter.mpr ⟨ha, hact'⟩
    · rw [hpd]
      exact haw

variable (DIM) in
/-- **The loop of `removeWorkers` refines the ledger**, pane by pane. -/
theorem reassign_refines (iop : Bool) (env : AdaptiveEnv N) {p n : Nat} {s : AdaptiveSched N}
    (h : s.Inv) (hact : s.HasActive) (hp : s.nextPaneId ≤ p) (hn : p + n = max p s.pv.length)
    (hsingle : s.Single iop) :
    ∃ (s' : AdaptiveSched N) (out : Sends N DIM), reassign env p n s = some (s', out) ∧ s'.Inv ∧
      Sched.Reassigned iop p s.held s'.held s.toSched s'.toSched out := by
  -- induction on the panes still to visit; past the last descriptor there is nothing to do
  induction n generalizing p s with
  | zero =>
      refine ⟨s, [], rfl, h, Sched.Reassigned.refl fun q hq => ?_⟩
      rw [held, des, List.getD_eq_default _ _ (by omega)]
      rfl
  | succ n ih =>
      have hlt : p < s.pInstances.length := by rw [← h.length]; omega
      obtain ⟨s₁, out, hrun₁, hd⟩ :=
        reassignPane_refines DIM iop env h hact (hsingle.mayOpen hp hlt) hlt
      have hlen : s₁.pv.length = s.pv.length := by rw [hd.inv.length, hd.length, h.length]
      obtain ⟨s', outs, hrun, hinv', hre⟩ := ih hd.inv
        (by rw [Sched.HasActive, hd.activatedWorker]; exact hact) (p := p + 1)
        (by rw [hd.nextPaneId]; omega) (by omega)
        (by intro hi; rw [hd.nextPaneId, hd.length]; exact hsingle hi)
      refine ⟨s', out ++ outs, ?_, hinv', hd.reassigned.cons hre⟩
      rw [reassign, hrun₁]
      simp only [Option.bind_eq_bind, Option.bind_some, hrun]

/-- **`removeWorkers` refines the ledger.** -/
theorem removeWorkers_refines {iop : Bool} {ws : List (Fin N)} {s : AdaptiveSched N} (h : s.Inv)
    (hws : ws.Nodup) (hactive : ∀ w ∈ ws, s.activatedWorker w = true)
    (hleft : ∃ w, w ∉ ws ∧ s.activatedWorker w = true)
    (hheld : ∀ p, s.nextPaneId ≤ p → ∀ w ∈ s.held p, s.activatedWorker w = true)
    (hsingle : s.Single iop) (env : AdaptiveEnv N) (num : Nat) :
    ∃ (s' : AdaptiveSched N) (out : Sends N DIM), s.removeWorkers env num ws = some (s', out) ∧
      s'.Inv ∧ Sched.Removed iop num ws s.held s'.held s.toSched s'.toSched out := by
  -- the state after the flush: workers de-activated, descriptors as before
  obtain ⟨s₁, hs₁⟩ : ∃ s₁ : AdaptiveSched N,
    s₁ = { s with toSched := s.toSched.deactivated num ws } := ⟨_, rfl⟩
  have hbase : s₁.toSched = s.toSched.deactivated num ws := by rw [hs₁]
  have hpv : s₁.pv = s.pv := by rw [hs₁]
  have hdes : ∀ q, s₁.des q = s.des q := fun q => by rw [des, des, hpv]
  have hheld₁ : s₁.held = s.held := by funext p; rw [held, held, hdes]
  have hinv₁ : s₁.Inv := by
    refine ⟨?_, ?_, ?_⟩
    · rw [hheld₁, hbase]
      exact h.sound.deactivated num ws
    · rw [hpv, hbase]
      exact h.length
    · intro q hq hne
      rw [hbase] at hq
      rw [hheld₁] at hne ⊢
      rw [hdes]
      exact h.active q hq hne
  have hact₁ : s₁.HasActive := by
    obtain ⟨w, hw, ha⟩ := hleft
    refine ⟨w, ?_⟩
    rw [hbase]
    simp [Sched.deactivated, hw, ha]
  obtain ⟨s', out, hrun, hinv', hre⟩ := reassign_refines DIM iop env hinv₁ hact₁ le_rfl
    (n := s₁.pv.length - s₁.nextPaneId) (by omega) (by rw [hbase]; exact hsingle)
  refine ⟨s', (ws.map fun w => (w, Tuple.createFlush ws.length s.nextPaneId)) ++ out, ?_, hinv', ?_⟩
  rotate_left
  · rw [hheld₁, hbase] at hre
    exact hre.removed hws hheld
  · rw [removeWorkers, Sched.deactivateAndFlush_spec hws hactive]
    rw [hbase, hpv] at hrun
    simp only [Option.bind_eq_bind, Option.bind_some]
    rw [← hs₁, hrun]
    rfl

/-! ## Statistics -/

/-- The statistics are apart from the tables. -/
@[simp] theorem accountSizes_toSched (ns : List Nat) (s : AdaptiveSched N) :
    (accountSizes ns s).toSched = s.toSched := by
  induction ns generalizing s with
  | nil => rfl
  | cons n ns ih =>
      rw [accountSizes]
      split
      · rw [ih]
      · rw [ih]

/-- They are apart from the descriptors too. -/
@[simp] theorem accountSizes_pv (ns : List Nat) (s : AdaptiveSched N) :
    (accountSizes ns s).pv = s.pv := by
  induction ns generalizing s with
  | nil => rfl
  | cons n ns ih =>
      rw [accountSizes]
      split
      · rw [ih]
      · rw [ih]

/-- The loop over the completed panes is the one of the other strategies, next to the statistics. -/
theorem closePanes_spec {i n : Nat} {s : AdaptiveSched N} {base : Sched N} {out : Sends N DIM}
    (h : s.toSched.closePanes i n = some (base, out)) :
    ∃ s' : AdaptiveSched N, s.closePanes i n = some (s', out) ∧ s'.toSched = base ∧
      s'.pv = s.pv := by
  -- each pane adds its sizes to the statistics, apart from what the base class does
  induction n generalizing i s base out with
  | zero =>
      cases h
      exact ⟨s, rfl, rfl, rfl⟩
  | succ n ih =>
      rw [Sched.closePanes] at h
      obtain ⟨⟨base₁, lull⟩, h₁, h⟩ := Option.bind_eq_some_iff.mp h
      obtain ⟨⟨base₂, lulls⟩, h₂, h⟩ := Option.bind_eq_some_iff.mp h
      cases h
      obtain ⟨s', hrun, hbase, hpv⟩ := ih
        (s := accountSizes ((List.finRange N).map (s.des i).iSizes) { s with toSched := base₁ })
        (by rw [accountSizes_toSched]; exact h₂)
      refine ⟨s', ?_, hbase, hpv.trans (accountSizes_pv _ _)⟩
      rw [closePanes]
      simp only [Option.bind_eq_bind, h₁, Option.bind_some, hrun]

/-- **`executeStreamProgress` refines the ledger**, if no closed pane without tuples has a
partition. -/
theorem executeStreamProgress_refines {s : AdaptiveSched N} (h : s.Inv) (hact : s.HasActive)
    (env : AdaptiveEnv N) (iop : Bool) (ts : ℚ) (pId : Nat) :
    ∃ (s' : AdaptiveSched N) (out : Sends N DIM),
      s.executeStreamProgress env iop ts pId = some (s', out) ∧ s'.Inv ∧ s'.held = s.held ∧
      Sched.Progressed iop s.held pId s.toSched s'.toSched out := by
  -- the progress is old, or closes the panes up to the new one
  by_cases hlt : pId < s.nextPaneId
  · refine ⟨s, [], by rw [executeStreamProgress, if_pos hlt], h, rfl, ?_⟩
    exact Sched.Progressed.refl h.sound hlt
  · have hgact : (s.toSched.growTo pId).HasActive := by
      rw [Sched.HasActive, Sched.growTo_activatedWorker]
      exact hact
    obtain ⟨base, lulls, hclose, hcl⟩ := Sched.closePanes_spec DIM hgact
      (i := s.nextPaneId) (n := pId - s.nextPaneId) (by rw [Sched.length_growTo]; omega)
    obtain ⟨s₁, hrun, hbase, hpv⟩ := closePanes_spec
      (s := { s with toSched := s.toSched.growTo pId, pv := growTable s.pv pId (PaneDes.new N) })
      hclose
    have hpr := hcl.progressed DIM iop (Nat.not_lt.mp hlt) h.sound ts
    obtain ⟨s', hs'⟩ : ∃ s' : AdaptiveSched N, s' = { s₁ with
      stdSize := if s₁.totInstances = 0 then none
        else some (env.sqrt (s₁.snSize / s₁.totInstances))
      warmup := if 5 < pId then false else s₁.warmup
      nextPaneId := pId } := ⟨_, rfl⟩
    have hbase' : s'.toSched = { base with nextPaneId := pId } := by rw [hs', ← hbase]
    -- the tables grow, and the descriptors read as before
    have hdes : ∀ q, s'.des q = s.des q := by
      intro q
      rw [hs', des]
      show s₁.pv.getD q _ = _
      rw [hpv]
      exact getD_growTable s.pv pId _ q
    have hheld : s'.held = s.held := by funext q; rw [held, held, hdes]
    refine ⟨s', _, ?_, ⟨?_, ?_, ?_⟩, hheld, hbase' ▸ hpr⟩
    · rw [executeStreamProgress, if_neg hlt, growTo_eq h.length]
      simp only [Sched.growTo_nextPaneId, Option.bind_eq_bind]
      rw [hrun, Option.bind_some, ← hs']
      -- the punctuation is broadcast in the out-of-order pipeline only
      cases iop with
      | true => simp [Sched.progressSends]
      | false =>
          simp [Sched.progressSends, Sched.broadcastPuncToW, hbase, hcl.activatedWorker]
    · rw [hheld, hbase']
      exact hpr.sound
    · have hlen : s'.pv.length = max s.pv.length (pId + 1) := by
        rw [hs']
        show s₁.pv.length = _
        rw [hpv]
        exact length_growTable s.pv pId _
      rw [hbase', hpr.length, if_neg hlt, hlen, h.length]
    · intro q hq hne
      rw [hbase'] at hq
      rw [hheld] at hne ⊢
      rw [hdes]
      exact h.active q ((Nat.not_lt.mp hlt).trans hq) hne

end AdaptiveSched

end ElasticPPQ
