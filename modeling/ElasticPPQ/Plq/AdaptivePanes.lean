import ElasticPPQ.Lib.Welford
import ElasticPPQ.Plq.Calls

/-! # What adaptive scheduling does to its pane descriptors

One specification for each method, about the descriptors of the panes and the statistics: the branches
of `sched_to_worker` (`AdaptiveSched.SchedulesTo`), those of the loop of `removeWorkers`
(`AdaptiveSched.Reassigned`), and the statistics of a progress
(`AdaptiveSched.executeStreamProgress_stats`). -/

namespace ElasticPPQ

variable {N DIM : Nat}

namespace AdaptiveSched

/-- The statistics are not touched. -/
structure SameStats (s s' : AdaptiveSched N) : Prop where
  avgSize : s'.avgSize = s.avgSize
  snSize : s'.snSize = s.snSize
  stdSize : s'.stdSize = s.stdSize
  totInstances : s'.totInstances = s.totInstances
  warmup : s'.warmup = s.warmup

/-- Nothing has been counted. -/
theorem SameStats.refl (s : AdaptiveSched N) : SameStats s s := ⟨rfl, rfl, rfl, rfl, rfl⟩

/-- Nothing has been counted in two steps. -/
theorem SameStats.trans {s s' s'' : AdaptiveSched N} (h : SameStats s s') (h' : SameStats s' s'') :
    SameStats s s'' where
  avgSize := h'.avgSize.trans h.avgSize
  snSize := h'.snSize.trans h.snSize
  stdSize := h'.stdSize.trans h.stdSize
  totInstances := h'.totInstances.trans h.totInstances
  warmup := h'.warmup.trans h.warmup

/-- A descriptor that has been written is read. -/
theorem des_setDes {s : AdaptiveSched N} {p : Nat} (hp : p < s.pv.length) (pd : PaneDes N) (q : Nat) :
    (s.setDes p pd).des q = if q = p then pd else s.des q :=
  getD_set_of_lt hp q pd (PaneDes.new N)

/-! ## Scheduling a tuple -/

/-- The branches of `sched_to_worker`: the worker that a tuple of pane `p` goes to, and the descriptor
of the pane afterwards. -/
inductive SchedulesTo (s : AdaptiveSched N) (p : Nat) : Fin N → PaneDes N → Prop
  /-- The tuple is the first of a new pane. -/
  | first (w : Fin N) (hsize : s.size p = 0) (hw : s.activatedWorker w = true) :
      SchedulesTo s p w
        ⟨some w, (s.des p).wIds ++ [w], 1, Function.update (s.des p).iSizes w 1⟩
  /-- The tuple goes where the last one went. -/
  | same (w : Fin N) (hsize : s.size p ≠ 0) (hw : (s.des p).aWorker = some w) :
      SchedulesTo s p w { s.des p with
        aTuples := (s.des p).aTuples + 1
        iSizes := Function.update (s.des p).iSizes w ((s.des p).iSizes w + 1) }
  /-- Another partition becomes the active one. -/
  | back (w : Fin N) (hsize : s.size p ≠ 0) (hmem : w ∈ s.held p)
      (hw : s.activatedWorker w = true) :
      SchedulesTo s p w { s.des p with
        aTuples := (s.des p).iSizes w + 1
        aWorker := some w
        iSizes := Function.update (s.des p).iSizes w ((s.des p).iSizes w + 1) }
  /-- A new partition is created. -/
  | split (w : Fin N) (hsize : s.size p ≠ 0) (hmem : w ∉ s.held p)
      (hw : s.activatedWorker w = true) :
      SchedulesTo s p w
        ⟨some w, (s.des p).wIds ++ [w], 1, Function.update (s.des p).iSizes w 1⟩

/-- What a tuple for `w` changes, `pd` being the new descriptor of its pane. -/
structure TupleDone (t : Tuple DIM) (w : Fin N) (pd : PaneDes N) (s s' : AdaptiveSched N)
    (out : Sends N DIM) : Prop where
  des : ∀ q, s'.des q = if q = t.paneId then pd else s.des q
  size : ∀ q, s'.size q = if q = t.paneId then s.size t.paneId + 1 else s.size q
  nextPaneId : s'.nextPaneId = s.nextPaneId
  activatedWorker : s'.activatedWorker = s.activatedWorker
  stats : SameStats s s'
  sent : ∃ news n, out = news ++ [(w, { t with noInstances := n })] ∧
    ∀ x ∈ news, x.2.type = .newInst

/-- The chosen worker is activated. -/
theorem getLlwW_active {s : Sched N} {qlen : Fin N → Nat} {w : Fin N} {base : Sched N}
    (hact : s.HasActive) (h : s.getLlwW qlen = some (w, base)) :
    s.activatedWorker w = true ∧ ∃ lastW, base = { s with lastW := lastW } := by
  obtain ⟨w', lastW, hw', ha⟩ := Sched.getLlwW_spec hact qlen
  rw [hw'] at h
  obtain ⟨rfl, rfl⟩ := Prod.mk.inj (Option.some.inj h)
  exact ⟨ha, lastW, rfl⟩

/-- Counting a tuple leaves the descriptors alone. -/
theorem des_counted (s : AdaptiveSched N) (p q : Nat) : (s.counted p).des q = s.des q :=
  getD_growTable s.pv p _ q

/-- What is common to the branches: the descriptor is written after the tuple has been counted, into
a state that differs from the counted one in the search for workers and the counts. -/
theorem TupleDone.of_counted {s c' : AdaptiveSched N} (hinv : s.Inv) {t : Tuple DIM} {w : Fin N}
    {pd : PaneDes N} {out : Sends N DIM} (hpv : c'.pv = (s.counted t.paneId).pv)
    (hpane : c'.paneSize = (s.counted t.paneId).paneSize)
    (hnext : c'.nextPaneId = (s.counted t.paneId).nextPaneId)
    (hactive : c'.activatedWorker = (s.counted t.paneId).activatedWorker)
    (hstats : SameStats (s.counted t.paneId) c')
    (hsent : ∃ news n, out = news ++ [(w, { t with noInstances := n })] ∧
      ∀ x ∈ news, x.2.type = .newInst) :
    TupleDone t w pd s (c'.setDes t.paneId pd) out := by
  have hcount := Sched.counted_spec hinv.sound.sizes t.paneId
  have hlt : t.paneId < c'.pv.length := by
    rw [hpv]
    show t.paneId < (growTable s.pv t.paneId (PaneDes.new N)).length
    rw [length_growTable]
    omega
  -- descriptors, sizes, position and workers, statistics, and messages
  refine ⟨fun q => ?_, fun q => ?_, hnext.trans hcount.nextPaneId,
    hactive.trans hcount.activatedWorker, ?_, hsent⟩
  · rw [des_setDes hlt, AdaptiveSched.des, hpv, ← des_counted s t.paneId q]
    rfl
  · show c'.paneSize.getD q 0 = _
    rw [hpane]
    exact hcount.size q
  · exact ⟨hstats.avgSize, hstats.snSize, hstats.stdSize, hstats.totInstances, hstats.warmup⟩

/-- **The branches of `sched_to_worker`.** -/
theorem schedToWorker_cases {s s' : AdaptiveSched N} (hinv : s.Inv) (hact : s.HasActive)
    {env : AdaptiveEnv N} {t : Tuple DIM} {out : Sends N DIM}
    (h : s.schedToWorker env t = some (s', out)) :
    ∃ w pd, s.SchedulesTo t.paneId w pd ∧ TupleDone t w pd s s' out := by
  obtain ⟨c, hc⟩ : ∃ c, c = s.counted t.paneId := ⟨_, rfl⟩
  have hcount : Sched.Counted t.paneId s.toSched c.toSched := by
    rw [hc]
    exact Sched.counted_spec hinv.sound.sizes t.paneId
  have hdes : ∀ q, c.des q = s.des q := by
    intro q
    rw [hc]
    exact des_counted s t.paneId q
  have hcact : c.HasActive := by
    rw [Sched.HasActive, hcount.activatedWorker]
    exact hact
  have hsize : c.size t.paneId = s.size t.paneId + 1 := by
    have := hcount.size t.paneId
    rwa [if_pos rfl] at this
  have hdone : ∀ {c' : AdaptiveSched N} {w : Fin N} {pd : PaneDes N} {out' : Sends N DIM},
      (c'.pv = c.pv ∧ c'.paneSize = c.paneSize ∧ c'.nextPaneId = c.nextPaneId ∧
        c'.activatedWorker = c.activatedWorker ∧ SameStats c c') →
      (∃ news n, out' = news ++ [(w, { t with noInstances := n })] ∧
        ∀ x ∈ news, x.2.type = .newInst) →
      TupleDone t w pd s (c'.setDes t.paneId pd) out' := by
    rintro c' w pd out' ⟨hpv, hpane, hnext, hactive, hst⟩ hsent
    rw [hc] at hpv hpane hnext hactive hst
    exact TupleDone.of_counted hinv hpv hpane hnext hactive hst hsent
  have hnone : ∀ x ∈ ([] : Sends N DIM), x.2.type = .newInst := fun x hx =>
    absurd hx List.not_mem_nil
  rw [schedToWorker_eq hinv.length env hc] at h
  split at h
  · -- the first tuple
    rename_i hone
    obtain ⟨⟨w, base⟩, hllw, h⟩ := Option.bind_eq_some_iff.mp h
    obtain ⟨ha, lastW, rfl⟩ := getLlwW_active hcact hllw
    obtain ⟨rfl, rfl⟩ := Prod.mk.inj (Option.some.inj h)
    rw [hcount.activatedWorker] at ha
    refine ⟨w, _, SchedulesTo.first w (by omega) ha, ?_⟩
    rw [← hdes]
    refine hdone ?_ ⟨[], _, rfl, hnone⟩
    exact ⟨rfl, rfl, rfl, rfl, ⟨rfl, rfl, rfl, rfl, rfl⟩⟩
  · rename_i hmore
    have hne : s.size t.paneId ≠ 0 := by omega
    split at h
    · -- the active partition is not so large
      obtain ⟨w, hw, h⟩ := Option.bind_eq_some_iff.mp h
      obtain ⟨rfl, rfl⟩ := Prod.mk.inj (Option.some.inj h)
      rw [hdes] at hw
      refine ⟨w, _, SchedulesTo.same w hne hw, ?_⟩
      rw [← hdes]
      refine hdone ?_ ⟨[], _, rfl, hnone⟩
      exact ⟨rfl, rfl, rfl, rfl, ⟨rfl, rfl, rfl, rfl, rfl⟩⟩
    · obtain ⟨⟨w, base⟩, hllw, h⟩ := Option.bind_eq_some_iff.mp h
      obtain ⟨ha, lastW, rfl⟩ := getLlwW_active hcact hllw
      rw [hcount.activatedWorker] at ha
      dsimp only at h
      split at h
      · rename_i hmem
        obtain ⟨rfl, rfl⟩ := Prod.mk.inj (Option.some.inj h)
        rw [hdes] at hmem
        refine ⟨w, _, SchedulesTo.back w hne hmem ha, ?_⟩
        rw [← hdes]
        refine hdone ?_ ⟨[], _, rfl, hnone⟩
        exact ⟨rfl, rfl, rfl, rfl, ⟨rfl, rfl, rfl, rfl, rfl⟩⟩
      · rename_i hmem
        obtain ⟨news, hnews, h⟩ := Option.bind_eq_some_iff.mp h
        obtain ⟨rfl, rfl⟩ := Prod.mk.inj (Option.some.inj h)
        rw [hdes] at hmem
        refine ⟨w, _, SchedulesTo.split w hne hmem ha, ?_⟩
        rw [← hdes]
        refine hdone ?_ ⟨news, _, rfl, fun x hx => ?_⟩
        · exact ⟨rfl, rfl, rfl, rfl, ⟨rfl, rfl, rfl, rfl, rfl⟩⟩
        unfold Sched.multicastNewinstToW at hnews
        split at hnews
        · obtain rfl := Option.some.inj hnews
          obtain ⟨v, -, rfl⟩ := List.mem_map.mp hx
          rfl
        · cases hnews

/-! ## Removing workers -/

/-- The descriptor of a pane once the de-activated workers are dropped from it. -/
def pruned (s : AdaptiveSched N) (p : Nat) : PaneDes N :=
  { s.des p with
    wIds := (s.des p).wIds.filter s.activatedWorker
    iSizes := fun w =>
      if w ∈ (s.des p).wIds ∧ s.activatedWorker w = false then 0 else (s.des p).iSizes w }

/-- The loop of `removeWorkers` forces a split of pane `p`: nobody holds a partition any more, or the
worker of the active one is gone. -/
def Forced (s : AdaptiveSched N) (p : Nat) : Prop :=
  (s.pruned p).wIds = [] ∨ (s.des p).aWorker.all s.activatedWorker = false

instance (s : AdaptiveSched N) (p : Nat) : Decidable (s.Forced p) :=
  inferInstanceAs (Decidable (_ ∨ _))

/-- What the loop of `removeWorkers` finds at pane `p` if the round-robin order starts at `lastW`: the
least loaded worker, if the pane is split and this worker holds a partition of it already, and where
the order starts afterwards. -/
def visit (env : AdaptiveEnv N) (s : AdaptiveSched N) (p lastW : Nat) : Option (Fin N) × Nat :=
  if s.Forced p then
    match Sched.leastLoaded s.activatedWorker (env.qlen p) (Sched.scanOrder N lastW) none with
    | none => (none, lastW)
    | some w => (if w ∈ (s.pruned p).wIds then some w else none, (w.val + 1) % N)
  else (none, lastW)

/-- The panes at which the loop over `p, …, p + n - 1` reads `i_sizes` at the index of the pane, with
the worker of which it needs the entry. -/
def misreads (env : AdaptiveEnv N) (s : AdaptiveSched N) : Nat → Nat → Nat → List (Nat × Fin N)
  | _, 0, _ => []
  | p, n + 1, lastW =>
      ((visit env s p lastW).1.map fun w => (p, w)).toList ++
        misreads env s (p + 1) n (visit env s p lastW).2

/-- The branches of the loop of `removeWorkers`: the descriptor of the pane afterwards, and the worker
of which the loop needs the entry of `i_sizes`. -/
inductive Reassigned (env : AdaptiveEnv N) (s : AdaptiveSched N) (p : Nat) :
    Option (Fin N) → PaneDes N → Prop
  /-- The active partition stays. -/
  | kept (h : ¬ s.Forced p) : Reassigned env s p none (s.pruned p)
  /-- The least loaded worker has a partition already. -/
  | back (w : Fin N) (h : s.Forced p) (hmem : w ∈ (s.pruned p).wIds) :
      Reassigned env s p (some w) { s.pruned p with
        aWorker := some w
        aTuples := if h : p < N then (s.pruned p).iSizes ⟨p, h⟩ else env.outOfRange p }
  /-- The least loaded worker gets a new partition. -/
  | split (w : Fin N) (h : s.Forced p) (hmem : w ∉ (s.pruned p).wIds)
      (ha : s.activatedWorker w = true) :
      Reassigned env s p none
        ⟨some w, (s.pruned p).wIds ++ [w], 0, Function.update (s.pruned p).iSizes w 0⟩

/-- What the loop of `removeWorkers` does not touch. -/
structure LoopFrame (s s' : AdaptiveSched N) (out : Sends N DIM) : Prop where
  paneSize : s'.paneSize = s.paneSize
  nextPaneId : s'.nextPaneId = s.nextPaneId
  activatedWorker : s'.activatedWorker = s.activatedWorker
  length : s'.pv.length = s.pv.length
  stats : SameStats s s'
  control : ∀ x ∈ out, x.2.type ≠ .regular

/-- The loop reads the descriptor of the pane and the activated workers only. -/
theorem pruned_congr {s c : AdaptiveSched N} {p : Nat} (hdes : c.des p = s.des p)
    (hactive : c.activatedWorker = s.activatedWorker) : c.pruned p = s.pruned p := by
  rw [pruned, pruned, hdes, hactive]

/-- Whether a pane is forced to another worker depends on its descriptor and on the workers. -/
theorem forced_congr {s c : AdaptiveSched N} {p : Nat} (hdes : c.des p = s.des p)
    (hactive : c.activatedWorker = s.activatedWorker) : c.Forced p ↔ s.Forced p := by
  rw [Forced, Forced, pruned_congr hdes hactive, hdes, hactive]

/-- So does what a removal does to it. -/
theorem visit_congr {s c : AdaptiveSched N} {p : Nat} (hdes : c.des p = s.des p)
    (hactive : c.activatedWorker = s.activatedWorker) (env : AdaptiveEnv N) (lastW : Nat) :
    visit env c p lastW = visit env s p lastW := by
  by_cases hf : s.Forced p
  · rw [visit, visit, if_pos hf, if_pos ((forced_congr hdes hactive).mpr hf), hactive,
      pruned_congr hdes hactive]
  · rw [visit, visit, if_neg hf, if_neg fun h => hf ((forced_congr hdes hactive).mp h)]

/-- A pane is reassigned by its descriptor. -/
theorem Reassigned.congr {env : AdaptiveEnv N} {s c : AdaptiveSched N} {p : Nat} {r : Option (Fin N)}
    {pd : PaneDes N} (h : c.Reassigned env p r pd) (hdes : c.des p = s.des p)
    (hactive : c.activatedWorker = s.activatedWorker) : s.Reassigned env p r pd := by
  have hp := pruned_congr hdes hactive
  have hf := forced_congr hdes hactive
  -- one case for each way in which the pane may have been reassigned
  cases h with
  | kept h =>
      rw [hp]
      exact Reassigned.kept fun hs => h (hf.mpr hs)
  | back w h hmem =>
      rw [hp] at hmem ⊢
      exact Reassigned.back w (hf.mp h) hmem
  | split w h hmem ha =>
      rw [hp] at hmem ⊢
      rw [hactive] at ha
      exact Reassigned.split w (hf.mp h) hmem ha

/-- **One pane of the loop of `removeWorkers`.** -/
theorem reassignPane_cases {s s' : AdaptiveSched N} (hact : s.HasActive) {env : AdaptiveEnv N}
    {p : Nat} (hp : p < s.pv.length) {out : Sends N DIM}
    (h : reassignPane env p s = some (s', out)) :
    s.Reassigned env p (visit env s p s.lastW).1 (s'.des p) ∧
      s'.lastW = (visit env s p s.lastW).2 ∧ (∀ q, q ≠ p → s'.des q = s.des q) ∧
      LoopFrame s s' out := by
  have hnone : ∀ x ∈ ([] : Sends N DIM), x.2.type ≠ .regular := fun x hx =>
    absurd hx List.not_mem_nil
  have hset : ∀ (c : AdaptiveSched N) (pd : PaneDes N) (q : Nat), c.pv = s.pv →
      (c.setDes p pd).des q = if q = p then pd else s.des q := by
    intro c pd q hpv
    rw [des_setDes (by rw [hpv]; exact hp), AdaptiveSched.des, hpv]
    rfl
  rw [@reassignPane_eq N DIM env p s (s.pruned p).wIds (s.pruned p) rfl rfl] at h
  split at h
  · -- no partition is left, or the active one is lost
    rename_i hforced
    have hforced : s.Forced p := hforced
    obtain ⟨⟨w, base⟩, hllw, h⟩ := Option.bind_eq_some_iff.mp h
    obtain ⟨ha, -⟩ := getLlwW_active hact hllw
    rw [Sched.getLlwW] at hllw
    obtain ⟨w', hw', hbase⟩ := Option.map_eq_some_iff.mp hllw
    obtain ⟨rfl, rfl⟩ := Prod.mk.inj hbase
    have hvisit : visit env s p s.lastW =
        (if w' ∈ (s.pruned p).wIds then some w' else none, (w'.val + 1) % N) := by
      rw [visit, if_pos hforced, hw']
    dsimp only at h
    rw [hvisit]
    split at h
    · -- the least loaded worker has a partition of the pane
      rename_i hmem
      obtain ⟨rfl, rfl⟩ := Prod.mk.inj (Option.some.inj h)
      refine ⟨?_, rfl, fun q hq => (hset _ _ q rfl).trans (if_neg hq), rfl, rfl, rfl,
        List.length_set, ⟨rfl, rfl, rfl, rfl, rfl⟩, hnone⟩
      rw [hset _ _ p, if_pos rfl, if_pos hmem]
      · exact Reassigned.back w' hforced hmem
      · rfl
    · -- it gets a new one
      rename_i hmem
      obtain ⟨news, hnews, h⟩ := Option.bind_eq_some_iff.mp h
      obtain ⟨rfl, rfl⟩ := Prod.mk.inj (Option.some.inj h)
      refine ⟨?_, rfl, fun q hq => (hset _ _ q rfl).trans (if_neg hq), rfl, rfl, rfl,
        List.length_set, ⟨rfl, rfl, rfl, rfl, rfl⟩, fun x hx => ?_⟩
      · rw [hset _ _ p, if_pos rfl, if_neg hmem]
        · exact Reassigned.split w' hforced hmem ha
        · rfl
      · rcases List.mem_append.mp hx with hx | hx
        · unfold Sched.multicastNewinstToW at hnews
          split at hnews
          · obtain rfl := Option.some.inj hnews
            obtain ⟨v, -, rfl⟩ := List.mem_map.mp hx
            exact TypeMsg.noConfusion
          · cases hnews
        · rw [List.mem_singleton.mp hx]
          exact TypeMsg.noConfusion
  · -- the active partition stays
    rename_i hforced
    have hforced : ¬ s.Forced p := hforced
    obtain ⟨rfl, rfl⟩ := Prod.mk.inj (Option.some.inj h)
    rw [visit, if_neg hforced]
    refine ⟨?_, rfl, fun q hq => (hset _ _ q rfl).trans (if_neg hq), rfl, rfl, rfl, List.length_set,
      ⟨rfl, rfl, rfl, rfl, rfl⟩, hnone⟩
    rw [hset _ _ p rfl, if_pos rfl]
    exact Reassigned.kept hforced

/-- The panes of the loop. -/
theorem mem_misreads {env : AdaptiveEnv N} {s : AdaptiveSched N} {p n lastW : Nat}
    {x : Nat × Fin N} (hx : x ∈ misreads env s p n lastW) : p ≤ x.1 ∧ x.1 < p + n := by
  induction n generalizing p lastW with
  | zero => exact absurd hx List.not_mem_nil
  | succ n ih =>
      rw [misreads] at hx
      rcases List.mem_append.mp hx with hx | hx
      · obtain ⟨w, -, rfl⟩ := Option.map_eq_some_iff.mp (Option.mem_toList.mp hx)
        exact ⟨Nat.le_refl p, Nat.lt_add_of_pos_right (Nat.succ_pos n)⟩
      · have := ih hx
        omega

/-- **The loop of `removeWorkers`**, in terms of the state `s` before it. -/
theorem reassign_cases {env : AdaptiveEnv N} {s c c' : AdaptiveSched N} {p n : Nat}
    (hact : s.HasActive) (hactive : c.activatedWorker = s.activatedWorker)
    (hdes : ∀ q, p ≤ q → c.des q = s.des q) (hlen : p + n ≤ max p c.pv.length) {out : Sends N DIM}
    (h : reassign env p n c = some (c', out)) :
    (∀ q, p ≤ q → q < p + n → ∃ r, s.Reassigned env q r (c'.des q) ∧
        ∀ w, r = some w ↔ (q, w) ∈ misreads env s p n c.lastW) ∧
      (∀ q, q < p ∨ p + n ≤ q → c'.des q = c.des q) ∧ LoopFrame c c' out := by
  induction n generalizing p c c' out with
  | zero =>
      obtain ⟨rfl, rfl⟩ := Prod.mk.inj (Option.some.inj h)
      exact ⟨fun q hq hlt => by omega, fun q _ => rfl, rfl, rfl, rfl, rfl, SameStats.refl c,
        fun x hx => absurd hx List.not_mem_nil⟩
  | succ n ih =>
      rw [reassign] at h
      obtain ⟨⟨c₁, out₁⟩, h₁, h⟩ := Option.bind_eq_some_iff.mp h
      obtain ⟨⟨c₂, outs⟩, h₂, h⟩ := Option.bind_eq_some_iff.mp h
      obtain ⟨rfl, rfl⟩ := Prod.mk.inj (Option.some.inj h)
      have hcact : c.HasActive := by
        rw [Sched.HasActive, hactive]
        exact hact
      obtain ⟨hpane, hlast, hother, hframe⟩ := reassignPane_cases hcact (by omega) h₁
      rw [visit_congr (hdes p le_rfl) hactive] at hpane hlast
      obtain ⟨hloop, hrest, hframe'⟩ := ih (hframe.activatedWorker.trans hactive)
        (fun q hq => (hother q (by omega)).trans (hdes q (by omega)))
        (by rw [hframe.length]; omega) h₂
      rw [hlast] at hloop
      refine ⟨fun q hq hlt => ?_, fun q hq => ?_, hframe'.paneSize.trans hframe.paneSize,
        hframe'.nextPaneId.trans hframe.nextPaneId,
        hframe'.activatedWorker.trans hframe.activatedWorker, hframe'.length.trans hframe.length,
        hframe.stats.trans hframe'.stats, fun x hx => ?_⟩
      · rw [misreads]
        by_cases hqp : q = p
        · -- the first pane: the other ones are not concerned
          subst hqp
          refine ⟨(visit env s q c.lastW).1, ?_, fun w => ?_⟩
          · rw [hrest q (Or.inl (Nat.lt_succ_self q))]
            exact hpane.congr (hdes q le_rfl) hactive
          · rw [List.mem_append, Option.mem_toList, Option.map_eq_some_iff]
            constructor
            · exact fun hr => Or.inl ⟨w, hr, rfl⟩
            · rintro (⟨v, hv, heq⟩ | hmem)
              · rw [hv, (Prod.mk.inj heq).2]
              · have := (mem_misreads hmem).1
                omega
        · obtain ⟨r, hr, hiff⟩ := hloop q (by omega) (by omega)
          refine ⟨r, hr, fun w => (hiff w).trans ?_⟩
          rw [List.mem_append, Option.mem_toList, Option.map_eq_some_iff]
          constructor
          · exact Or.inr
          · rintro (⟨v, -, heq⟩ | hmem)
            · exact absurd (Prod.mk.inj heq).1.symm hqp
            · exact hmem
      · rw [hrest q (by omega)]
        exact hother q (by omega)
      · rcases List.mem_append.mp hx with hx | hx
        · exact hframe.control x hx
        · exact hframe'.control x hx

/-- The state in which the loop of `removeWorkers` starts. -/
def afterFlush (num : Nat) (ws : List (Fin N)) (s : AdaptiveSched N) : AdaptiveSched N :=
  { s with toSched := s.toSched.deactivated num ws }

/-- The flush leaves the descriptors alone. -/
@[simp] theorem afterFlush_des (num : Nat) (ws : List (Fin N)) (s : AdaptiveSched N) (p : Nat) :
    (s.afterFlush num ws).des p = s.des p := rfl

/-- The workers removed are not activated any more. -/
@[simp] theorem afterFlush_activatedWorker (num : Nat) (ws : List (Fin N)) (s : AdaptiveSched N) :
    (s.afterFlush num ws).activatedWorker = fun v => s.activatedWorker v && !decide (v ∈ ws) := rfl

/-- The panes at which `removeWorkers` reads `i_sizes` at the index of the pane. -/
def removalMisreads (env : AdaptiveEnv N) (ws : List (Fin N)) (s : AdaptiveSched N) :
    List (Nat × Fin N) :=
  misreads env (s.afterFlush ws.length ws) s.nextPaneId (s.pv.length - s.nextPaneId) s.lastW

/-- What `removeWorkers` changes. -/
structure RemovalDone (env : AdaptiveEnv N) (ws : List (Fin N)) (s s' : AdaptiveSched N)
    (out : Sends N DIM) : Prop where
  panes : ∀ q, s.nextPaneId ≤ q → q < s.pv.length →
    ∃ r, (s.afterFlush ws.length ws).Reassigned env q r (s'.des q) ∧
      ∀ w, r = some w ↔ (q, w) ∈ s.removalMisreads env ws
  others : ∀ q, q < s.nextPaneId ∨ s.pv.length ≤ q → s'.des q = s.des q
  size : ∀ q, s'.size q = s.size q
  nextPaneId : s'.nextPaneId = s.nextPaneId
  activatedWorker : s'.activatedWorker = fun v => s.activatedWorker v && !decide (v ∈ ws)
  stats : SameStats s s'
  control : ∀ x ∈ out, x.2.type ≠ .regular

/-- **`removeWorkers`, pane by pane.** -/
theorem removeWorkers_cases {s s' : AdaptiveSched N} {env : AdaptiveEnv N} {ws : List (Fin N)}
    (hws : ws.Nodup) (hactive : ∀ w ∈ ws, s.activatedWorker w = true)
    (hleft : ∃ w, w ∉ ws ∧ s.activatedWorker w = true) {out : Sends N DIM}
    (h : s.removeWorkers env ws.length ws = some (s', out)) : RemovalDone env ws s s' out := by
  have hact : (s.afterFlush ws.length ws).HasActive := by
    obtain ⟨w, hw, ha⟩ := hleft
    refine ⟨w, ?_⟩
    rw [afterFlush_activatedWorker]
    simp [hw, ha]
  rw [removeWorkers, Sched.deactivateAndFlush_spec hws hactive] at h
  obtain ⟨⟨base, flush⟩, h₀, h⟩ := Option.bind_eq_some_iff.mp h
  obtain ⟨rfl, rfl⟩ := Prod.mk.inj (Option.some.inj h₀)
  obtain ⟨⟨s₁, outs⟩, h₁, h⟩ := Option.bind_eq_some_iff.mp h
  obtain ⟨rfl, rfl⟩ := Prod.mk.inj (Option.some.inj h)
  have h₁ : reassign env s.nextPaneId (s.pv.length - s.nextPaneId) (s.afterFlush ws.length ws) =
      some (s₁, outs) := h₁
  have hlen : (s.afterFlush ws.length ws).pv.length = s.pv.length := rfl
  -- the loop visits the panes from the next one to close to the last descriptor
  obtain ⟨hloop, hrest, hframe⟩ := reassign_cases hact rfl (fun _ _ => rfl) (by omega) h₁
  exact {
    panes := fun q hq hlt => hloop q hq (by omega)
    others := fun q hq => hrest q (by omega)
    size := fun q => by rw [Sched.size, hframe.paneSize]; rfl
    nextPaneId := hframe.nextPaneId
    activatedWorker := hframe.activatedWorker
    stats := ⟨hframe.stats.avgSize, hframe.stats.snSize, hframe.stats.stdSize,
      hframe.stats.totInstances, hframe.stats.warmup⟩
    control := fun x hx => by
      rcases List.mem_append.mp hx with hx | hx
      · obtain ⟨w, -, rfl⟩ := List.mem_map.mp hx
        exact TypeMsg.noConfusion
      · exact hframe.control x hx }

/-! ## The progress of the stream -/

/-- The statistics as a running mean. -/
def running (s : AdaptiveSched N) : Running ℚ := ⟨s.totInstances, s.avgSize, s.snSize⟩

/-- The positive entries of `i_sizes` of a pane. -/
def partitions (s : AdaptiveSched N) (p : Nat) : List Nat :=
  ((List.finRange N).map (s.des p).iSizes).filter fun n => 0 < n

/-- The sizes of the panes that are not empty enter the statistics. -/
theorem accountSizes_running (ns : List Nat) (s : AdaptiveSched N) :
    (accountSizes ns s).running =
      ((ns.filter fun n => 0 < n).map fun n : Nat => (n : ℚ)).foldl Running.push s.running := by
  induction ns generalizing s with
  | nil => rfl
  | cons n ns ih =>
      rw [accountSizes]
      -- partitions without tuples do not enter the statistics
      by_cases hn : 0 < n
      · have hcons : (n :: ns).filter (fun n => 0 < n) = n :: ns.filter fun n => 0 < n :=
          List.filter_cons_of_pos (by simpa using hn)
        rw [if_pos hn, ih, hcons, List.map_cons, List.foldl_cons]
        rfl
      · have hcons : (n :: ns).filter (fun n => 0 < n) = ns.filter fun n => 0 < n :=
          List.filter_cons_of_neg (by simpa using hn)
        rw [if_neg hn, ih, hcons]

/-- They do not end the warmup. -/
theorem accountSizes_warmup (ns : List Nat) (s : AdaptiveSched N) :
    (accountSizes ns s).warmup = s.warmup := by
  induction ns generalizing s with
  | nil => rfl
  | cons n ns ih =>
      rw [accountSizes]
      split
      · rw [ih]
      · rw [ih]

/-- The loop over the completed panes accounts their partitions. -/
theorem closePanes_running {i n : Nat} {s s' : AdaptiveSched N} {out : Sends N DIM}
    (h : s.closePanes i n = some (s', out)) :
    s'.running = (((List.range' i n).flatMap s.partitions).map fun n : Nat => (n : ℚ)).foldl Running.push
        s.running ∧ s'.warmup = s.warmup ∧ s'.pv = s.pv := by
  induction n generalizing i s s' out with
  | zero =>
      obtain ⟨rfl, rfl⟩ := Prod.mk.inj (Option.some.inj h)
      exact ⟨rfl, rfl, rfl⟩
  | succ n ih =>
      rw [closePanes] at h
      obtain ⟨⟨base, lull⟩, -, h⟩ := Option.bind_eq_some_iff.mp h
      obtain ⟨⟨s₁, lulls⟩, h₁, h⟩ := Option.bind_eq_some_iff.mp h
      obtain ⟨rfl, rfl⟩ := Prod.mk.inj (Option.some.inj h)
      obtain ⟨hrun, hwarm, hpv⟩ := ih h₁
      rw [accountSizes_pv] at hpv
      rw [accountSizes_warmup] at hwarm
      refine ⟨?_, hwarm, hpv⟩
      -- the statistics of one pane leave the sizes of the others alone
      have hparts : ∀ p, (accountSizes ((List.finRange N).map (s.des i).iSizes)
          { s with toSched := base }).partitions p = s.partitions p := by
        intro p
        rw [partitions, AdaptiveSched.des, accountSizes_pv]
        rfl
      rw [hrun, accountSizes_running, List.range'_succ, List.flatMap_cons, List.map_append,
        List.foldl_append, List.flatMap_congr fun p _ => hparts p]
      rfl

/-- **The statistics of a progress**: each pane that is completed is accounted with the sizes that its
partitions have now. -/
theorem executeStreamProgress_stats {s s' : AdaptiveSched N}
    (hlen : s.pv.length = s.pInstances.length) {env : AdaptiveEnv N} {iop : Bool} {ts : ℚ}
    {pId : Nat} {out : Sends N DIM} (h : s.executeStreamProgress env iop ts pId = some (s', out)) :
    (∀ q, s'.des q = s.des q) ∧
      s'.running = (((List.range' s.nextPaneId (pId - s.nextPaneId)).flatMap s.partitions).map
        fun n : Nat => (n : ℚ)).foldl Running.push s.running ∧
      s'.warmup = (s.warmup && !decide (s.nextPaneId ≤ pId ∧ 5 < pId)) ∧
      s'.stdSize = if pId < s.nextPaneId then s.stdSize
        else if s'.totInstances = 0 then none
        else some (env.sqrt (s'.snSize / s'.totInstances)) := by
  by_cases hlt : pId < s.nextPaneId
  · rw [executeStreamProgress, if_pos hlt] at h
    obtain ⟨rfl, rfl⟩ := Prod.mk.inj (Option.some.inj h)
    have hzero : pId - s.nextPaneId = 0 := by omega
    refine ⟨fun q => rfl, by rw [hzero]; rfl, ?_, (if_pos hlt).symm⟩
    rw [decide_eq_false fun hle => by omega]
    simp
  · rw [executeStreamProgress, if_neg hlt, growTo_eq hlen] at h
    obtain ⟨⟨s₁, lulls⟩, h₁, h⟩ := Option.bind_eq_some_iff.mp h
    obtain ⟨hrun, hwarm, hpv⟩ := closePanes_running h₁
    rw [Sched.growTo_nextPaneId] at hrun
    have hdes : ∀ q, s₁.des q = s.des q := by
      intro q
      rw [AdaptiveSched.des, hpv]
      exact getD_growTable s.pv pId _ q
    have hparts : ∀ p, AdaptiveSched.partitions { s with
        toSched := s.toSched.growTo pId, pv := growTable s.pv pId (PaneDes.new N) } p =
        s.partitions p := by
      intro p
      rw [partitions, AdaptiveSched.des]
      show ((List.finRange N).map ((growTable s.pv pId (PaneDes.new N)).getD p _).iSizes).filter _ = _
      rw [getD_growTable]
      rfl
    rw [List.flatMap_congr fun p _ => hparts p] at hrun
    obtain ⟨s₂, hs₂⟩ : ∃ s₂ : AdaptiveSched N, s₂ = { s₁ with
      stdSize := if s₁.totInstances = 0 then none
        else some (env.sqrt (s₁.snSize / s₁.totInstances))
      warmup := if 5 < pId then false else s₁.warmup
      nextPaneId := pId } := ⟨_, rfl⟩
    -- the two versions differ in what they send
    have hs' : s' = s₂ := by
      dsimp only at h
      rw [← hs₂] at h
      split at h
      · exact (Prod.mk.inj (Option.some.inj h)).1.symm
      · exact (Prod.mk.inj (Option.some.inj h)).1.symm
    rw [hs', hs₂]
    refine ⟨hdes, hrun, ?_, (if_neg hlt).symm⟩
    show (if 5 < pId then false else s₁.warmup) = _
    rw [hwarm]
    by_cases h5 : 5 < pId
    · simp [h5, Nat.not_lt.mp hlt]
    · simp [h5]

/-! ## All the calls -/

/-- What a progress to pane `pId` changes. -/
structure ProgressDone (env : AdaptiveEnv N) (pId : Nat) (s s' : AdaptiveSched N)
    (out : Sends N DIM) : Prop where
  des : ∀ q, s'.des q = s.des q
  size : ∀ q, s'.size q = s.size q
  nextPaneId : s'.nextPaneId = max s.nextPaneId pId
  activatedWorker : s'.activatedWorker = s.activatedWorker
  running : s'.running =
    (((List.range' s.nextPaneId (pId - s.nextPaneId)).flatMap s.partitions).map
      fun n : Nat => (n : ℚ)).foldl Running.push s.running
  warmup : s'.warmup = (s.warmup && !decide (s.nextPaneId ≤ pId ∧ 5 < pId))
  stdSize : s'.stdSize = if pId < s.nextPaneId then s.stdSize
    else if s'.totInstances = 0 then none
    else some (env.sqrt (s'.snSize / s'.totInstances))
  control : ∀ x ∈ out, x.2.type ≠ .regular

/-- What an addition of workers changes. -/
structure AdditionDone (ws : List (Fin N)) (s s' : AdaptiveSched N) : Prop where
  des : ∀ q, s'.des q = s.des q
  size : ∀ q, s'.size q = s.size q
  nextPaneId : s'.nextPaneId = s.nextPaneId
  activatedWorker : s'.activatedWorker = fun v => s.activatedWorker v || decide (v ∈ ws)
  stats : SameStats s s'

/-- The effect of a call. -/
inductive Effect (s s' : AdaptiveSched N) (out : Sends N DIM) : (strategy N DIM).Call → Prop
  | tuple (env : AdaptiveEnv N) (t : Tuple DIM) (w : Fin N) (pd : PaneDes N)
      (hto : s.SchedulesTo t.paneId w pd) (done : TupleDone t w pd s s' out) :
      Effect s s' out (.schedToWorker env t)
  | progress (env : AdaptiveEnv N) (ts : ℚ) (pId : Nat) (done : ProgressDone env pId s s' out) :
      Effect s s' out (.executeStreamProgress env ts pId)
  | add (ws : List (Fin N)) (done : AdditionDone ws s s') (hout : out = []) :
      Effect s s' out (.addWorkers ws)
  | remove (env : AdaptiveEnv N) (ws : List (Fin N)) (done : RemovalDone env ws s s' out) :
      Effect s s' out (.removeWorkers env ws)

/-- **Inversion of a call.** -/
theorem call_effect {s s' : AdaptiveSched N} (hs : (refinement N DIM).Settled s) {iop : Bool}
    {e : (strategy N DIM).Call} (he : (strategy N DIM).Allowed s e) {out : Sends N DIM}
    (h : (strategy N DIM).call iop s e = some (s', out)) : Effect s s' out e := by
  have hinv : s.Inv := hs.inv
  have hact : s.HasActive := hs.hasActive
  -- one case per method of the scheduler
  cases e with
  | schedToWorker env t =>
      obtain ⟨w, pd, hto, hdone⟩ := schedToWorker_cases hinv hact h
      exact Effect.tuple env t w pd hto hdone
  | executeStreamProgress env ts pId =>
      obtain ⟨hdes, hrunning, hwarmup, hstd⟩ := executeStreamProgress_stats hinv.length h
      obtain ⟨s₁, out₁, hrun, -, -, hpr⟩ :=
        @executeStreamProgress_refines N DIM s hinv hact env iop ts pId
      obtain ⟨rfl, rfl⟩ := Prod.mk.inj (Option.some.inj (hrun.symm.trans h))
      exact Effect.progress env ts pId ⟨hdes, hpr.size, hpr.nextPaneId, hpr.activatedWorker,
        hrunning, hwarmup, hstd, hpr.control⟩
  | addWorkers ws =>
      obtain ⟨s₁, hadd, heq⟩ := Option.map_eq_some_iff.mp h
      obtain ⟨rfl, rfl⟩ := Prod.mk.inj heq
      obtain ⟨b, hb, rfl⟩ := Option.map_eq_some_iff.mp hadd
      obtain rfl := Option.some.inj ((Sched.addWorkers_spec he.1 he.2 ws.length).symm.trans hb)
      exact Effect.add ws ⟨fun _ => rfl, fun _ => rfl, rfl, rfl, rfl, rfl, rfl, rfl, rfl⟩ rfl
  | removeWorkers env ws =>
      exact Effect.remove env ws (removeWorkers_cases he.1 he.2.1 he.2.2 h)

/-- **An allowed call** does not abort, and has its effect. -/
theorem call_step {s : AdaptiveSched N} (hs : (refinement N DIM).Settled s) (iop : Bool)
    {e : (strategy N DIM).Call} (he : (strategy N DIM).Allowed s e) :
    ∃ (s' : AdaptiveSched N) (out : Sends N DIM), (strategy N DIM).call iop s e = some (s', out) ∧
      (refinement N DIM).Settled s' ∧ Effect s s' out e := by
  obtain ⟨s', out, hcall, hsettled⟩ := hs.call iop he
  exact ⟨s', out, hcall, hsettled, call_effect hs he hcall⟩

end AdaptiveSched

end ElasticPPQ
