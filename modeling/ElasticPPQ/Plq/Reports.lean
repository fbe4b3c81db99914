import ElasticPPQ.Plq.Calls

/-! # The splitting factors that a strategy reports

A progress pushes the number of partitions of each pane that it closes onto the current snapshot
(`cm_panes_split`); no other method of a strategy touches the snapshot, nor the number of partitions of
a closed pane. -/

namespace ElasticPPQ

variable {N DIM : Nat}

namespace Sched

/-- Neither the snapshot nor the closed panes are touched. -/
structure SameReports (s s' : Sched N) : Prop where
  cmPanesSplit : s'.cmPanesSplit = s.cmPanesSplit
  nextPaneId : s'.nextPaneId = s.nextPaneId
  instances : ∀ p, p < s.nextPaneId → s'.instances p = s.instances p

/-- The panes from `s.nextPaneId` to `s'.nextPaneId` are reported with their final number of
partitions. -/
structure Reports (s s' : Sched N) : Prop where
  cmPanesSplit : s'.cmPanesSplit = s.cmPanesSplit ++
    (List.range' s.nextPaneId (s'.nextPaneId - s.nextPaneId)).map s'.instances
  nextPaneId : s.nextPaneId ≤ s'.nextPaneId
  instances : ∀ p, p < s.nextPaneId → s'.instances p = s.instances p
  positive : ∀ p, s.nextPaneId ≤ p → p < s'.nextPaneId → s'.instances p ≠ 0

variable {s s' s'' : Sched N}

/-- Nothing has been reported. -/
theorem SameReports.refl (s : Sched N) : SameReports s s := ⟨rfl, rfl, fun _ _ => rfl⟩

/-- Nothing has been reported in two steps. -/
theorem SameReports.trans (h : SameReports s s') (h' : SameReports s' s'') : SameReports s s'' where
  cmPanesSplit := h'.cmPanesSplit.trans h.cmPanesSplit
  nextPaneId := h'.nextPaneId.trans h.nextPaneId
  instances := fun p hp => (h'.instances p (h.nextPaneId ▸ hp)).trans (h.instances p hp)

/-- Nothing to report is a report. -/
theorem SameReports.reports (h : SameReports s s') : Reports s s' where
  cmPanesSplit := by
    rw [h.cmPanesSplit, h.nextPaneId, Nat.sub_self]
    exact (List.append_nil _).symm
  nextPaneId := h.nextPaneId.ge
  instances := h.instances
  positive := fun p hp hlt => absurd (h.nextPaneId ▸ hlt) (Nat.not_lt.mpr hp)

/-- Of the tables only the entry of a non-closed pane is written. -/
theorem SameReports.of_set (hsplit : s'.cmPanesSplit = s.cmPanesSplit)
    (hnext : s'.nextPaneId = s.nextPaneId) {p n : Nat} (hp : s.nextPaneId ≤ p)
    (hinst : s'.pInstances = s.pInstances.set p n) : SameReports s s' := by
  refine ⟨hsplit, hnext, fun q hq => ?_⟩
  have hne : p ≠ q := by omega
  show s'.pInstances.getD q 0 = s.pInstances.getD q 0
  rw [hinst, List.getD_eq_getElem?_getD, List.getElem?_set_ne hne, List.getD_eq_getElem?_getD]

/-- The tables are those of the state before. -/
theorem SameReports.of_eq (hsplit : s'.cmPanesSplit = s.cmPanesSplit)
    (hnext : s'.nextPaneId = s.nextPaneId) (hinst : s'.pInstances = s.pInstances) :
    SameReports s s' :=
  ⟨hsplit, hnext, fun q _ => congrArg (fun l => List.getD l q 0) hinst⟩

/-- Growing the tables. -/
theorem sameReports_growTo (s : Sched N) (pId : Nat) : SameReports s (s.growTo pId) := by
  refine ⟨?_, growTo_nextPaneId s pId, fun p _ => growTo_instances s pId p⟩
  unfold growTo
  split <;> rfl

/-- Counting a tuple reports nothing. -/
theorem sameReports_counted (s : Sched N) (pId : Nat) : SameReports s (s.counted pId) :=
  (sameReports_growTo s pId).trans (SameReports.of_eq rfl rfl rfl)

/-- Choosing a worker moves the start of the next scan only. -/
theorem getRrW_base {w : Fin N} {base : Sched N} (h : s.getRrW = some (w, base)) :
    ∃ lastW, base = { s with lastW := lastW } := by
  obtain ⟨i, -, heq⟩ := Option.map_eq_some_iff.mp h
  exact ⟨_, (Prod.mk.inj heq).2.symm⟩

/-- The search for the least loaded worker moves the turn only. -/
theorem getLlwW_base {qlen : Fin N → Nat} {w : Fin N} {base : Sched N}
    (h : s.getLlwW qlen = some (w, base)) : ∃ lastW, base = { s with lastW := lastW } := by
  obtain ⟨i, -, heq⟩ := Option.map_eq_some_iff.mp h
  exact ⟨_, (Prod.mk.inj heq).2.symm⟩

/-- De-activating workers. -/
theorem sameReports_deactivateAndFlush {num : Nat} {ws : List (Fin N)} {flush : Sends N DIM}
    (h : s.deactivateAndFlush num ws = some (s', flush)) : SameReports s s' := by
  obtain ⟨active, -, h⟩ := Option.bind_eq_some_iff.mp h
  obtain ⟨l, -, h⟩ := Option.bind_eq_some_iff.mp h
  obtain ⟨rfl, rfl⟩ := Prod.mk.inj (Option.some.inj h)
  exact SameReports.of_eq rfl rfl rfl

/-! ## Closing panes -/

/-- One pane. -/
theorem closePane_reports {i : Nat} {out : Sends N DIM} (h : s.closePane i = some (s', out)) :
    s'.cmPanesSplit = s.cmPanesSplit ++ [s'.instances i] ∧ s'.nextPaneId = s.nextPaneId ∧
      ∀ p, p ≠ i → s'.instances p = s.instances p := by
  unfold closePane at h
  dsimp only at h
  split at h
  · obtain ⟨⟨w, base⟩, hw, h⟩ := Option.bind_eq_some_iff.mp h
    obtain ⟨rfl, rfl⟩ := Prod.mk.inj (Option.some.inj h)
    obtain ⟨lastW, rfl⟩ := getRrW_base hw
    refine ⟨rfl, rfl, fun p hp => ?_⟩
    show (s.pInstances.set i 1).getD p 0 = s.pInstances.getD p 0
    rw [List.getD_eq_getElem?_getD, List.getElem?_set_ne hp.symm, ← List.getD_eq_getElem?_getD]
  · obtain ⟨rfl, rfl⟩ := Prod.mk.inj (Option.some.inj h)
    exact ⟨rfl, rfl, fun p _ => rfl⟩

/-- **The loop over the completed panes.** -/
theorem closePanes_reports {i n : Nat} {out : Sends N DIM}
    (h : s.closePanes i n = some (s', out)) :
    s'.cmPanesSplit = s.cmPanesSplit ++ (List.range' i n).map s'.instances ∧
      s'.nextPaneId = s.nextPaneId ∧ ∀ p, p < i → s'.instances p = s.instances p := by
  -- induction on the panes closed, which are reported from the lowest upwards
  induction n generalizing i s out with
  | zero =>
      obtain ⟨rfl, rfl⟩ := Prod.mk.inj (Option.some.inj h)
      exact ⟨(List.append_nil _).symm, rfl, fun p _ => rfl⟩
  | succ n ih =>
      rw [closePanes] at h
      obtain ⟨⟨s₁, lull⟩, h₁, h⟩ := Option.bind_eq_some_iff.mp h
      obtain ⟨⟨s₂, lulls⟩, h₂, h⟩ := Option.bind_eq_some_iff.mp h
      obtain ⟨rfl, rfl⟩ := Prod.mk.inj (Option.some.inj h)
      obtain ⟨hsplit₁, hnext₁, hinst₁⟩ := closePane_reports h₁
      obtain ⟨hsplit₂, hnext₂, hinst₂⟩ := ih h₂
      -- a pane reported first keeps its count while the ones above are closed
      refine ⟨?_, hnext₂.trans hnext₁, fun p hp => ?_⟩
      · rw [hsplit₂, hsplit₁, List.range'_succ, List.map_cons, hinst₂ i (Nat.lt_succ_self i),
          List.append_assoc, List.singleton_append]
      · exact (hinst₂ p (by omega)).trans (hinst₁ p (by omega))

/-- **A progress reports the panes that it closes**, each of which has a partition by then. -/
theorem executeStreamProgress_reports (hact : s.HasActive) {held : Nat → List (Fin N)}
    (hs : s.Sound held) {iop : Bool} {ts : ℚ} {pId : Nat} {out : Sends N DIM}
    (h : s.executeStreamProgress iop ts pId = some (s', out)) : Reports s s' := by
  unfold executeStreamProgress at h
  split at h
  · obtain ⟨rfl, rfl⟩ := Prod.mk.inj (Option.some.inj h)
    exact (SameReports.refl s).reports
  · rename_i hge
    obtain ⟨⟨s₁, lulls⟩, h₁, h⟩ := Option.bind_eq_some_iff.mp h
    obtain ⟨hsplit, hnext, hinst⟩ := closePanes_reports h₁
    have hgrow := sameReports_growTo s pId
    -- a pane closed without tuples was given the count 1 by its LULL
    have hpos : ∀ p, s.nextPaneId ≤ p → p < pId → s₁.instances p ≠ 0 := by
      intro p hp hlt
      have hgact : (s.growTo pId).HasActive := by
        rw [HasActive, growTo_activatedWorker]
        exact hact
      obtain ⟨s₂, l, hrun, hcl⟩ := closePanes_spec DIM hgact
        (i := (s.growTo pId).nextPaneId) (n := pId - (s.growTo pId).nextPaneId)
        (by rw [growTo_nextPaneId, length_growTo]; omega)
      obtain ⟨rfl, -⟩ := Prod.mk.inj (Option.some.inj (h₁.symm.trans hrun))
      rw [hcl.instances, growTo_size hs.sizes, growTo_instances, growTo_nextPaneId]
      by_cases hz : s.size p = 0
      · rw [if_pos ⟨hp, by omega, hz⟩]
        exact Nat.one_ne_zero
      · rw [if_neg fun hc => hz hc.2.2]
        exact hs.sized p hp hz
    -- both variants return the same state, they differ in what is sent
    have hs' : s' = { s₁ with nextPaneId := pId } := by
      dsimp only at h
      split at h
      · exact (Prod.mk.inj (Option.some.inj h)).1.symm
      · exact (Prod.mk.inj (Option.some.inj h)).1.symm
    rw [growTo_nextPaneId] at hsplit hinst
    rw [hgrow.cmPanesSplit] at hsplit
    subst hs'
    exact ⟨hsplit, Nat.not_lt.mp hge, fun p hp => (hinst p hp).trans (hgrow.instances p hp), hpos⟩

end Sched

/-- A strategy reports the panes that a progress closes, and nothing else. -/
structure Strategy.Reporting {S : Strategy N DIM} (Rf : S.Refinement) : Prop where
  schedToWorker : ∀ {s s' env t out}, Rf.Inv s → (S.base s).nextPaneId ≤ t.paneId →
    S.schedToWorker env t s = some (s', out) → Sched.SameReports (S.base s) (S.base s')
  executeStreamProgress : ∀ {s s' env iop ts pId out}, Rf.Inv s → (S.base s).HasActive →
    S.executeStreamProgress env iop ts pId s = some (s', out) →
      Sched.Reports (S.base s) (S.base s')
  removeWorkers : ∀ {s s' env num ws out},
    S.removeWorkers env num ws s = some (s', out) → Sched.SameReports (S.base s) (S.base s')

/-- **What an allowed call reports.** -/
theorem Strategy.Reporting.call {S : Strategy N DIM} {Rf : S.Refinement}
    (hr : Strategy.Reporting Rf) {s s' : S.State} (hs : Rf.Settled s) {iop : Bool} {e : S.Call}
    (he : S.Allowed s e) {out : Sends N DIM} (h : S.call iop s e = some (s', out)) :
    Sched.Reports (S.base s) (S.base s') := by
  -- only the progress closes panes, the other calls leave the reports as they are
  cases e with
  | schedToWorker env t => exact (hr.schedToWorker hs.inv he.2 h).reports
  | executeStreamProgress env ts pId => exact hr.executeStreamProgress hs.inv hs.hasActive h
  | addWorkers ws =>
      obtain ⟨s₁, hadd, heq⟩ := Option.map_eq_some_iff.mp h
      obtain ⟨rfl, rfl⟩ := Prod.mk.inj heq
      obtain ⟨s₂, hadd', -, -, hbase⟩ := Rf.addWorkers hs.inv he.1 he.2 ws.length
      obtain rfl := Option.some.inj (hadd'.symm.trans hadd)
      rw [hbase]
      refine Sched.SameReports.reports ?_
      exact Sched.SameReports.of_eq rfl rfl rfl
  | removeWorkers env ws => exact (hr.removeWorkers h).reports

/-! ## Pane-based round-robin -/

namespace PbRrSched

open Sched

/-- A tuple reports no pane. -/
theorem schedToWorker_reports {s s' : PbRrSched N} (hs : s.Inv) {t : Tuple DIM}
    (hp : s.nextPaneId ≤ t.paneId) {out : Sends N DIM} (h : s.schedToWorker t = some (s', out)) :
    SameReports s.toSched s'.toSched := by
  have hcount : SameReports s.toSched (s.counted t.paneId).toSched :=
    sameReports_counted s.toSched t.paneId
  rw [schedToWorker_eq hs.length rfl] at h
  split at h
  · obtain ⟨⟨w, base⟩, hw, h⟩ := Option.bind_eq_some_iff.mp h
    obtain ⟨rfl, rfl⟩ := Prod.mk.inj (Option.some.inj h)
    obtain ⟨lastW, rfl⟩ := getRrW_base hw
    exact hcount.trans (SameReports.of_set rfl rfl (hcount.nextPaneId ▸ hp) rfl)
  · obtain ⟨rfl, rfl⟩ := Prod.mk.inj (Option.some.inj h)
    exact hcount

/-- The loop of `removeWorkers`. -/
theorem reassign_reports {ws : List (Fin N)} {p n : Nat} {s s' : PbRrSched N}
    (hp : s.nextPaneId ≤ p) {out : Sends N DIM} (h : s.reassign ws p n = some (s', out)) :
    SameReports s.toSched s'.toSched := by
  -- induction on the panes visited, none of which is closed here
  induction n generalizing p s out with
  | zero =>
      obtain ⟨rfl, rfl⟩ := Prod.mk.inj (Option.some.inj h)
      exact SameReports.refl _
  | succ n ih =>
      rw [reassign] at h
      -- the pane's worker was removed and another one takes it over, or the pane stays
      split at h
      · obtain ⟨⟨w, base⟩, hw, h⟩ := Option.bind_eq_some_iff.mp h
        obtain ⟨⟨s₁, out₁⟩, h₁, h⟩ := Option.bind_eq_some_iff.mp h
        obtain ⟨⟨s₂, outs⟩, h₂, h⟩ := Option.bind_eq_some_iff.mp h
        obtain ⟨rfl, rfl⟩ := Prod.mk.inj (Option.some.inj h)
        obtain ⟨rfl, rfl⟩ := Prod.mk.inj (Option.some.inj h₁)
        obtain ⟨lastW, rfl⟩ := getRrW_base hw
        refine SameReports.trans ?_ (ih ?_ h₂)
        · exact SameReports.of_set rfl rfl hp rfl
        · exact hp.trans (Nat.le_succ p)
      · obtain ⟨⟨s₁, out₁⟩, h₁, h⟩ := Option.bind_eq_some_iff.mp h
        obtain ⟨⟨s₂, outs⟩, h₂, h⟩ := Option.bind_eq_some_iff.mp h
        obtain ⟨rfl, rfl⟩ := Prod.mk.inj (Option.some.inj h)
        obtain ⟨rfl, rfl⟩ := Prod.mk.inj (Option.some.inj h₁)
        exact ih (hp.trans (Nat.le_succ p)) h₂

/-- The progress is that of `Sched`. -/
theorem progress_reports {s s' : PbRrSched N} (hs : s.Inv) (hact : s.HasActive) {iop : Bool}
    {ts : ℚ} {pId : Nat} {out : Sends N DIM}
    (h : s.executeStreamProgress iop ts pId = some (s', out)) : Reports s.toSched s'.toSched := by
  unfold PbRrSched.executeStreamProgress at h
  split at h
  · obtain ⟨rfl, rfl⟩ := Prod.mk.inj (Option.some.inj h)
    exact (SameReports.refl _).reports
  · obtain ⟨⟨base, outs⟩, hbase, h⟩ := Option.bind_eq_some_iff.mp h
    obtain ⟨rfl, rfl⟩ := Prod.mk.inj (Option.some.inj h)
    by_cases hlen : s.panesWs.length ≤ pId
    · rw [if_pos hlen] at hbase
      exact executeStreamProgress_reports hact hs.sound hbase
    · rw [if_neg hlen] at hbase
      exact executeStreamProgress_reports hact hs.sound hbase

/-- Pane-based round-robin reports a pane when it closes it. -/
theorem reporting : Strategy.Reporting (refinement N DIM) where
  schedToWorker := fun hs hp h => schedToWorker_reports hs hp h
  executeStreamProgress := fun hs hact h => progress_reports hs hact h
  removeWorkers := by
    intro s s' env num ws out h
    obtain ⟨⟨base, flush⟩, hbase, h⟩ := Option.bind_eq_some_iff.mp h
    obtain ⟨⟨s₁, outs⟩, h₁, h⟩ := Option.bind_eq_some_iff.mp h
    obtain ⟨rfl, rfl⟩ := Prod.mk.inj (Option.some.inj h)
    exact (sameReports_deactivateAndFlush hbase).trans (reassign_reports le_rfl h₁)

end PbRrSched

/-! ## Tuple-based round-robin -/

namespace TbRrSched

open Sched

/-- A tuple reports no pane. -/
theorem schedToWorker_reports {s s' : TbRrSched N} (hs : s.Inv) {t : Tuple DIM}
    (hp : s.nextPaneId ≤ t.paneId) {out : Sends N DIM} (h : s.schedToWorker t = some (s', out)) :
    SameReports s.toSched s'.toSched := by
  have hcount : SameReports s.toSched (s.counted t.paneId).toSched :=
    sameReports_counted s.toSched t.paneId
  rw [schedToWorker_eq hs.length rfl] at h
  obtain ⟨⟨w, base⟩, hw, h⟩ := Option.bind_eq_some_iff.mp h
  obtain ⟨lastW, rfl⟩ := getRrW_base hw
  dsimp only at h
  -- the worker in turn may hold the pane already, in which case no count changes
  split at h
  · obtain ⟨rfl, rfl⟩ := Prod.mk.inj (Option.some.inj h)
    exact hcount.trans (SameReports.of_eq rfl rfl rfl)
  · obtain ⟨news, -, h⟩ := Option.bind_eq_some_iff.mp h
    obtain ⟨rfl, rfl⟩ := Prod.mk.inj (Option.some.inj h)
    exact hcount.trans (SameReports.of_set rfl rfl (hcount.nextPaneId ▸ hp) rfl)

/-- The loop of `removeWorkers`. -/
theorem reassign_reports {p n : Nat} {s s' : TbRrSched N} (hp : s.nextPaneId ≤ p)
    {out : Sends N DIM} (h : s.reassign p n = some (s', out)) :
    SameReports s.toSched s'.toSched := by
  -- induction on the panes visited, none of which is closed here
  induction n generalizing p s out with
  | zero =>
      obtain ⟨rfl, rfl⟩ := Prod.mk.inj (Option.some.inj h)
      exact SameReports.refl _
  | succ n ih =>
      rw [reassign] at h
      dsimp only at h
      -- all the workers of the pane were removed, or some stay
      split at h
      · obtain ⟨⟨w, base⟩, hw, h⟩ := Option.bind_eq_some_iff.mp h
        obtain ⟨⟨s₁, list, out₁⟩, h₁, h⟩ := Option.bind_eq_some_iff.mp h
        obtain ⟨⟨s₂, outs⟩, h₂, h⟩ := Option.bind_eq_some_iff.mp h
        obtain ⟨rfl, rfl⟩ := Prod.mk.inj (Option.some.inj h)
        obtain ⟨rfl, -⟩ := Prod.mk.inj (Option.some.inj h₁)
        obtain ⟨lastW, rfl⟩ := getRrW_base hw
        refine SameReports.trans ?_ (ih ?_ h₂)
        · exact SameReports.of_set rfl rfl hp rfl
        · exact hp.trans (Nat.le_succ p)
      · obtain ⟨⟨s₁, list, out₁⟩, h₁, h⟩ := Option.bind_eq_some_iff.mp h
        obtain ⟨⟨s₂, outs⟩, h₂, h⟩ := Option.bind_eq_some_iff.mp h
        obtain ⟨rfl, rfl⟩ := Prod.mk.inj (Option.some.inj h)
        obtain ⟨rfl, -⟩ := Prod.mk.inj (Option.some.inj h₁)
        refine SameReports.trans ?_ (ih ?_ h₂)
        · exact SameReports.of_eq rfl rfl rfl
        · exact hp.trans (Nat.le_succ p)

/-- The progress is that of `Sched`. -/
theorem progress_reports {s s' : TbRrSched N} (hs : s.Inv) (hact : s.HasActive) {iop : Bool}
    {ts : ℚ} {pId : Nat} {out : Sends N DIM}
    (h : s.executeStreamProgress iop ts pId = some (s', out)) : Reports s.toSched s'.toSched := by
  unfold TbRrSched.executeStreamProgress at h
  split at h
  · obtain ⟨rfl, rfl⟩ := Prod.mk.inj (Option.some.inj h)
    exact (SameReports.refl _).reports
  · obtain ⟨⟨base, outs⟩, hbase, h⟩ := Option.bind_eq_some_iff.mp h
    obtain ⟨rfl, rfl⟩ := Prod.mk.inj (Option.some.inj h)
    by_cases hlen : s.pWorkers.length ≤ pId
    · rw [if_pos hlen] at hbase
      exact executeStreamProgress_reports hact hs.sound hbase
    · rw [if_neg hlen] at hbase
      exact executeStreamProgress_reports hact hs.sound hbase

/-- Tuple-based round-robin reports a pane when it closes it. -/
theorem reporting : Strategy.Reporting (refinement N DIM) where
  schedToWorker := fun hs hp h => schedToWorker_reports hs hp h
  executeStreamProgress := fun hs hact h => progress_reports hs hact h
  removeWorkers := by
    intro s s' env num ws out h
    obtain ⟨⟨base, flush⟩, hbase, h⟩ := Option.bind_eq_some_iff.mp h
    obtain ⟨⟨s₁, outs⟩, h₁, h⟩ := Option.bind_eq_some_iff.mp h
    obtain ⟨rfl, rfl⟩ := Prod.mk.inj (Option.some.inj h)
    exact (sameReports_deactivateAndFlush hbase).trans (reassign_reports le_rfl h₁)

end TbRrSched

/-! ## Adaptive scheduling -/

namespace AdaptiveSched

open Sched

/-- A tuple reports no pane. -/
theorem schedToWorker_reports {s s' : AdaptiveSched N} (hs : s.Inv) {env : AdaptiveEnv N}
    {t : Tuple DIM} (hp : s.nextPaneId ≤ t.paneId) {out : Sends N DIM}
    (h : s.schedToWorker env t = some (s', out)) : SameReports s.toSched s'.toSched := by
  have hcount : SameReports s.toSched (s.counted t.paneId).toSched :=
    sameReports_counted s.toSched t.paneId
  -- a count written for the tuple's pane is above the panes already reported
  have hset : ∀ {s₁ : Sched N} {n : Nat}, s₁.cmPanesSplit = (s.counted t.paneId).cmPanesSplit →
      s₁.nextPaneId = (s.counted t.paneId).nextPaneId →
      s₁.pInstances = (s.counted t.paneId).pInstances.set t.paneId n → SameReports s.toSched s₁ :=
    fun h₁ h₂ h₃ => hcount.trans (SameReports.of_set h₁ h₂ (hcount.nextPaneId ▸ hp) h₃)
  rw [schedToWorker_eq hs.length env rfl] at h
  -- the first tuple of the pane opens its partition on the least loaded worker
  split at h
  · obtain ⟨⟨w, base⟩, hw, h⟩ := Option.bind_eq_some_iff.mp h
    obtain ⟨rfl, rfl⟩ := Prod.mk.inj (Option.some.inj h)
    obtain ⟨lastW, rfl⟩ := getLlwW_base hw
    exact hset rfl rfl rfl
  -- below the threshold, or in the warmup, the tuple goes to the pane's active worker
  split at h
  · obtain ⟨w, -, h⟩ := Option.bind_eq_some_iff.mp h
    obtain ⟨rfl, rfl⟩ := Prod.mk.inj (Option.some.inj h)
    exact hcount
  -- above it the least loaded worker gets it, and may hold the pane already
  · obtain ⟨⟨w, base⟩, hw, h⟩ := Option.bind_eq_some_iff.mp h
    obtain ⟨lastW, rfl⟩ := getLlwW_base hw
    dsimp only at h
    split at h
    · obtain ⟨rfl, rfl⟩ := Prod.mk.inj (Option.some.inj h)
      exact hcount.trans (SameReports.of_eq rfl rfl rfl)
    · obtain ⟨news, -, h⟩ := Option.bind_eq_some_iff.mp h
      obtain ⟨rfl, rfl⟩ := Prod.mk.inj (Option.some.inj h)
      exact hset rfl rfl rfl

/-- One pane of the loop of `removeWorkers`. -/
theorem reassignPane_reports {env : AdaptiveEnv N} {p : Nat} {s s' : AdaptiveSched N}
    (hp : s.nextPaneId ≤ p) {out : Sends N DIM} (h : reassignPane env p s = some (s', out)) :
    SameReports s.toSched s'.toSched := by
  rw [reassignPane_eq DIM env rfl rfl] at h
  -- only a pane whose active worker is no longer activated, or that lost them all, is reassigned
  split at h
  · obtain ⟨⟨w, base⟩, hw, h⟩ := Option.bind_eq_some_iff.mp h
    obtain ⟨lastW, rfl⟩ := getLlwW_base hw
    dsimp only at h
    split at h
    · obtain ⟨rfl, rfl⟩ := Prod.mk.inj (Option.some.inj h)
      exact SameReports.of_eq rfl rfl rfl
    · obtain ⟨news, -, h⟩ := Option.bind_eq_some_iff.mp h
      obtain ⟨rfl, rfl⟩ := Prod.mk.inj (Option.some.inj h)
      exact SameReports.of_set rfl rfl hp rfl
  · obtain ⟨rfl, rfl⟩ := Prod.mk.inj (Option.some.inj h)
    exact SameReports.refl _

/-- The loop of `removeWorkers`. -/
theorem reassign_reports {env : AdaptiveEnv N} {p n : Nat} {s s' : AdaptiveSched N}
    (hp : s.nextPaneId ≤ p) {out : Sends N DIM} (h : reassign env p n s = some (s', out)) :
    SameReports s.toSched s'.toSched := by
  -- induction on the panes visited, none of which is closed here
  induction n generalizing p s out with
  | zero =>
      obtain ⟨rfl, rfl⟩ := Prod.mk.inj (Option.some.inj h)
      exact SameReports.refl _
  | succ n ih =>
      rw [reassign] at h
      obtain ⟨⟨s₁, out₁⟩, h₁, h⟩ := Option.bind_eq_some_iff.mp h
      obtain ⟨⟨s₂, outs⟩, h₂, h⟩ := Option.bind_eq_some_iff.mp h
      obtain ⟨rfl, rfl⟩ := Prod.mk.inj (Option.some.inj h)
      have hone := reassignPane_reports hp h₁
      have hp₁ : s₁.nextPaneId ≤ p + 1 := by
        rw [hone.nextPaneId]
        exact hp.trans (Nat.le_succ p)
      exact hone.trans (ih hp₁ h₂)

/-- The statistics do not show in the loop that closes panes. -/
theorem closePanes_base {i n : Nat} {s s' : AdaptiveSched N} {out : Sends N DIM}
    (h : s.closePanes i n = some (s', out)) :
    s.toSched.closePanes i n = some (s'.toSched, out) := by
  -- induction on the panes: the statistics kept beside do not change what is closed
  induction n generalizing i s out with
  | zero =>
      obtain ⟨rfl, rfl⟩ := Prod.mk.inj (Option.some.inj h)
      rfl
  | succ n ih =>
      rw [AdaptiveSched.closePanes] at h
      obtain ⟨⟨base, lull⟩, h₁, h⟩ := Option.bind_eq_some_iff.mp h
      obtain ⟨⟨s₂, lulls⟩, h₂, h⟩ := Option.bind_eq_some_iff.mp h
      obtain ⟨rfl, rfl⟩ := Prod.mk.inj (Option.some.inj h)
      have hrest := ih h₂
      rw [accountSizes_toSched] at hrest
      rw [Sched.closePanes, h₁]
      simp only [Option.bind_eq_bind, Option.bind_some, hrest]

/-- The progress is that of `Sched`, with the statistics. -/
theorem progress_reports {s s' : AdaptiveSched N} (hs : s.Inv) (hact : s.HasActive)
    {env : AdaptiveEnv N} {iop : Bool} {ts : ℚ} {pId : Nat} {out : Sends N DIM}
    (h : s.executeStreamProgress env iop ts pId = some (s', out)) :
    Reports s.toSched s'.toSched := by
  unfold AdaptiveSched.executeStreamProgress at h
  split at h
  · obtain ⟨rfl, rfl⟩ := Prod.mk.inj (Option.some.inj h)
    exact (SameReports.refl _).reports
  · rename_i hge
    rw [growTo_eq hs.length] at h
    obtain ⟨⟨s₁, lulls⟩, h₁, h⟩ := Option.bind_eq_some_iff.mp h
    have hbase := closePanes_base h₁
    -- on the shared tables the adaptive progress is the one of the base class
    have hprog : s.toSched.executeStreamProgress true ts pId =
        some ({ s₁.toSched with nextPaneId := pId }, lulls) := by
      rw [Sched.executeStreamProgress, if_neg hge]
      show (Sched.closePanes (s.toSched.growTo pId).nextPaneId _ _).bind _ = _
      rw [hbase]
      rfl
    have hreports := executeStreamProgress_reports hact hs.sound hprog
    dsimp only at h
    split at h
    · obtain ⟨rfl, rfl⟩ := Prod.mk.inj (Option.some.inj h)
      exact hreports
    · obtain ⟨rfl, rfl⟩ := Prod.mk.inj (Option.some.inj h)
      exact hreports

/-- Adaptive scheduling reports a pane when it closes it. -/
theorem reporting : Strategy.Reporting (refinement N DIM) where
  schedToWorker := fun hs hp h => schedToWorker_reports hs hp h
  executeStreamProgress := fun hs hact h => progress_reports hs hact h
  removeWorkers := by
    intro s s' env num ws out h
    obtain ⟨⟨base, flush⟩, hbase, h⟩ := Option.bind_eq_some_iff.mp h
    obtain ⟨⟨s₁, outs⟩, h₁, h⟩ := Option.bind_eq_some_iff.mp h
    obtain ⟨rfl, rfl⟩ := Prod.mk.inj (Option.some.inj h)
    exact (sameReports_deactivateAndFlush hbase).trans (reassign_reports le_rfl h₁)

end AdaptiveSched

end ElasticPPQ
