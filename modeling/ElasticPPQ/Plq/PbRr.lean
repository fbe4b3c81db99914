import ElasticPPQ.Plq.Refines

/-! # Pane-based round-robin refines the ledger

Every non-closed pane has at most one holder. A pane is reassigned only if it has one, and a pane
gets its first one together with its first tuple: so no pane without tuples ever has a partition. -/

namespace ElasticPPQ

open FifoNet

variable {N DIM : Nat}

namespace PbRrSched

/-- The holder of a pane, if there is one. -/
def held (s : PbRrSched N) (p : Nat) : List (Fin N) := (s.panesWs.getD p none).toList

/-- The tables read as a ledger. -/
def ledger (s : PbRrSched N) : Ledger N := s.toSched.ledger s.held

/-- The invariant of the tables. -/
structure Inv (s : PbRrSched N) : Prop where
  sound : s.Sound s.held
  length : s.panesWs.length = s.pInstances.length
  filled : ∀ p, s.nextPaneId ≤ p → s.instances p ≠ 0 → s.size p ≠ 0

/-- Pane-based round-robin leaves no gap below a pane. -/
theorem Inv.noGap {s : PbRrSched N} (h : s.Inv) (pId : Nat) : s.NoGap pId := by
  intro p hp _ hz
  by_contra hne
  exact h.filled p hp hne hz

/-- The strategy as constructed. -/
theorem new_inv (N nw : Nat) : (new N nw).Inv where
  sound := ⟨rfl, fun _ _ => ⟨fun _ => rfl, fun _ => rfl⟩, fun _ _ h => absurd rfl h⟩
  length := rfl
  filled := fun _ _ h => absurd rfl h

/-- `sched_to_worker` after its first lines. -/
def counted (p : Nat) (s : PbRrSched N) : PbRrSched N :=
  { toSched := s.toSched.counted p, panesWs := growTable s.panesWs p none }

/-- The two tables grow together. -/
theorem growTo_eq {s : PbRrSched N} (h : s.panesWs.length = s.pInstances.length) (p : Nat) :
    s.growTo p = { toSched := s.toSched.growTo p, panesWs := growTable s.panesWs p none } := by
  unfold growTo Sched.growTo growTable
  rw [h]
  split <;> rfl

/-- The method, with the state `c` after its first lines named. -/
theorem schedToWorker_eq {s c : PbRrSched N} (h : s.panesWs.length = s.pInstances.length)
    {t : Tuple DIM} (hc : c = s.counted t.paneId) :
    s.schedToWorker t = match c.panesWs.getD t.paneId none with
      | none => do
          let (w, base) ← c.getRrW
          let c' := { c with
            toSched := { base with pInstances := base.pInstances.set t.paneId 1 }
            panesWs := c.panesWs.set t.paneId (some w) }
          some (c', [(w, { t with noInstances := c'.pInstances.getD t.paneId 0 })])
      | some w => some (c, [(w, { t with noInstances := c.pInstances.getD t.paneId 0 })]) := by
  rw [schedToWorker, growTo_eq h, hc]
  rfl

/-- The tables after the first lines of `sched_to_worker`. -/
theorem counted_spec {iop : Bool} {s : PbRrSched N} (h : s.Inv) {t : Tuple DIM}
    (ht : t.type = .regular) (hp : s.ledger.MayOpen iop t.paneId) :
    Sched.Arrives iop t s.held s.toSched (s.counted t.paneId).toSched ∧
      (∀ q, (s.counted t.paneId).held q = s.held q) ∧
      (s.counted t.paneId).panesWs.length = (s.counted t.paneId).pInstances.length := by
  have hcount : Sched.Counted t.paneId s.toSched (s.counted t.paneId).toSched :=
    Sched.counted_spec h.sound.sizes t.paneId
  refine ⟨⟨h.sound, ht, hp, hcount⟩, fun q => ?_, ?_⟩
  · exact congrArg Option.toList (getD_growTable s.panesWs t.paneId none q)
  · rw [hcount.length, ← h.length]
    exact length_growTable s.panesWs t.paneId none

/-- The pane of a tuple that has been counted is not without tuples, so the invariant is about the
other panes only. -/
theorem Inv.arrives {iop : Bool} {s c s' : PbRrSched N} (h : s.Inv) {t : Tuple DIM}
    (harr : Sched.Arrives iop t s.held s.toSched c.toSched)
    (hw : Sched.Rewritten t.paneId c.toSched s'.toSched) (hsound : s'.Sound s'.held)
    (hlen : s'.panesWs.length = s'.pInstances.length) : s'.Inv where
  sound := hsound
  length := hlen
  filled := by
    intro q hq hne
    rw [hw.nextPaneId, harr.counted.nextPaneId] at hq
    rw [Sched.size, hw.paneSize]
    have hsize := harr.counted.size q
    -- the size of the pane of the tuple grew, the other sizes are those of before
    by_cases hqp : q = t.paneId
    · rw [if_pos hqp] at hsize
      rw [Sched.size] at hsize
      rw [hsize]
      exact Nat.succ_ne_zero _
    · rw [hw.instances q hqp, harr.counted.instances] at hne
      rw [if_neg hqp, Sched.size] at hsize
      rw [hsize]
      exact h.filled q hq hne

/-- The tables when pane `p` gets the holder `w`, and `n` partitions have been counted. -/
def opened (p : Nat) (w : Fin N) (lastW n : Nat) (c : PbRrSched N) : PbRrSched N :=
  { c with
    lastW := lastW
    pInstances := c.pInstances.set p n
    panesWs := c.panesWs.set p (some w) }

/-- What opening a partition writes. -/
theorem opened_spec {p : Nat} {c : PbRrSched N} (hlt : p < c.pInstances.length)
    (hlen : c.panesWs.length = c.pInstances.length) (w : Fin N) (lastW n : Nat) :
    Sched.Rewritten p c.toSched (c.opened p w lastW n).toSched ∧
      (c.opened p w lastW n).instances p = n ∧
      (∀ q, (c.opened p w lastW n).held q = if q = p then [w] else c.held q) ∧
      (c.opened p w lastW n).panesWs.length = (c.opened p w lastW n).pInstances.length := by
  -- the table holds one worker a pane, so opening a partition overwrites the entry
  have hset : ∀ q, (c.pInstances.set p n).getD q 0 = if q = p then n else c.instances q :=
    fun q => getD_set_of_lt hlt q n 0
  refine ⟨⟨rfl, rfl, rfl, rfl, List.length_set, fun q hq => ?_⟩, ?_, fun q => ?_, ?_⟩
  · exact (hset q).trans (if_neg hq)
  · exact (hset p).trans (if_pos rfl)
  · rw [held]
    show ((c.panesWs.set p (some w)).getD q none).toList = _
    rw [getD_set_of_lt (hlen ▸ hlt)]
    by_cases hq : q = p
    · rw [if_pos hq, if_pos hq]; rfl
    · rw [if_neg hq, if_neg hq]; rfl
  · show (c.panesWs.set _ _).length = (c.pInstances.set _ _).length
    rw [List.length_set, List.length_set, hlen]

/-- **`sched_to_worker` refines the ledger.** -/
theorem schedToWorker_refines {iop : Bool} {s : PbRrSched N} (h : s.Inv) (hact : s.HasActive)
    (hheldact : ∀ p, s.nextPaneId ≤ p → ∀ w ∈ s.held p, s.activatedWorker w = true)
    {t : Tuple DIM} (ht : t.type = .regular) (hp : s.ledger.MayOpen iop t.paneId) :
    ∃ (s' : PbRrSched N) (out : Sends N DIM), s.schedToWorker t = some (s', out) ∧ s'.Inv ∧
      Sched.Scheduled iop True t s.held s'.held s.toSched s'.toSched out := by
  obtain ⟨c, hc⟩ : ∃ c, c = s.counted t.paneId := ⟨_, rfl⟩
  obtain ⟨harr, hheld, hlen⟩ := counted_spec h ht hp
  rw [← hc] at harr hheld hlen
  have hsched := schedToWorker_eq h.length (t := t) hc
  cases hholder : c.panesWs.getD t.paneId none with
  | some w =>
      -- the holder of the pane
      have hmem : w ∈ s.held t.paneId := by
        rw [← hheld, held, hholder]
        exact List.mem_singleton_self w
      have hw : Sched.Rewritten t.paneId c.toSched c.toSched :=
        ⟨rfl, rfl, rfl, rfl, rfl, fun _ _ => rfl⟩
      obtain ⟨hsound, hsch⟩ : c.Sound c.held ∧
          Sched.Scheduled iop True t s.held c.held s.toSched c.toSched _ :=
        hw.fed harr (fun q _ => hheld q) (congrArg List.toFinset (hheld _)) hmem
          (hheldact _ hp.1 w hmem) (harr.counted.instances _) (c.instances t.paneId)
      exact ⟨c, _, by rw [hsched, hholder], h.arrives harr hw hsound hlen, hsch⟩
  | none =>
      -- the first tuple of the pane chooses its holder
      have hnil : s.held t.paneId = [] := by rw [← hheld, held, hholder]; rfl
      have hzero : s.instances t.paneId = 0 := (h.sound.held_iff _ hp.1).mp hnil
      have hcact : c.HasActive := by
        rw [Sched.HasActive, harr.counted.activatedWorker]
        exact hact
      obtain ⟨w, lastW, hrr, hwa⟩ := Sched.getRrW_spec hcact
      rw [harr.counted.activatedWorker] at hwa
      obtain ⟨hw, hinst, hheld', hlen'⟩ := opened_spec harr.lt hlen w lastW 1
      have hoff : ∀ q, q ≠ t.paneId → (c.opened t.paneId w lastW 1).held q = s.held q :=
        fun q hq => by rw [hheld', if_neg hq, hheld]
      have hnew : (c.opened t.paneId w lastW 1).held t.paneId = s.held t.paneId ++ [w] := by
        rw [hheld', if_pos rfl, hnil]
        rfl
      have hmem : w ∉ s.held t.paneId := by
        rw [hnil]
        exact List.not_mem_nil
      obtain ⟨hsound, hsch⟩ : Sched.Sound _ (c.opened t.paneId w lastW 1).held ∧
          Sched.Scheduled iop True t s.held (c.opened t.paneId w lastW 1).held s.toSched _ _ :=
        hw.opened harr hoff hnew hmem hwa (hheldact _ hp.1) (by rw [hinst, hzero])
      rw [hnil, hzero] at hsch
      refine ⟨_, _, ?_, h.arrives harr hw hsound hlen', hsch⟩
      have hone : (c.pInstances.set t.paneId 1).getD t.paneId 0 = 1 := hinst
      rw [hsched, hholder]
      simp only [hrr, Option.bind_eq_bind, Option.bind_some, hone]
      rfl

variable (DIM) in
/-- One pane of the loop of `removeWorkers`. -/
theorem reassign_succ (iop : Bool) {ws : List (Fin N)} {p : Nat} {s : PbRrSched N} (h : s.Inv)
    (hact : s.HasActive) (hp : s.ledger.MayOpen iop p) (hlt : p < s.pInstances.length)
    (hws : ∀ w ∈ s.held p, w ∈ ws ↔ s.activatedWorker w = false) (n : Nat) :
    ∃ (s' : PbRrSched N) (out : Sends N DIM), s'.Inv ∧
      reassign ws p (n + 1) s = (reassign ws (p + 1) n s').map (fun x => (x.1, out ++ x.2)) ∧
      Sched.PaneReassigned iop p s.held s'.held s.toSched s'.toSched out ∧
      ∀ q, q ≠ p → s'.held q = s.held q := by
  by_cases hany : ws.any (fun w => s.panesWs.getD p none = some w) = true
  · -- the holder of the pane is gone: the pane is reassigned
    obtain ⟨w₀, hw₀, hholder⟩ := List.any_eq_true.mp hany
    rw [decide_eq_true_eq] at hholder
    have hheldp : s.held p = [w₀] := by rw [held, hholder]; rfl
    have hgone : s.activatedWorker w₀ = false :=
      (hws w₀ (by rw [hheldp]; exact List.mem_singleton_self _)).mp hw₀
    have hnone : (s.held p).filter s.activatedWorker = [] := by
      rw [hheldp, List.filter_cons_of_neg (by simp [hgone])]
      rfl
    obtain ⟨w, lastW, hrr, hwa⟩ := Sched.getRrW_spec
      (s := { s.toSched with pInstances := s.pInstances.set p (s.instances p + 1) }) hact
    obtain ⟨hw, hinst, hheld, hlen⟩ := opened_spec hlt h.length w lastW (s.instances p + 1)
    have hoff : ∀ q, q ≠ p → (s.opened p w lastW (s.instances p + 1)).held q = s.held q :=
      fun q hq => by rw [hheld, if_neg hq]
    have hnew : (s.opened p w lastW (s.instances p + 1)).held p
        = (s.held p).filter s.activatedWorker ++ [w] := by
      rw [hheld, if_pos rfl, hnone]
      rfl
    have hmem : w ∉ (s.held p).filter s.activatedWorker := by
      rw [hnone]
      exact List.not_mem_nil
    have hd := hw.split DIM h.sound hp hoff hnew hmem hwa hinst
    rw [hnone] at hd
    refine ⟨_, _, ⟨hd.sound, hlen, fun q hq hne => ?_⟩, ?_, hd, hoff⟩
    · -- a pane that has had a partition has had tuples
      rw [hw.nextPaneId] at hq
      rw [Sched.size, hw.paneSize]
      refine h.filled q hq ?_
      by_cases hqp : q = p
      · rw [hqp]
        intro hz
        have hnil := (h.sound.held_iff p hp.1).mpr hz
        rw [hheldp] at hnil
        exact List.cons_ne_nil _ _ hnil
      · rwa [hw.instances q hqp] at hne
    · rw [reassign, if_pos hany]
      have hone : (s.pInstances.set p (s.pInstances.getD p 0 + 1)).getD p 0 = s.instances p + 1 :=
        hinst
      rw [Sched.instances] at hrr
      simp only [hrr, Option.bind_eq_bind, Option.bind_some, hone]
      exact Option.map_eq_bind.symm
  · -- the pane stays where it is
    have hstay : ∀ w ∈ s.held p, s.activatedWorker w = true := by
      intro w hw
      have hholder : s.panesWs.getD p none = some w := by
        simpa [held] using hw
      by_contra hne
      have hgone := (hws w hw).mpr (by simpa using hne)
      exact hany (List.any_eq_true.mpr ⟨w, hgone, decide_eq_true hholder⟩)
    refine ⟨s, [], h, ?_, Sched.PaneReassigned.refl h.sound hstay, fun _ _ => rfl⟩
    rw [reassign, if_neg hany]
    simp only [Option.bind_eq_bind, Option.bind_some]
    exact Option.map_eq_bind.symm

variable (DIM) in
/-- **The loop of `removeWorkers` refines the ledger**, pane by pane. -/
theorem reassign_refines (iop : Bool) {ws : List (Fin N)} {p n : Nat} {s : PbRrSched N}
    (h : s.Inv) (hact : s.HasActive) (hp : s.nextPaneId ≤ p) (hn : p + n = max p s.panesWs.length)
    (hws : ∀ q, p ≤ q → ∀ w ∈ s.held q, w ∈ ws ↔ s.activatedWorker w = false)
    (hsingle : s.Single iop) :
    ∃ (s' : PbRrSched N) (out : Sends N DIM), reassign ws p n s = some (s', out) ∧ s'.Inv ∧
      Sched.Reassigned iop p s.held s'.held s.toSched s'.toSched out := by
  -- induction on the panes still to visit, from the next one to close upwards
  induction n generalizing p s with
  | zero =>
      refine ⟨s, [], rfl, h, Sched.Reassigned.refl fun q hq => ?_⟩
      rw [held, List.getD_eq_default _ _ (by omega)]
      rfl
  | succ n ih =>
      have hlt : p < s.pInstances.length := by rw [← h.length]; omega
      obtain ⟨s₁, out, hinv, hstep, hd, hoff⟩ :=
        reassign_succ DIM iop h hact (hsingle.mayOpen hp hlt) hlt (hws p le_rfl) n
      have hlen : s₁.panesWs.length = s.panesWs.length := by
        rw [hinv.length, hd.length, h.length]
      -- the panes above have not been touched, so they hold the same workers
      have hws₁ : ∀ q, p + 1 ≤ q → ∀ w ∈ s₁.held q, w ∈ ws ↔ s₁.activatedWorker w = false := by
        intro q hq w hw
        rw [hoff q (by omega)] at hw
        rw [hd.activatedWorker]
        exact hws q (by omega) w hw
      obtain ⟨s', outs, hrun, hinv', hre⟩ := ih hinv
        (by rw [Sched.HasActive, hd.activatedWorker]; exact hact) (p := p + 1)
        (by rw [hd.nextPaneId]; omega) (by omega) hws₁
        (by intro hi; rw [hd.nextPaneId, hd.length]; exact hsingle hi)
      exact ⟨s', out ++ outs, by rw [hstep, hrun]; rfl, hinv', hd.cons hre⟩

/-- **`removeWorkers` refines the ledger.** -/
theorem removeWorkers_refines {iop : Bool} {ws : List (Fin N)} {s : PbRrSched N} (h : s.Inv)
    (hws : ws.Nodup) (hactive : ∀ w ∈ ws, s.activatedWorker w = true)
    (hleft : ∃ w, w ∉ ws ∧ s.activatedWorker w = true)
    (hheld : ∀ p, s.nextPaneId ≤ p → ∀ w ∈ s.held p, s.activatedWorker w = true)
    (hsingle : s.Single iop) (num : Nat) :
    ∃ (s' : PbRrSched N) (out : Sends N DIM), s.removeWorkers num ws = some (s', out) ∧ s'.Inv ∧
      Sched.Removed iop num ws s.held s'.held s.toSched s'.toSched out := by
  -- the state after the de-activation and the FLUSH, before any pane is reassigned
  obtain ⟨s₁, hs₁⟩ : ∃ s₁ : PbRrSched N,
    s₁ = { s with toSched := s.toSched.deactivated num ws } := ⟨_, rfl⟩
  have hbase : s₁.toSched = s.toSched.deactivated num ws := by rw [hs₁]
  have hpanes : s₁.panesWs = s.panesWs := by rw [hs₁]
  have hheld₁ : s₁.held = s.held := by funext p; rw [held, held, hpanes]
  have hinv₁ : s₁.Inv := by
    refine ⟨?_, ?_, ?_⟩
    · rw [hheld₁, hbase]
      exact h.sound.deactivated num ws
    · rw [hpanes, hbase]
      exact h.length
    · rw [hbase]
      exact h.filled
  have hact₁ : s₁.HasActive := by
    obtain ⟨w, hw, ha⟩ := hleft
    refine ⟨w, ?_⟩
    rw [hbase]
    simp [Sched.deactivated, hw, ha]
  -- every holder was activated before, so those to move are exactly the removed ones
  have hgone : ∀ q, s₁.nextPaneId ≤ q → ∀ w ∈ s₁.held q,
      w ∈ ws ↔ s₁.activatedWorker w = false := by
    intro q hq w hw
    rw [hbase] at hq ⊢
    rw [hheld₁] at hw
    simp [Sched.deactivated, hheld q hq w hw]
  obtain ⟨s', out, hrun, hinv', hre⟩ := reassign_refines DIM iop hinv₁ hact₁ le_rfl
    (n := s₁.panesWs.length - s₁.nextPaneId) (by omega) hgone (by rw [hbase]; exact hsingle)
  refine ⟨s', (ws.map fun w => (w, Tuple.createFlush ws.length s.nextPaneId)) ++ out, ?_, hinv', ?_⟩
  rotate_left
  · rw [hheld₁, hbase] at hre
    exact hre.removed hws hheld
  · rw [removeWorkers, Sched.deactivateAndFlush_spec hws hactive]
    rw [hbase, hpanes] at hrun
    simp only [Option.bind_eq_bind, Option.bind_some]
    rw [← hs₁, hrun]
    rfl

/-- **`executeStreamProgress` refines the ledger.** -/
theorem executeStreamProgress_refines {s : PbRrSched N} (h : s.Inv) (hact : s.HasActive)
    (iop : Bool) (ts : ℚ) (pId : Nat) :
    ∃ (s' : PbRrSched N) (out : Sends N DIM),
      s.executeStreamProgress iop ts pId = some (s', out) ∧ s'.Inv ∧ s'.held = s.held ∧
      Sched.Progressed iop s.held pId s.toSched s'.toSched out := by
  obtain ⟨base, out, hrun, hpr⟩ :=
    Sched.executeStreamProgress_refines hact h.sound iop ts pId
  -- a progress to a pane below the next one does nothing
  by_cases hlt : pId < s.nextPaneId
  · refine ⟨s, [], by rw [executeStreamProgress, if_pos hlt], h, rfl, ?_⟩
    exact Sched.Progressed.refl h.sound hlt
  · obtain ⟨s', hs'⟩ : ∃ s' : PbRrSched N,
      s' = { toSched := base, panesWs := growTable s.panesWs pId none } := ⟨_, rfl⟩
    have hbase : s'.toSched = base := by rw [hs']
    -- the table only grows by panes nobody holds
    have hheld : s'.held = s.held := by
      funext q
      rw [hs']
      exact congrArg Option.toList (getD_growTable s.panesWs pId none q)
    have hlength : s'.panesWs.length = max s.panesWs.length (pId + 1) := by
      rw [hs']
      exact length_growTable s.panesWs pId none
    refine ⟨s', out, ?_, ⟨?_, ?_, ?_⟩, hheld, hbase ▸ hpr⟩
    · rw [executeStreamProgress, if_neg hlt, hs', growTable]
      by_cases hlen : s.panesWs.length ≤ pId
      · simp only [if_pos hlen, hrun, Option.bind_eq_bind, Option.bind_some]
      · simp only [if_neg hlen, hrun, Option.bind_eq_bind, Option.bind_some]
    · rw [hheld, hbase]
      exact hpr.sound
    · rw [hbase, hpr.length, if_neg hlt, hlength, h.length]
    · intro q hq hne
      rw [hbase] at hq hne ⊢
      rw [hpr.size]
      rw [hpr.instances q hq] at hne
      rw [hpr.nextPaneId] at hq
      exact h.filled q (by omega) hne

end PbRrSched

end ElasticPPQ
