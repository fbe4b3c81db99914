import ElasticPPQ.Plq.System

/-! # The count protocol of the pane-level query stage

The settled view of the workers follows the ledger of the strategy (`PlqState.Good`) through every
event, so at the end of a run the partitions of a pane have been counted right. In the in-order
pipeline this holds of every strategy; in the out-of-order pipeline a strategy has to meet two
conditions on the way (`PlqState.StepOk`). -/

namespace ElasticPPQ

open FifoNet

variable {N DIM : Nat} {R : Type}

/-- The cells of a family of workers. -/
def viewCells (v : Fin N → PlqWorker R × List (Rset R)) : Cells N :=
  fun p w => PlqWorker.cell p (v w)

/-- A settled pane of which nothing is open any more satisfies the protocol. -/
theorem Settled.countProtocol {v : Fin N → PlqWorker R × List (Rset R)} {p n : Nat}
    (h : Settled (viewCells v p) n) (hd : ∀ w, (viewCells v p w).1 = []) :
    CountProtocol (fun w => (v w).2) p n where
  pos := h.pos
  total := by
    rw [← h.total]
    refine Finset.sum_congr rfl fun w _ => ?_
    -- a worker without sets of the pane in its deque: its cell lists what it has emitted
    rw [hd w]
    simp [viewCells, PlqWorker.cell]
  values := by
    intro w r hr hid
    refine h.values w r.noInstances (List.mem_append_right _ ?_)
    exact List.mem_map.mpr ⟨r, List.mem_filter.mpr ⟨hr, by simpa using hid⟩, rfl⟩
  final := by
    obtain ⟨w, hw⟩ := h.final
    rw [hd w, List.nil_append] at hw
    obtain ⟨r, hr, hn⟩ := List.mem_map.mp hw
    obtain ⟨hmem, hid⟩ := List.mem_filter.mp hr
    exact ⟨w, r, hmem, by simpa using hid, hn⟩

variable [PrefQuery (Row ℚ DIM) R]

/-- The settled view after a list of sends that the cells can take. -/
theorem view_send {iop : Bool} {wp sp : Nat} {net : Net (Fin N) (PlqWorker R) (Tuple DIM) (Rset R)}
    {v : Fin N → PlqWorker R × List (Rset R)} (hs : Settles (PlqWorker.svcOf iop wp sp) net v)
    (hshape : ∀ w, PlqWorker.Shape iop (v w).1) {out : Sends N DIM}
    (hok : SendsOk iop (viewCells v) out) :
    ∃ v', Settles (PlqWorker.svcOf iop wp sp) (net.sendAll out) v' ∧
      (∀ w, PlqWorker.Shape iop (v' w).1) ∧ viewCells v' = (viewCells v).send iop out := by
  have hfeed := fun w => PlqWorker.feedAll_cell iop wp sp (hshape w) (hok w)
  choose v' hv' hshape' hcell using hfeed
  refine ⟨v', hs.sendAll hv', hshape', ?_⟩
  funext p w
  exact hcell w p

namespace PlqState

variable {S : Strategy N DIM}

/-- The ledger of the strategy. -/
def ledger (Rf : S.Refinement) (σ : PlqState S R) : Ledger N :=
  (S.base σ.sched).ledger (Rf.held σ.sched)

/-- In the in-order pipeline the tables end with the current pane, which has tuples, and the current
pane is the one of the last tuple. -/
structure Current (paneLength : Nat) (s : Sched N) (scheduled : List (Tuple DIM)) : Prop where
  size : ∀ p, s.nextPaneId ≤ p → p < s.pInstances.length → p = s.nextPaneId ∧ s.size p ≠ 0
  paneId : ∀ t ∈ scheduled, t.paneId = Tuple.paneOf paneLength t.appTs
  le : ∀ t ∈ scheduled, t.paneId ≤ s.nextPaneId
  last : (scheduled = [] ∧ s.nextPaneId = 0) ∨ ∃ t ∈ scheduled, t.paneId = s.nextPaneId

/-- What the cells of the settled view have to do with the ledger, during the stream and after its
end. -/
def Follows (c : PlqParams) (Rf : S.Refinement) (σ : PlqState S R) (cells : Cells N) : Prop :=
  if σ.ended then
    (∀ p w, (cells p w).1 = []) ∧
      ∀ p, p < σ.nextPaneId ∨ ((σ.ledger Rf).holders p).Nonempty → Settled (cells p) (σ.pInstances p)
  else Ledger.Tracks c.iop (σ.ledger Rf) cells

/-- **The invariant of the stage.** -/
structure Good (c : PlqParams) (Rf : S.Refinement) (σ : PlqState S R) : Prop where
  inv : Rf.Inv σ.sched
  hasActive : (S.base σ.sched).HasActive
  fed : ∀ t ∈ σ.scheduled, (S.base σ.sched).size t.paneId ≠ 0
  current : c.iop = true → Current c.paneLength (S.base σ.sched) σ.scheduled
  view : ∃ v, Settles (PlqWorker.svcOf c.iop c.wp c.sp) σ.net v ∧
    (∀ w, PlqWorker.Shape c.iop (v w).1) ∧ Follows c Rf σ (viewCells v)

/-- What the out-of-order pipeline asks of a strategy on the way: a first tuple of a pane finds it as
the strategy needs it, and no pane that is closed without tuples has a partition. -/
def StepOk (Rf : S.Refinement) (σ : PlqState S R) : PlqEvent S → Prop
  | .tuple env t => Rf.FirstOk env t.paneId σ.sched
  | .progress _ _ pId => (S.base σ.sched).NoGap pId
  | _ => True

/-- From `σ` to `σ'` the numbers of partitions of the closed panes are final. -/
structure Final (σ σ' : PlqState S R) : Prop where
  le : σ.nextPaneId ≤ σ'.nextPaneId
  pInstances : ∀ p, p < σ.nextPaneId → σ'.pInstances p = σ.pInstances p

omit [PrefQuery (Row ℚ DIM) R] in
/-- Nothing has changed. -/
theorem Final.refl (σ : PlqState S R) : Final σ σ := ⟨le_rfl, fun _ _ => rfl⟩

omit [PrefQuery (Row ℚ DIM) R] in
/-- What stays in two steps stays. -/
theorem Final.trans {σ σ' σ'' : PlqState S R} (h : Final σ σ') (h' : Final σ' σ'') :
    Final σ σ'' where
  le := h.le.trans h'.le
  pInstances := fun p hp => (h'.pInstances p (hp.trans_le h.le)).trans (h.pInstances p hp)

variable {c : PlqParams} {Rf : S.Refinement} {σ σ' : PlqState S R}

/-- The invariant holds initially. -/
theorem init_good (c : PlqParams) (Rf : S.Refinement) {nw : Nat} (hpos : 0 < nw) (hle : nw ≤ N) :
    (init S R nw).Good c Rf := by
  have hbase : S.base (init S R nw).sched = Sched.new N nw := Rf.base_new nw
  -- no pane has a worker at the start
  have hnil : ∀ p, Rf.held (S.new nw) p = [] := by
    intro p
    have hsound := Rf.sound (Rf.inv_new nw)
    rw [Rf.base_new nw] at hsound
    exact (hsound.held_iff p (Nat.zero_le p)).mpr rfl
  have hempty : ∀ p, ((init S R nw).ledger Rf).holders p = ∅ := by
    intro p
    show (Rf.held (S.new nw) p).toFinset = ∅
    rw [hnil p]
    rfl
  refine ⟨Rf.inv_new nw, ?_, fun _ ht => absurd ht List.not_mem_nil, fun _ => ?_,
    fun _ => (PlqWorker.new R, []), fun _ => rfl, fun _ => ⟨List.Pairwise.nil, fun _ =>
      Nat.zero_le _⟩, ?_⟩
  · rw [hbase]
    exact ⟨⟨0, by omega⟩, decide_eq_true hpos⟩
  · rw [hbase]
    exact ⟨fun p _ hp => absurd hp (Nat.not_lt_zero p), fun _ ht => absurd ht List.not_mem_nil,
      fun _ ht => absurd ht List.not_mem_nil, Or.inl ⟨rfl, rfl⟩⟩
  -- the tables are empty: every count is 0 and no pane is closed
  · have hcount : ∀ p, ((init S R nw).ledger Rf).count p = 0 := by
      intro p
      show (S.base (S.new nw)).instances p = 0
      rw [Rf.base_new nw]
      rfl
    have hnext : ((init S R nw).ledger Rf).next = 0 := by
      show (S.base (S.new nw)).nextPaneId = 0
      rw [Rf.base_new nw]
      rfl
    refine (if_neg Bool.false_ne_true).mpr ⟨?_, ?_, ?_, ?_, ?_⟩
    · intro p _ w hw
      rw [hempty p] at hw
      exact absurd hw (Finset.notMem_empty w)
    · intro p _
      rw [hempty p, hcount p]
      refine ⟨fun w => rfl, fun w k hk => absurd hk List.not_mem_nil, ?_⟩
      exact Finset.sum_eq_zero fun w _ => rfl
    · intro p hp
      rw [hnext] at hp
      exact absurd hp (Nat.not_lt_zero p)
    · intro _ p hp
      rw [hnext] at hp
      exact absurd hp (Nat.not_lt_zero p)
    · exact fun _ p _ => hcount p

/-- A delivery does not change what the emitter knows, nor the settled view. -/
theorem Good.worker (h : σ.Good c Rf) {w : Fin N} (hw : σ.net.queue w ≠ []) :
    ∃ σ', σ.exec c (.worker w) = some σ' ∧ σ'.Good c Rf ∧ Final σ σ' := by
  obtain ⟨v, hs, hshape, hf⟩ := h.view
  cases hq : σ.net.queue w with
  | nil => exact absurd hq hw
  | cons m ms =>
      obtain ⟨y, hy⟩ := hs.no_abort hq
      refine ⟨{ σ with net := ⟨Function.update σ.net.node w y, Function.update σ.net.queue w ms⟩ },
        ?_, ⟨h.inv, h.hasActive, h.fed, h.current, v, hs.deliver (Deliver.mk w m ms y hq hy), hshape,
        hf⟩, le_rfl, fun _ _ => rfl⟩
      simp only [exec, hq, hy, Option.map_some]

/-- A method that refines ledger moves keeps the invariant. -/
theorem Good.sent (h : σ.Good c Rf) (hend : σ.ended = false) {s' : S.State} {out : Sends N DIM}
    (scheduled : List (Tuple DIM)) (hinv : Rf.Inv s') (hact : (S.base s').HasActive)
    (hmoves : Ledger.Moves c.iop (σ.ledger Rf) out ((S.base s').ledger (Rf.held s')))
    (hfed : ∀ t ∈ scheduled, (S.base s').size t.paneId ≠ 0)
    (hcur : c.iop = true → Current c.paneLength (S.base s') scheduled) :
    ({ σ.sent (s', out) with scheduled := scheduled } : PlqState S R).Good c Rf ∧
      Final σ { σ.sent (s', out) with scheduled := scheduled } := by
  obtain ⟨v, hs, hshape, hf⟩ := h.view
  -- before END the workers' cells follow the ledger, and the sends move both alike
  rw [Follows, hend, if_neg Bool.false_ne_true] at hf
  obtain ⟨hok, htr⟩ := hf.moves hmoves
  obtain ⟨v', hs', hshape', hcells⟩ := view_send hs hshape hok
  obtain ⟨hle, hcount⟩ := hmoves.count_of_lt
  refine ⟨⟨hinv, hact, hfed, hcur, v', hs', hshape', ?_⟩, hle, hcount⟩
  have hend' : ({ σ.sent (s', out) with scheduled := scheduled } : PlqState S R).ended = false := hend
  rw [Follows, hend', if_neg Bool.false_ne_true, hcells]
  exact htr

/-- During the stream the holders of the non-closed panes are activated. -/
theorem Good.heldActive (h : σ.Good c Rf) (hend : σ.ended = false) (p : Nat)
    (hp : (S.base σ.sched).nextPaneId ≤ p) (w : Fin N) (hw : w ∈ Rf.held σ.sched p) :
    (S.base σ.sched).activatedWorker w = true := by
  obtain ⟨v, -, -, hf⟩ := h.view
  rw [Follows, hend, if_neg Bool.false_ne_true] at hf
  exact hf.active p hp w (List.mem_toFinset.mpr hw)

/-- In the in-order pipeline no pane of the tables is without tuples. -/
theorem Good.filled (h : σ.Good c Rf) (hi : c.iop = true) (p : Nat)
    (hp : (S.base σ.sched).nextPaneId ≤ p) (hz : (S.base σ.sched).size p = 0) :
    (S.base σ.sched).instances p = 0 := by
  by_cases hlen : p < (S.base σ.sched).pInstances.length
  · exact absurd hz ((h.current hi).size p hp hlen).2
  · exact List.getD_eq_default _ _ (Nat.not_lt.mp hlen)

/-- In order one partition of a pane is open at a worker. -/
theorem Good.single (h : σ.Good c Rf) : (S.base σ.sched).Single c.iop := by
  intro hi
  by_contra hlen
  have := ((h.current hi).size ((S.base σ.sched).nextPaneId + 1) (by omega) (by omega)).1
  omega

/-! ## The events -/

/-- What the emitter asks of a state in order to process an event. -/
structure Ready (c : PlqParams) (Rf : S.Refinement) (σ : PlqState S R) : Prop where
  inv : Rf.Inv σ.sched
  hasActive : (S.base σ.sched).HasActive
  heldActive : σ.ended = false → ∀ p, σ.nextPaneId ≤ p → ∀ w ∈ Rf.held σ.sched p,
    σ.activated w = true
  single : (S.base σ.sched).Single c.iop

/-- The emitter finds what it needs. -/
theorem Good.ready (h : σ.Good c Rf) : σ.Ready c Rf where
  inv := h.inv
  hasActive := h.hasActive
  heldActive := h.heldActive
  single := h.single

omit [PrefQuery (Row ℚ DIM) R] in
/-- The method that the out-of-order pipeline calls for a tuple, whose pane is not closed. -/
theorem Ready.scheduleOop (h : σ.Ready c Rf) (hi : c.iop = false) (hend : σ.ended = false) (env : S.Env)
    {t : Tuple DIM} (ht : t.type = .regular) (hnext : σ.nextPaneId ≤ t.paneId) :
    ∃ s' out, schedule c env t σ.sched = some (s', out) ∧ Rf.Inv s' ∧
      Sched.Scheduled c.iop (Rf.FirstOk env t.paneId σ.sched) t (Rf.held σ.sched) (Rf.held s')
        (S.base σ.sched) (S.base s') out := by
  have hopen : ((S.base σ.sched).ledger (Rf.held σ.sched)).MayOpen c.iop t.paneId :=
    ⟨hnext, fun hi' => absurd (hi.symm.trans hi') Bool.false_ne_true⟩
  obtain ⟨s', out, hrun, hinv, hsch⟩ :=
    Rf.schedToWorker h.inv h.hasActive (h.heldActive hend) ht hopen env
  refine ⟨s', out, ?_, hinv, hsch⟩
  rw [schedule, hi, if_neg Bool.false_ne_true, hrun]

omit [PrefQuery (Row ℚ DIM) R] in
/-- The two methods that the in-order pipeline calls for a tuple, whose pane is not before the current
one. -/
theorem Ready.scheduleIop (h : σ.Ready c Rf) (hi : c.iop = true) (hend : σ.ended = false) (env : S.Env)
    {t : Tuple DIM} (ht : t.type = .regular) (hnext : σ.nextPaneId ≤ t.paneId) :
    ∃ s₁ lulls s' out, schedule c env t σ.sched = some (s', lulls ++ out) ∧
      S.schedToWorker env t s₁ = some (s', out) ∧
      Rf.Inv s₁ ∧ Rf.Inv s' ∧ Rf.held s₁ = Rf.held σ.sched ∧
      (S.base s₁).nextPaneId = t.paneId ∧
      Sched.Progressed true (Rf.held σ.sched) t.paneId (S.base σ.sched) (S.base s₁) lulls ∧
      Sched.Scheduled c.iop (Rf.FirstOk env t.paneId s₁) t (Rf.held s₁) (Rf.held s') (S.base s₁)
        (S.base s') out := by
  -- the panes below the tuple's are closed first, then the tuple itself is scheduled
  obtain ⟨s₁, lulls, hrun₁, hinv₁, hheld₁, hpr⟩ :=
    Rf.executeStreamProgress h.inv h.hasActive env true t.appTs t.paneId
  have hnext₁ : (S.base s₁).nextPaneId = t.paneId := by
    rw [hpr.nextPaneId]
    exact max_eq_right hnext
  have hact₁ : (S.base s₁).HasActive := by
    rw [Sched.HasActive, hpr.activatedWorker]
    exact h.hasActive
  have hopen : ((S.base s₁).ledger (Rf.held s₁)).MayOpen c.iop t.paneId :=
    ⟨hnext₁.le, fun _ => hnext₁.symm⟩
  -- the holders are activated: closing panes changed neither the table nor the flags
  have hheldact : ∀ p, (S.base s₁).nextPaneId ≤ p → ∀ w ∈ Rf.held s₁ p,
      (S.base s₁).activatedWorker w = true := by
    intro p hpn w hw
    rw [hheld₁] at hw
    rw [hpr.activatedWorker]
    exact h.heldActive hend p (hnext.trans (hnext₁ ▸ hpn)) w hw
  obtain ⟨s', out, hrun, hinv, hsch⟩ :=
    Rf.schedToWorker hinv₁ hact₁ hheldact ht hopen env
  refine ⟨s₁, lulls, s', out, ?_, hrun, hinv₁, hinv, hheld₁, hnext₁, hpr, hsch⟩
  rw [schedule, if_pos hi, hrun₁]
  simp only [Option.bind_eq_bind, Option.bind_some, hrun]

/-- Every tuple scheduled so far counts, the new one included. -/
theorem fed_concat {s s' : Sched N} {scheduled : List (Tuple DIM)} {t : Tuple DIM}
    (h : ∀ u ∈ scheduled, s.size u.paneId ≠ 0)
    (hsize : ∀ q, s'.size q = if q = t.paneId then s.size t.paneId + 1 else s.size q) :
    ∀ u ∈ scheduled ++ [t], s'.size u.paneId ≠ 0 := by
  intro u hu
  rw [hsize]
  by_cases hut : u.paneId = t.paneId
  · rw [if_pos hut]
    exact Nat.succ_ne_zero _
  · rw [if_neg hut]
    rcases List.mem_append.mp hu with hu | hu
    · exact h u hu
    · rw [List.mem_singleton.mp hu] at hut
      exact absurd rfl hut

/-- A tuple in the out-of-order pipeline. -/
theorem Good.tuple (h : σ.Good c Rf) (hi : c.iop = false) {env : S.Env} {t : Tuple DIM}
    (he : σ.Enabled c (.tuple env t)) (hok : σ.StepOk Rf (.tuple env t)) :
    ∃ σ', σ.exec c (.tuple env t) = some σ' ∧ σ'.Good c Rf ∧ Final σ σ' := by
  obtain ⟨hend, ht, hp⟩ := he
  rw [hi, if_neg Bool.false_ne_true] at hp
  obtain ⟨s', out, hsched, hinv, hsch⟩ := h.ready.scheduleOop hi hend env ht hp
  have hact : (S.base s').HasActive := by
    rw [Sched.HasActive, hsch.activatedWorker]
    exact h.hasActive
  refine ⟨_, ?_, h.sent hend (σ.scheduled ++ [t]) hinv hact (hsch.moves hok)
    (fed_concat h.fed hsch.size) fun hi' => absurd (hi.symm.trans hi') Bool.false_ne_true⟩
  rw [exec, hsched]
  rfl

/-- A tuple in the in-order pipeline: its pane is not before the current one. -/
theorem Good.nextPaneId_le (h : σ.Good c Rf) (hi : c.iop = true) {t : Tuple DIM}
    (hpane : t.paneId = Tuple.paneOf c.paneLength t.appTs)
    (hle : ∀ u ∈ σ.scheduled, u.appTs ≤ t.appTs) : (S.base σ.sched).nextPaneId ≤ t.paneId := by
  have hcur := h.current hi
  rcases hcur.last with ⟨-, hzero⟩ | ⟨u, hu, hup⟩
  · rw [hzero]
    exact Nat.zero_le _
  · rw [← hup, hcur.paneId u hu, hpane]
    exact Tuple.paneOf_mono _ (hle u hu)

/-- What the in-order pipeline does for a tuple: it moves the ledger, and the pane of the tuple is the
current one. -/
theorem Good.scheduleMoves (h : σ.Good c Rf) (hi : c.iop = true) {env : S.Env} {t : Tuple DIM}
    (he : σ.Enabled c (.tuple env t)) :
    ∃ s' out, schedule c env t σ.sched = some (s', out) ∧ Rf.Inv s' ∧ (S.base s').HasActive ∧
      Ledger.Moves c.iop (σ.ledger Rf) out ((S.base s').ledger (Rf.held s')) ∧
      (∀ u ∈ σ.scheduled ++ [t], (S.base s').size u.paneId ≠ 0) ∧
      Current c.paneLength (S.base s') (σ.scheduled ++ [t]) := by
  obtain ⟨hend, ht, hp⟩ := he
  rw [hi, if_pos rfl] at hp
  have hnext := h.nextPaneId_le hi hp.1 hp.2
  have hgap : (S.base σ.sched).NoGap t.paneId := fun p hp _ => h.filled hi p hp
  obtain ⟨s₁, lulls, s', out, hsched, -, hinv₁, hinv, hheld₁, hnext₁, hpr, hsch⟩ :=
    h.ready.scheduleIop hi hend env ht hnext
  -- the first tuple of the pane comes when the pane is the next one to complete
  have hfirst : Rf.FirstOk env t.paneId s₁ := by
    refine Rf.firstOk hinv₁ hnext₁.le (fun hz => ?_) env
    rw [hpr.instances _ hnext₁.le]
    exact h.filled hi _ hnext (hpr.size _ ▸ hz)
  have hfed : ∀ u ∈ σ.scheduled, (S.base s₁).size u.paneId ≠ 0 := by
    intro u hu
    rw [hpr.size]
    exact h.fed u hu
  have hcur := h.current hi
  have hsingle := h.single hi
  refine ⟨s', lulls ++ out, hsched, hinv, ?_, ?_, fed_concat hfed hsch.size, ⟨?_, ?_, ?_, ?_⟩⟩
  · rw [Sched.HasActive, hsch.activatedWorker, hpr.activatedWorker]
    exact h.hasActive
  · have hm := hpr.moves hgap
    rw [← hheld₁, ← hi] at hm
    rw [ledger, ← hheld₁]
    exact hm.trans (hsch.moves hfirst)
  · intro p hpn hlen
    rw [hsch.nextPaneId, hnext₁] at hpn ⊢
    rw [hsch.length, hpr.length, if_neg (by omega)] at hlen
    refine ⟨by omega, ?_⟩
    rw [hsch.size, if_pos (by omega)]
    exact Nat.succ_ne_zero _
  · intro u hu
    rcases List.mem_append.mp hu with hu | hu
    · exact hcur.paneId u hu
    · rw [List.mem_singleton.mp hu]
      exact hp.1
  · intro u hu
    rw [hsch.nextPaneId, hnext₁]
    rcases List.mem_append.mp hu with hu | hu
    · exact (hcur.le u hu).trans hnext
    · rw [List.mem_singleton.mp hu]
  · refine Or.inr ⟨t, List.mem_append_right _ (List.mem_singleton_self t), ?_⟩
    rw [hsch.nextPaneId, hnext₁]

/-- A tuple in the in-order pipeline. -/
theorem Good.tupleIop (h : σ.Good c Rf) (hi : c.iop = true) {env : S.Env} {t : Tuple DIM}
    (he : σ.Enabled c (.tuple env t)) :
    ∃ σ', σ.exec c (.tuple env t) = some σ' ∧ σ'.Good c Rf ∧ Final σ σ' := by
  obtain ⟨s', out, hsched, hinv, hact, hmoves, hfed, hcur⟩ := h.scheduleMoves hi he
  refine ⟨_, ?_, h.sent he.1 (σ.scheduled ++ [t]) hinv hact hmoves hfed fun _ => hcur⟩
  rw [exec, hsched]
  rfl

/-- A progress of the stream. -/
theorem Good.progress (h : σ.Good c Rf) {env : S.Env} {ts : ℚ} {pId : Nat}
    (he : σ.Enabled c (.progress env ts pId)) (hok : σ.StepOk Rf (.progress env ts pId)) :
    ∃ σ', σ.exec c (.progress env ts pId) = some σ' ∧ σ'.Good c Rf ∧ Final σ σ' := by
  obtain ⟨hend, hi⟩ := he
  obtain ⟨s', out, hrun, hinv, hheld, hpr⟩ :=
    Rf.executeStreamProgress h.inv h.hasActive env c.iop ts pId
  have hact : (S.base s').HasActive := by
    rw [Sched.HasActive, hpr.activatedWorker]
    exact h.hasActive
  -- the strategy's own effect is one move of the ledger, if no pane is left uncovered
  have hmoves : Ledger.Moves c.iop (σ.ledger Rf) out ((S.base s').ledger (Rf.held s')) := by
    rw [hheld]
    exact hpr.moves hok
  refine ⟨_, by rw [exec, hrun]; rfl, h.sent hend σ.scheduled hinv hact hmoves (fun u hu => ?_)
    fun hi' => absurd (hi.symm.trans hi') Bool.false_ne_true⟩
  rw [hpr.size]
  exact h.fed u hu

/-- The controller adds workers. -/
theorem Good.add (h : σ.Good c Rf) {ws : List (Fin N)} (he : σ.Enabled c (.add ws)) :
    ∃ σ', σ.exec c (.add ws) = some σ' ∧ σ'.Good c Rf ∧ Final σ σ' := by
  obtain ⟨hend, hws, hinactive⟩ := he
  obtain ⟨s', hadd, hinv, hheld, hbase⟩ := Rf.addWorkers h.inv hws hinactive ws.length
  refine ⟨_, by rw [exec, hadd]; rfl, h.sent hend σ.scheduled hinv ?_ ?_ ?_ ?_⟩
  -- a worker activated before stays so
  · obtain ⟨w, hw⟩ := h.hasActive
    refine ⟨w, ?_⟩
    rw [hbase]
    simp [hw]
  -- activating workers moves no pane and no count
  · have hledger : (S.base s').ledger (Rf.held s') = (σ.ledger Rf).activate ws := by
      rw [hbase, hheld]
      rfl
    rw [hledger]
    exact (Ledger.Move.activate _ ws).moves
  · rw [hbase]
    exact h.fed
  · intro hi
    rw [hbase]
    have hcur := h.current hi
    exact ⟨hcur.size, hcur.paneId, hcur.le, hcur.last⟩

/-- The controller removes workers. -/
theorem Good.remove (h : σ.Good c Rf) {env : S.Env} {ws : List (Fin N)}
    (he : σ.Enabled c (.remove env ws)) :
    ∃ σ', σ.exec c (.remove env ws) = some σ' ∧ σ'.Good c Rf ∧ Final σ σ' := by
  obtain ⟨hend, hws, hactive, hleft⟩ := he
  obtain ⟨s', out, hrun, hinv, hrem⟩ := Rf.removeWorkers h.inv hws hactive hleft
    (h.heldActive hend) h.single env ws.length
  -- a removal leaves the sizes of the panes alone, it only moves their partitions
  have hsize : ∀ p, (S.base s').size p = (S.base σ.sched).size p := by
    intro p
    rw [Sched.size, hrem.paneSize]
  refine ⟨_, by rw [exec, hrun]; rfl, h.sent hend σ.scheduled hinv ?_ hrem.moves (fun u hu => ?_)
    fun hi => ?_⟩
  -- the worker that stays activated is the one the caller leaves
  · obtain ⟨w, hw, ha⟩ := hleft
    refine ⟨w, ?_⟩
    have ha' : (S.base σ.sched).activatedWorker w = true := ha
    rw [hrem.activatedWorker]
    simp [hw, ha']
  · rw [hsize]
    exact h.fed u hu
  -- the pane of the last tuple stays the last one
  · obtain ⟨hpack, hpane, hle, hlast⟩ := h.current hi
    refine ⟨fun p hp hlen => ?_, hpane, ?_, ?_⟩
    · rw [hrem.nextPaneId] at hp ⊢
      rw [hrem.length] at hlen
      rw [hsize]
      exact hpack p hp hlen
    · rw [hrem.nextPaneId]
      exact hle
    · rw [hrem.nextPaneId]
      exact hlast

/-- The stream ends. -/
theorem Good.finish (h : σ.Good c Rf) (he : σ.Enabled c .finish) :
    ∃ σ', σ.exec c .finish = some σ' ∧ σ'.Good c Rf ∧ Final σ σ' := by
  have hend : σ.ended = false := he
  -- the last view before END: every deque entry is still accounted for in the ledger
  obtain ⟨v, hs, hshape, hf⟩ := h.view
  rw [Follows, hend, if_neg Bool.false_ne_true] at hf
  obtain ⟨hok, hnil, hsettled⟩ := hf.finish
    (l := (List.finRange N).map fun v => (v, (Tuple.createEnd N : Tuple DIM))) rfl
  obtain ⟨v', hs', hshape', hcells⟩ := view_send hs hshape hok
  obtain ⟨s', hsched, hinv, hheld, hbase⟩ := Rf.broadcastEndToW h.inv
  refine ⟨_, rfl, ?_⟩
  rw [hsched]
  refine ⟨⟨hinv, ?_, ?_, ?_, v', hs', hshape', ?_⟩, ?_⟩
  · show (S.base s').HasActive
    obtain ⟨w, -⟩ := h.hasActive
    rw [hbase]
    exact ⟨w, rfl⟩
  · show ∀ t ∈ σ.scheduled, (S.base s').size t.paneId ≠ 0
    rw [hbase]
    exact h.fed
  · intro hi
    show Current c.paneLength (S.base s') σ.scheduled
    rw [hbase]
    have hcur := h.current hi
    exact ⟨hcur.size, hcur.paneId, hcur.le, hcur.last⟩
  -- END empties every deque, and each pane touched is settled with its final count
  · refine (if_pos rfl).mpr ⟨?_, ?_⟩
    · rw [hcells]
      exact hnil
    · intro p hp
      rw [hcells]
      have hnext : (S.base s').nextPaneId = (S.base σ.sched).nextPaneId := by rw [hbase]
      have hinst : (S.base s').instances p = (S.base σ.sched).instances p := by rw [hbase]
      show Settled _ ((S.base s').instances p)
      rw [hinst]
      -- a pane is touched if it has been closed or if a worker still holds it
      refine hsettled p (hp.imp (fun hlt => ?_) fun hne => ?_)
      · show p < (S.base σ.sched).nextPaneId
        rw [← hnext]
        exact hlt
      · obtain ⟨w, hw⟩ := hne
        refine ⟨w, ?_⟩
        show w ∈ (Rf.held σ.sched p).toFinset
        rw [← hheld]
        exact hw
  · refine ⟨?_, fun p _ => ?_⟩
    · show (S.base σ.sched).nextPaneId ≤ (S.base s').nextPaneId
      rw [hbase]
    · show (S.base s').instances p = (S.base σ.sched).instances p
      rw [hbase]

/-! ## Runs -/

/-- In the in-order pipeline every event keeps the invariant. -/
theorem Good.stepIop (h : σ.Good c Rf) (hi : c.iop = true) {e : PlqEvent S} (he : σ.Enabled c e) :
    ∃ σ', σ.exec c e = some σ' ∧ σ'.Good c Rf ∧ Final σ σ' := by
  cases e with
  | tuple env t => exact h.tupleIop hi he
  | progress env ts pId => exact absurd (hi.symm.trans he.2) Bool.true_eq_false.mp
  | add ws => exact h.add he
  | remove env ws => exact h.remove he
  | finish => exact h.finish he
  | worker w => exact h.worker he

/-- In the out-of-order pipeline every event that is as the strategy needs it keeps the invariant. -/
theorem Good.step (h : σ.Good c Rf) (hi : c.iop = false) {e : PlqEvent S} (he : σ.Enabled c e)
    (hok : σ.StepOk Rf e) : ∃ σ', σ.exec c e = some σ' ∧ σ'.Good c Rf ∧ Final σ σ' := by
  cases e with
  | tuple env t => exact h.tuple hi he hok
  | progress env ts pId => exact h.progress he hok
  | add ws => exact h.add he
  | remove env ws => exact h.remove he
  | finish => exact h.finish he
  | worker w => exact h.worker he

/-- **Run rule.** What every step of a run preserves, the run preserves; in particular no event of
the run aborts. -/
theorem Valid.induction {C : PlqState S R → PlqEvent S → Prop} {P : PlqState S R → Prop}
    (step : ∀ σ e, P σ → σ.Enabled c e → C σ e → ∃ σ', σ.exec c e = some σ' ∧ P σ')
    {es : List (PlqEvent S)} (hes : Valid c C es σ) (h : P σ) :
    ∃ σ', run c es σ = some σ' ∧ P σ' := by
  induction es generalizing σ with
  | nil => exact ⟨σ, rfl, h⟩
  | cons e es ih =>
      obtain ⟨he, hC, hrest⟩ := hes
      obtain ⟨σ₁, hσ₁, hP⟩ := step σ e h he hC
      rw [hσ₁] at hrest
      obtain ⟨σ', hσ', hP'⟩ := ih hrest hP
      exact ⟨σ', by rw [run, hσ₁]; exact hσ', hP'⟩

/-- A run of the out-of-order pipeline in which every step is as the strategy needs it. -/
theorem Valid.good {C : PlqState S R → PlqEvent S → Prop} (hi : c.iop = false)
    (hC : ∀ σ e, Rf.Inv σ.sched → C σ e → σ.StepOk Rf e) {es : List (PlqEvent S)}
    (hes : Valid c C es σ) (h : σ.Good c Rf) :
    ∃ σ', run c es σ = some σ' ∧ σ'.Good c Rf ∧ Final σ σ' := by
  refine Valid.induction (P := fun σ' => σ'.Good c Rf ∧ Final σ σ') ?_ hes ⟨h, Final.refl σ⟩
  rintro σ₁ e ⟨hgood, hfin⟩ he hc
  obtain ⟨σ₂, hσ₂, hgood₂, hfin₂⟩ := hgood.step hi he (hC σ₁ e hgood.inv hc)
  exact ⟨σ₂, hσ₂, hgood₂, hfin.trans hfin₂⟩

/-! ## What the invariant says once the channels are empty -/

/-- Every closed pane satisfies the count protocol, in the out-of-order pipeline. -/
theorem Good.countProtocol (h : σ.Good c Rf) (hi : c.iop = false) (hd : σ.Drained) {p : Nat}
    (hp : p < σ.nextPaneId) : CountProtocol σ.emitted p (σ.pInstances p) := by
  obtain ⟨v, hs, -, hf⟩ := h.view
  have hv : (fun w => (v w).2) = σ.emitted := by
    funext w
    rw [emitted, hs.eq_node hd]
  rw [← hv]
  unfold Follows at hf
  by_cases hend : σ.ended = true
  · rw [if_pos hend] at hf
    exact (hf.2 p (Or.inl hp)).countProtocol (hf.1 p)
  · rw [if_neg hend] at hf
    exact (hf.closed p hp).countProtocol (hf.drained hi p hp)

/-- After the end of the stream so does every pane below the next one and every pane with a partition. -/
theorem Good.countProtocol_touched (h : σ.Good c Rf) (hend : σ.ended = true) (hd : σ.Drained) {p : Nat}
    (hp : p < σ.nextPaneId ∨ σ.pInstances p ≠ 0) :
    CountProtocol σ.emitted p (σ.pInstances p) := by
  -- a drained worker's view is the node itself, so the cells speak about what was emitted
  obtain ⟨v, hs, -, hf⟩ := h.view
  have hv : (fun w => (v w).2) = σ.emitted := by
    funext w
    rw [emitted, hs.eq_node hd]
  rw [← hv]
  rw [Follows, if_pos hend] at hf
  refine (hf.2 p ?_).countProtocol (hf.1 p)
  -- closed panes are settled, an open one with a count has a worker that holds it
  by_cases hlt : p < σ.nextPaneId
  · exact Or.inl hlt
  · have hsound := Rf.sound h.inv
    have hne : Rf.held σ.sched p ≠ [] := fun hnil =>
      hp.resolve_left hlt ((hsound.held_iff _ (Nat.not_lt.mp hlt)).mp hnil)
    obtain ⟨w, hw⟩ := List.exists_mem_of_ne_nil _ hne
    exact Or.inr ⟨w, List.mem_toFinset.mpr hw⟩

/-- So does every pane with a tuple. -/
theorem Good.countProtocol_ended (h : σ.Good c Rf) (hend : σ.ended = true) (hd : σ.Drained)
    {p : Nat} (hp : p < σ.nextPaneId ∨ ∃ t ∈ σ.scheduled, t.paneId = p) :
    CountProtocol σ.emitted p (σ.pInstances p) := by
  by_cases hlt : p < σ.nextPaneId
  · exact h.countProtocol_touched hend hd (Or.inl hlt)
  · obtain ⟨t, ht, rfl⟩ := hp.resolve_left hlt
    exact h.countProtocol_touched hend hd
      (Or.inr ((Rf.sound h.inv).sized _ (Nat.not_lt.mp hlt) (h.fed t ht)))

end PlqState

end ElasticPPQ
