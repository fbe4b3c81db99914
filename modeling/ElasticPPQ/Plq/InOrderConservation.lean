import ElasticPPQ.Plq.Completion
import ElasticPPQ.Plq.InOrder

/-! # No tuple is lost or duplicated in the in-order pipeline

An in-order worker keeps account of what it has been fed only as long as its deque holds one pane: the
branch for an existing pane sends the earlier results sets and leaves them in the deque. So the account
is taken on the settled view, where the invariant of the count protocol says what a worker may find
(`PlqState.Balanced`). The strategies only ever open the current pane, and whatever they decide, the
emitted results sets have got every scheduled tuple exactly once. -/

namespace ElasticPPQ

open FifoNet

variable {N DIM : Nat}

namespace PlqWorker

/-! ## A worker -/

/-- The flush of an in-order worker changes instance counters at most. -/
theorem fedRows_flushIop {τ : Type} (p : Nat) (l : List (Rset (Build τ))) :
    fedRows (l.map fun r => if p ≤ r.id then r.setNoInstances 0 else r) = fedRows l := by
  induction l with
  | nil => rfl
  | cons r l ih =>
      rw [List.map_cons, fedRows_cons, fedRows_cons, ih]
      split <;> rfl

/-- The last branch of `svc` feeds its tuple, as the pane in the deque is not a later one. -/
theorem fedRows_updatePaneIop (wp sp : Nat) {w : PlqWorker (Build (Row ℚ DIM))}
    (hw : w.paneSet.length ≤ 1) {t : Tuple DIM} (hle : ∀ r ∈ w.paneSet, r.id ≤ t.paneId) :
    fedRows (w.before t.paneId ++ (updatePaneIop wp sp w t).paneSet) =
      fedRows w.paneSet + fedBy t := by
  rcases updatePaneIop_spec wp sp hw hle with ⟨-, hnew, hbefore⟩ | ⟨r, hone, hr, hnew, hbefore⟩
  · have hfed : fedRows [compute (newRset wp sp w t) t] = fedBy t := by
      rw [fedRows_compute rfl, fedRows_newRset, zero_add]
    rw [hnew, hbefore, fedRows_append, hfed]
  · rw [hnew, hbefore, List.nil_append, hone, fedRows_compute hr]

/-- A message that the cells can take is not for a pane before the one in the deque. -/
theorem le_of_msgOk {R : Type} {x : PlqWorker R × List (Rset R)} {t : Tuple DIM}
    (ht : MsgOk true (fun p => cell p x) t)
    (hty : t.type = .regular ∨ t.type = .emptyPane ∨ t.type = .unspecified) :
    ∀ r ∈ x.1.paneSet, r.id ≤ t.paneId := by
  intro r hr
  by_contra hlt
  have hnil := ht.latest rfl hty r.id (Nat.not_le.mp hlt)
  simp only [cell, List.map_eq_nil_iff, List.filter_eq_nil_iff, decide_eq_true_eq] at hnil
  exact hnil r hr rfl

/-- **One message.** An in-order worker keeps account of what it has been fed, if it can take the
message. -/
theorem rows_feedIop {wp sp : Nat}
    {x y : PlqWorker (Build (Row ℚ DIM)) × List (Rset (Build (Row ℚ DIM)))} {t : Tuple DIM}
    (hx : x.1.paneSet.length ≤ 1) (ht : MsgOk true (fun p => cell p x) t)
    (h : feed (svcIop wp sp) x t = some y) : rows y = rows x + fedBy t := by
  have hle := le_of_msgOk ht
  obtain ⟨w, out⟩ := x
  obtain ⟨w', out'⟩ := y
  obtain ⟨o, hsvc, ho⟩ := feed_eq_some.mp h
  replace hsvc : svcIop wp sp w t = some (w', o) := hsvc
  replace ho : out' = out ++ o := ho
  subst ho
  -- a control message moves results sets, but feeds no tuple
  have hcontrol : t.type ≠ .regular → fedRows (o ++ w'.paneSet) = fedRows w.paneSet →
      rows (w', out ++ o) = rows (w, out) + fedBy t := by
    intro hty hsame
    rw [fedBy, if_neg hty, add_zero]
    show fedRows (out ++ o ++ w'.paneSet) = fedRows (out ++ w.paneSet)
    rw [List.append_assoc, fedRows_append, hsame, fedRows_append]
  -- a message with a pane of its own emits the older panes, and updates that one
  have hupdate : t.type = .regular ∨ t.type = .emptyPane ∨ t.type = .unspecified →
      updatePaneIop wp sp w t = w' → w.before t.paneId = o →
      rows (w', out ++ o) = rows (w, out) + fedBy t := by
    rintro hty rfl rfl
    rw [rows, rows, List.append_assoc, fedRows_append, fedRows_updatePaneIop wp sp hx (hle hty),
      fedRows_append, add_assoc]
  unfold svcIop at hsvc
  cases hty : t.type with
  | «end» =>
      rw [hty] at hsvc
      cases hsvc
      exact hcontrol (by rw [hty]; exact TypeMsg.noConfusion) (by rw [List.append_nil])
  | newInst =>
      rw [hty] at hsvc
      obtain ⟨w₁, hw₁, he⟩ := Option.map_eq_some_iff.mp hsvc
      cases he
      exact hcontrol (by rw [hty]; exact TypeMsg.noConfusion) (fedRows_setInstances hw₁)
  | flush =>
      rw [hty] at hsvc
      cases hsvc
      refine hcontrol (by rw [hty]; exact TypeMsg.noConfusion) ?_
      rw [List.append_nil, fedRows_flushIop]
  | lull =>
      rw [hty] at hsvc
      cases hsvc
      refine hcontrol (by rw [hty]; exact TypeMsg.noConfusion) ?_
      rw [fedRows_append, fedRows_newRset, zero_add]
  | regular => rw [hty] at hsvc; cases hsvc; exact hupdate (Or.inl hty) rfl rfl
  | emptyPane => rw [hty] at hsvc; cases hsvc; exact hupdate (Or.inr (Or.inl hty)) rfl rfl
  | unspecified => rw [hty] at hsvc; cases hsvc; exact hupdate (Or.inr (Or.inr hty)) rfl rfl
  | punct => exact absurd hty (ht.noPunct rfl)

/-- **A list of messages** that the worker can take, one after the other. -/
theorem rows_feedAllIop {wp sp : Nat} {ts : List (Tuple DIM)}
    {x y : PlqWorker (Build (Row ℚ DIM)) × List (Rset (Build (Row ℚ DIM)))}
    (hx : Shape true x.1) (hts : CellsOk true (fun p => cell p x) ts)
    (h : feedAll (svcOf true wp sp) x ts = some y) : rows y = rows x + (ts.map fedBy).sum := by
  -- induction on the messages, along which the deque keeps at most one results set
  induction ts generalizing x with
  | nil =>
      cases h
      simp
  | cons t ts ih =>
      obtain ⟨z, hz, hshape, hcell⟩ := feed_cell true wp sp hx hts.1
      have hts' : CellsOk true (fun p => cell p z) ts := by
        have := hts.2
        simpa only [← hcell] using this
      rw [feedAll_cons, hz] at h
      rw [ih hshape hts' h, rows_feedIop (hx.single rfl) hts.1 hz, List.map_cons, List.sum_cons,
        add_assoc]

end PlqWorker

/-- A pane that is neither closed nor has a partition has left no trace. -/
theorem Ledger.Tracks.untouched {iop : Bool} {L : Ledger N} {cells : Cells N}
    (h : Ledger.Tracks iop L cells) {p : Nat} (hp : L.next ≤ p) (hz : L.count p = 0) (w : Fin N) :
    cells p w = ([], []) := by
  have hopen := h.opened p hp
  rw [hz] at hopen
  exact hopen.eq_nil w

namespace PlqState

variable {S : Strategy N DIM} {c : PlqParams} {Rf : S.Refinement}

/-! ## The ledger and the settled view -/

section Moves

variable {R : Type} [PrefQuery (Row ℚ DIM) R] {σ σ' : PlqState S R}

/-- **In the in-order pipeline every call of the strategy moves the ledger.** -/
theorem Good.movesIop (h : σ.Good c Rf) (hi : c.iop = true) {e : PlqEvent S} (hcall : Calls e)
    (he : σ.Enabled c e) (hσ' : σ.exec c e = some σ') :
    Ledger.Moves c.iop (σ.ledger Rf) (σ.sends c e) (σ'.ledger Rf) := by
  -- one case per call: each of them is a sequence of moves of the ledger
  cases e with
  | tuple env t =>
      obtain ⟨s', out, hsched, -, -, hmoves, -, -⟩ := h.scheduleMoves hi he
      rw [exec, hsched] at hσ'
      cases hσ'
      rw [sends, hsched]
      exact hmoves
  | progress env ts pId => exact absurd (hi.symm.trans he.2) Bool.true_eq_false.mp
  | add ws =>
      obtain ⟨-, hws, hinactive⟩ := he
      obtain ⟨s', hadd, -, hheld, hbase⟩ := Rf.addWorkers h.inv hws hinactive ws.length
      rw [exec, hadd] at hσ'
      cases hσ'
      have hledger : (S.base s').ledger (Rf.held s') = (σ.ledger Rf).activate ws := by
        rw [hbase, hheld]
        rfl
      show Ledger.Moves _ _ [] ((S.base s').ledger (Rf.held s'))
      rw [hledger]
      exact (Ledger.Move.activate _ ws).moves
  | remove env ws =>
      obtain ⟨hend, hws, hactive, hleft⟩ := he
      obtain ⟨s', out, hrun, -, hrem⟩ := Rf.removeWorkers h.inv hws hactive hleft
        (h.heldActive hend) h.single env ws.length
      rw [exec, hrun] at hσ'
      cases hσ'
      rw [sends, hrun]
      exact hrem.moves
  | finish => exact absurd hcall id
  | worker w => exact absurd hcall id

/-- During the stream the cells follow the ledger. -/
theorem Good.tracks (h : σ.Good c Rf) (hend : σ.ended = false)
    {v : Fin N → PlqWorker R × List (Rset R)}
    (hs : Settles (PlqWorker.svcOf c.iop c.wp c.sp) σ.net v) :
    (∀ w, PlqWorker.Shape c.iop (v w).1) ∧ Ledger.Tracks c.iop (σ.ledger Rf) (viewCells v) := by
  obtain ⟨v', hs', hshape, hf⟩ := h.view
  obtain rfl := hs.unique hs'
  rw [Follows, hend, if_neg Bool.false_ne_true] at hf
  exact ⟨hshape, hf⟩

end Moves

/-! ## The tuples of the settled view -/

variable {β β' : PlqState S (Build (Row ℚ DIM))}

/-- The tuples that all the workers have got, in their deques and emitted. -/
def allRows (v : Fin N → PlqWorker (Build (Row ℚ DIM)) × List (Rset (Build (Row ℚ DIM)))) :
    Multiset (Nat × Row ℚ DIM) := ∑ w, PlqWorker.rows (v w)

/-- **What is sent to the workers is what they get.** -/
theorem allRows_sendAll {wp sp : Nat} {net : Net (Fin N) _ (Tuple DIM) _}
    {v v' : Fin N → PlqWorker (Build (Row ℚ DIM)) × List (Rset (Build (Row ℚ DIM)))}
    {out : Sends N DIM} (hs : Settles (PlqWorker.svcOf true wp sp) net v)
    (hs' : Settles (PlqWorker.svcOf true wp sp) (net.sendAll out) v')
    (hshape : ∀ w, PlqWorker.Shape true (v w).1) (hok : SendsOk true (viewCells v) out) :
    allRows v' = allRows v +
      ((regulars out).map fun t => (t.paneId, t.toRow) : List (Nat × Row ℚ DIM)) := by
  rw [allRows, allRows, ← sum_fedBy, ← sum_msgsTo, ← Finset.sum_add_distrib]
  refine Finset.sum_congr rfl fun w _ => ?_
  exact PlqWorker.rows_feedAllIop (hshape w) (hok w) (hs.of_sendAll hs' w)

/-- **The tuples of the stage**, once the channels are empty: the workers have got the tuples that have
been scheduled, and a pane that is neither closed nor has a partition has left no trace. -/
structure Balanced (c : PlqParams) (Rf : S.Refinement) (β : PlqState S (Build (Row ℚ DIM))) : Prop where
  good : β.Good c Rf
  sized : β.Sized
  view : ∃ v, Settles (PlqWorker.svcOf c.iop c.wp c.sp) β.net v ∧ allRows v = β.scheduledRows ∧
    ∀ p, β.nextPaneId ≤ p → β.pInstances p = 0 → ∀ w, viewCells v p w = ([], [])

/-- Nothing has been scheduled, fed or sent yet. -/
theorem init_balanced (c : PlqParams) (Rf : S.Refinement) {nw : Nat} (hpos : 0 < nw) (hle : nw ≤ N) :
    (init S (Build (Row ℚ DIM)) nw).Balanced c Rf where
  good := init_good c Rf hpos hle
  sized := init_sized Rf nw
  view := ⟨fun _ => (PlqWorker.new _, []), fun _ => rfl, Finset.sum_eq_zero fun _ _ => rfl,
    fun _ _ _ _ => rfl⟩

/-- A call of the strategy. -/
theorem Balanced.call (h : β.Balanced c Rf) (hi : c.iop = true) {e : PlqEvent S} (he : β.Enabled c e)
    (hcall : Calls e) (hend : β.ended = false) (hβ' : β.exec c e = some β')
    (hgood : β'.Good c Rf) (hsized : β'.Sized) : β'.Balanced c Rf := by
  obtain ⟨v, hs, hrows, -⟩ := h.view
  obtain ⟨hshape, htr⟩ := h.good.tracks hend hs
  obtain ⟨β₁, hβ₁, hem⟩ := h.good.ready.emits hcall he fun _ => h.good.tuple_le hi he
  obtain rfl := Option.some.inj (hβ'.symm.trans hβ₁)
  obtain ⟨hok, htr'⟩ := htr.moves (h.good.movesIop hi hcall he hβ')
  obtain ⟨v', hs', -, hcells⟩ := view_send hs hshape hok
  refine ⟨hgood, hsized, v', hem.net ▸ hs', ?_, fun p hp hz w => ?_⟩
  -- the tuples that the call sends are those that it schedules
  · rw [hi] at hs hs' hshape hok
    obtain ⟨n, hn⟩ := hem.regular
    rw [allRows_sendAll hs hs' hshape hok, hrows, hn, scheduledRows, scheduledRows, hem.scheduled,
      List.map_append, ← Multiset.coe_add, List.map_map]
    rfl
  -- a pane without partition has not been touched by the moves either
  · rw [hcells]
    exact htr'.untouched hp hz w

/-- The end of the stream. -/
theorem Balanced.finish (h : β.Balanced c Rf) (hi : c.iop = true) (hend : β.ended = false)
    (hβ' : β.exec c .finish = some β') (hgood : β'.Good c Rf) (hsized : β'.Sized) : β'.Balanced c Rf := by
  obtain ⟨v, hs, hrows, huntouched⟩ := h.view
  obtain ⟨hshape, htr⟩ := h.good.tracks hend hs
  obtain ⟨hok, -, -⟩ := htr.finish
    (l := (List.finRange N).map fun v => (v, (Tuple.createEnd N : Tuple DIM))) rfl
  obtain ⟨v', hs', -, hcells⟩ := view_send hs hshape hok
  obtain ⟨s', hsched, -, -, hbase⟩ := Rf.broadcastEndToW h.good.inv
  rw [exec, hsched] at hβ'
  cases hβ'
  refine ⟨hgood, hsized, v', hs', ?_, fun p hp hz w => ?_⟩
  · rw [hi] at hs hs' hshape hok
    have hcontrol : regulars ((List.finRange N).map fun v => (v, (Tuple.createEnd N : Tuple DIM))) = [] := by
      refine regulars_control fun x hx => ?_
      obtain ⟨v, -, rfl⟩ := List.mem_map.mp hx
      exact TypeMsg.noConfusion
    rw [allRows_sendAll hs hs' hshape hok, hrows, hcontrol]
    exact add_zero _
  · have hp' : β.nextPaneId ≤ p := by
      have hp : (S.base s').nextPaneId ≤ p := hp
      rw [hbase] at hp
      exact hp
    have hz' : β.pInstances p = 0 := by
      have hz : (S.base s').instances p = 0 := hz
      rw [hbase] at hz
      exact hz
    -- the end-of-stream message finds nothing to send out
    rw [hcells, Cells.send, msgsTo_multicast_nodup w (List.nodup_finRange N),
      if_pos (List.mem_finRange w), huntouched p hp' hz' w]
    rfl

/-- **Every event keeps the tuples**, and none aborts. -/
theorem Balanced.step (h : β.Balanced c Rf) (hi : c.iop = true) {e : PlqEvent S} (he : β.Enabled c e) :
    ∃ β', β.exec c e = some β' ∧ β'.Balanced c Rf := by
  obtain ⟨β', hβ', hgood, -⟩ := h.good.stepIop hi he
  have hsized := h.sized.step h.good.ready he (fun _ => h.good.tuple_le hi he) hβ'
  refine ⟨β', hβ', ?_⟩
  cases e with
  | tuple env t => exact h.call hi he trivial he.1 hβ' hgood hsized
  | progress env ts pId => exact h.call hi he trivial he.1 hβ' hgood hsized
  | add ws => exact h.call hi he trivial he.1 hβ' hgood hsized
  | remove env ws => exact h.call hi he trivial he.1 hβ' hgood hsized
  | finish => exact h.finish hi he hβ' hgood hsized
  | worker w =>
      -- a delivery does not move the settled view
      obtain ⟨v, hs, hview⟩ := h.view
      rcases exec_worker hβ' with ⟨hq, -⟩ | ⟨m, ms, y, hq, hy, rfl⟩
      · exact absurd hq he
      · exact ⟨hgood, hsized, v, hs.deliver (Deliver.mk w m ms y hq hy), hview⟩

/-! ## The end of the stream -/

/-- After the end of the stream the drained workers hold no pane any more. -/
theorem Good.paneSet_eq_nil {R : Type} [PrefQuery (Row ℚ DIM) R] {σ : PlqState S R}
    (h : σ.Good c Rf) (hend : σ.ended = true) (hd : σ.Drained) (w : Fin N) :
    (σ.net.node w).1.paneSet = [] := by
  obtain ⟨v, hs, -, hf⟩ := h.view
  rw [Follows, if_pos hend] at hf
  rw [List.eq_nil_iff_forall_not_mem]
  intro r hr
  have hcell := hf.1 r.id w
  rw [← hs.eq_node hd] at hcell
  simp only [viewCells, PlqWorker.cell, List.map_eq_nil_iff, List.filter_eq_nil_iff] at hcell
  exact hcell r hr (by simp)

/-- At the end all the tuples scheduled have been fed. -/
theorem Balanced.fed (h : β.Balanced c Rf) (hend : β.ended = true) (hd : β.Drained) :
    ∑ w, fedRows (β.emitted w) = β.scheduledRows := by
  obtain ⟨v, hs, hrows, -⟩ := h.view
  rw [← hrows, allRows, ← hs.eq_node hd]
  refine Finset.sum_congr rfl fun w _ => ?_
  rw [PlqWorker.rows, h.good.paneSet_eq_nil hend hd w, List.append_nil]
  rfl

/-- Panes that nobody has a partition of have not been touched. -/
theorem Balanced.untouched (h : β.Balanced c Rf) : β.Untouched c := by
  obtain ⟨v, hs, -, huntouched⟩ := h.view
  exact ⟨v, hs, huntouched⟩

/-- **What the second stage needs to know of the in-order pipeline**, whatever happens in it. -/
theorem Balanced.forecast (Rf : S.Refinement) (hi : c.iop = true) :
    Forecast c (fun _ _ => True) (Balanced c Rf) where
  step := fun _ _ h he _ => h.step hi he
  finish := fun _ => trivial
  worker := fun _ _ => trivial
  counted := fun _ h hend hd _ hr => h.good.emitted_counted h.untouched hend hd hr
  fed := fun _ h => h.fed

/-- The panes of a complete run are those up to the last one scheduled. -/
theorem Balanced.mem_emissions_iff (h : β.Balanced c Rf) (hi : c.iop = true) (hend : β.ended = true)
    (hd : β.Drained) (p : Nat) :
    p ∈ β.emissions.map Rset.id ↔ ∃ t ∈ β.scheduled, p ≤ t.paneId := by
  rw [h.good.mem_emissions_iff h.untouched hend hd, h.good.touched_iff h.sized (h.good.filled hi)]
  have hcur := h.good.current hi
  constructor
  · rintro (hlt | ⟨t, ht, rfl⟩)
    · have hlt : p < (S.base β.sched).nextPaneId := hlt
      rcases hcur.last with ⟨-, hzero⟩ | ⟨t, ht, hlast⟩
      · omega
      · exact ⟨t, ht, by omega⟩
    · exact ⟨t, ht, le_rfl⟩
  · rintro ⟨t, ht, hp⟩
    have hle := hcur.le t ht
    -- a pane up to that of the tuple is closed, or is the pane of the tuple
    rcases Nat.lt_or_ge p (S.base β.sched).nextPaneId with hlt | hge
    · exact Or.inl hlt
    · exact Or.inr ⟨t, ht, by omega⟩

/-- At the end no tuple is lost or fed twice. -/
theorem Balanced.tuplesKept (h : β.Balanced c Rf) (hsingle : ∀ w, (β.net.node w).1.paneSet.length ≤ 1) :
    β.TuplesKept where
  sorted := fun w => PlqWorker.sorted_of_length_le (hsingle w)
  fed := h.fed

/-- No run of the in-order pipeline aborts, and each leads to a state in which the tuples are
kept. -/
def InOrderKeepsTuples (S : Strategy N DIM) (wp sp paneLength nw : Nat) : Prop :=
  ∀ es, Valid (inOrder wp sp paneLength) (fun _ _ => True) es (init S (Build (Row ℚ DIM)) nw) →
    ∃ σ, run (inOrder wp sp paneLength) es (init S _ nw) = some σ ∧ σ.TuplesKept

end PlqState

open PlqState

/-- **Every strategy that refines the ledger keeps the tuples in the in-order pipeline.** -/
theorem Strategy.Refinement.inOrderKeepsTuples {S : Strategy N DIM} (Rf : S.Refinement)
    (wp sp paneLength : Nat) {nw : Nat} (hpos : 0 < nw) (hle : nw ≤ N) :
    InOrderKeepsTuples S wp sp paneLength nw := by
  intro es hes
  have hi : (inOrder wp sp paneLength).iop = true := rfl
  -- the deque of a worker never holds more than one results set in order
  obtain ⟨σ, hrun, hbal, hsingle⟩ := Valid.induction
    (P := fun σ => σ.Balanced (inOrder wp sp paneLength) Rf ∧
      ∀ w, (σ.net.node w).1.paneSet.length ≤ 1)
    (fun σ e h he _ => by
      obtain ⟨σ', hσ', hbal⟩ := h.1.step hi he
      refine ⟨σ', hσ', hbal, forall_node_exec (P := fun x => x.1.paneSet.length ≤ 1) hσ'
        (fun x t y hx hy => ?_) h.2⟩
      obtain ⟨o, ho, -⟩ := feed_eq_some.mp hy
      exact PlqWorker.svcIop_length_le wp sp hx ho)
    hes ⟨init_balanced _ Rf hpos hle, fun _ => Nat.zero_le _⟩
  exact ⟨σ, hrun, hbal.tuplesKept hsingle⟩

/-- **No tuple is lost or duplicated by elasticity in the in-order pipeline**, for each of the three
strategies. -/
theorem inOrder_tuples_kept (wp sp paneLength : Nat) {nw : Nat} (hpos : 0 < nw) (hle : nw ≤ N) :
    InOrderKeepsTuples (PbRrSched.strategy N DIM) wp sp paneLength nw ∧
      InOrderKeepsTuples (TbRrSched.strategy N DIM) wp sp paneLength nw ∧
      InOrderKeepsTuples (AdaptiveSched.strategy N DIM) wp sp paneLength nw :=
  ⟨(PbRrSched.refinement N DIM).inOrderKeepsTuples wp sp paneLength hpos hle,
    (TbRrSched.refinement N DIM).inOrderKeepsTuples wp sp paneLength hpos hle,
    (AdaptiveSched.refinement N DIM).inOrderKeepsTuples wp sp paneLength hpos hle⟩

/-- A pane is split over two workers, one of them is removed, a later pane closes it, and the stream
ends. -/
theorem inOrder_tuples_kept_witness :
    ∃ σ, run (inOrder 2 1 1) [.tuple () (tupleAt 0), .tuple () (tupleAt 0), .remove () [0],
        .worker 0, .tuple () (tupleAt 2), .add [0], .finish, .worker 0, .worker 0, .worker 1,
        .worker 1, .worker 1, .worker 1]
        (init (TbRrSched.strategy 2 1) _ 2) = some σ ∧ σ.TuplesKept :=
  (inOrder_tuples_kept 2 1 1 (by decide) (by decide)).2.1 _ (by decide +kernel)

end ElasticPPQ
