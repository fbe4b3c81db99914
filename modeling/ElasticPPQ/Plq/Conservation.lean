import ElasticPPQ.Plq.Handling

/-! # No tuple is lost or duplicated by elasticity

The workers are run with the query that records what it is fed (`Build`). A results set then stands
for its pane and for the tuples that `addComputeTuple` has been called with, and every branch of
`PLQ_Worker::svc` accounts for them (`PlqWorker.rows_feed`): what the deque and the emissions of a
worker have got is what its messages were. So the emitted results sets have got, together, every
scheduled tuple exactly once, in a results set of its pane. -/

namespace ElasticPPQ

open FifoNet

variable {N DIM : Nat}

/-- The tuples that have been fed to a list of results sets, each with the pane of its results
set. -/
def fedRows {τ : Type} (l : List (Rset (Build τ))) : Multiset (Nat × τ) :=
  (l.map fun r => r.set.tuples.map fun x => (r.id, x)).sum

section FedRows

variable {τ : Type}

/-- No results sets, no tuples. -/
@[simp] theorem fedRows_nil : fedRows ([] : List (Rset (Build τ))) = 0 := rfl

/-- The tuples of the first results set, and those of the rest. -/
@[simp] theorem fedRows_cons (r : Rset (Build τ)) (l : List (Rset (Build τ))) :
    fedRows (r :: l) = (r.set.tuples.map fun x => (r.id, x)) + fedRows l := by
  rw [fedRows, List.map_cons, List.sum_cons]
  rfl

/-- The tuples of two lists of results sets. -/
@[simp] theorem fedRows_append (l m : List (Rset (Build τ))) :
    fedRows (l ++ m) = fedRows l + fedRows m := by
  rw [fedRows, List.map_append, List.sum_append]
  rfl

/-- The instance counters do not matter. -/
theorem fedRows_map_setNoInstances (f : Rset (Build τ) → Nat) (l : List (Rset (Build τ))) :
    fedRows (l.map fun r => r.setNoInstances (f r)) = fedRows l := by
  induction l with
  | nil => rfl
  | cons r l ih =>
      rw [List.map_cons, fedRows_cons, fedRows_cons, ih]
      rfl

end FedRows

namespace PlqWorker

/-- What a message feeds. -/
def fedBy (t : Tuple DIM) : Multiset (Nat × Row ℚ DIM) :=
  if t.type = .regular then {(t.paneId, t.toRow)} else 0

/-- The tuples of a worker: in its deque or in what it has emitted. -/
def rows (x : PlqWorker (Build (Row ℚ DIM)) × List (Rset (Build (Row ℚ DIM)))) :
    Multiset (Nat × Row ℚ DIM) :=
  fedRows (x.2 ++ x.1.paneSet)

/-- A tuple is fed to the results set of its pane. -/
theorem fedRows_compute {r : Rset (Build (Row ℚ DIM))} {t : Tuple DIM} (hr : r.id = t.paneId) :
    fedRows [compute r t] = fedRows [r] + fedBy t := by
  rw [compute, fedBy]
  by_cases ht : t.type = .regular
  · rw [if_pos ht, if_pos ht, fedRows_cons, fedRows_cons]
    show (Build.tuples (.addTuple r.set t.toRow)).map _ + _ = _
    rw [Build.tuples, Multiset.map_add, Multiset.map_singleton, hr, fedRows_nil, add_zero, add_zero]
  · rw [if_neg ht, if_neg ht, add_zero]

/-- A results set that has just been allocated has been fed nothing. -/
@[simp] theorem fedRows_newRset (wp sp : Nat) (w : PlqWorker (Build (Row ℚ DIM))) (t : Tuple DIM) :
    fedRows [newRset wp sp w t] = 0 := rfl

/-- The last branch of `svc` feeds its tuple, wherever the results set of the pane comes to stand. -/
theorem fedRows_updatePane (wp sp : Nat) (w : PlqWorker (Build (Row ℚ DIM))) (t : Tuple DIM) :
    fedRows (updatePane wp sp w t).paneSet = fedRows w.paneSet + fedBy t := by
  have hsplit := before_append_lowerBound w t.paneId
  have hnew : fedRows [compute (newRset wp sp w t) t] = fedBy t := by
    rw [fedRows_compute rfl, fedRows_newRset, zero_add]
  unfold updatePane
  cases hl : w.lowerBound t.paneId with
  | nil => rw [fedRows_append, hnew]
  | cons r rest =>
      rw [hl] at hsplit
      by_cases hr : r.id = t.paneId
      · -- the pane is open
        simp only [hr, ne_eq, not_true_eq_false, if_false]
        have hone := fedRows_compute (t := t) hr
        rw [← hsplit, ← List.singleton_append, ← List.singleton_append (x := r), fedRows_append,
          fedRows_append, fedRows_append, fedRows_append, hone]
        abel
      · -- the pane is inserted
        simp only [ne_eq, hr, not_false_eq_true, if_true]
        rw [← hsplit, ← List.singleton_append, fedRows_append, fedRows_append, fedRows_append, hnew]
        abel

/-- A `NEW_INST` message feeds nothing. -/
theorem fedRows_setInstances {w w' : PlqWorker (Build (Row ℚ DIM))} {t : Tuple DIM}
    (h : w.setInstances t = some w') : fedRows w'.paneSet = fedRows w.paneSet := by
  have hsplit := before_append_lowerBound w t.paneId
  unfold setInstances at h
  cases hl : w.lowerBound t.paneId with
  | nil => simp [hl] at h
  | cons r rest =>
      rw [hl] at hsplit h
      by_cases hr : r.id = t.paneId
      · simp only [hr, ne_eq, not_true_eq_false, if_false, Option.some.injEq] at h
        rw [← h, ← hsplit, fedRows_append, fedRows_append, fedRows_cons, fedRows_cons]
        rfl
      · simp [hr] at h

/-- **One message.** An out-of-order worker keeps account of what it has been fed. -/
theorem rows_feed {wp sp : Nat}
    {x y : PlqWorker (Build (Row ℚ DIM)) × List (Rset (Build (Row ℚ DIM)))} {t : Tuple DIM}
    (h : feed (svc wp sp) x t = some y) : rows y = rows x + fedBy t := by
  obtain ⟨w, out⟩ := x
  obtain ⟨w', out'⟩ := y
  obtain ⟨o, hsvc, ho⟩ := feed_eq_some.mp h
  replace hsvc : svc wp sp w t = some (w', o) := hsvc
  replace ho : out' = out ++ o := ho
  subst ho
  -- a control message moves results sets, but feeds no tuple
  have hcontrol : t.type ≠ .regular → fedRows (o ++ w'.paneSet) = fedRows w.paneSet →
      rows (w', out ++ o) = rows (w, out) + fedBy t := by
    intro hty hsame
    rw [fedBy, if_neg hty, add_zero]
    show fedRows (out ++ o ++ w'.paneSet) = fedRows (out ++ w.paneSet)
    rw [List.append_assoc, fedRows_append, hsame, fedRows_append]
  -- a tuple, and the placeholder of an empty pane, update one results set
  have hupdate : updatePane wp sp w t = w' → [] = o →
      rows (w', out ++ o) = rows (w, out) + fedBy t := by
    rintro rfl rfl
    rw [rows, rows, List.append_nil, fedRows_append, fedRows_append, fedRows_updatePane, add_assoc]
  unfold svc at hsvc
  cases hty : t.type with
  | punct =>
      rw [hty] at hsvc
      cases hsvc
      refine hcontrol (by rw [hty]; exact TypeMsg.noConfusion) ?_
      rw [before_append_lowerBound]
  | «end» =>
      rw [hty] at hsvc
      cases hsvc
      exact hcontrol (by rw [hty]; exact TypeMsg.noConfusion) (by rw [List.append_nil])
  | newInst =>
      rw [hty] at hsvc
      obtain ⟨w₁, hw₁, he⟩ := Option.map_eq_some_iff.mp hsvc
      cases he
      exact hcontrol (by rw [hty]; exact TypeMsg.noConfusion) (fedRows_setInstances hw₁)
  | flush =>
      rw [hty] at hsvc
      cases hsvc
      refine hcontrol (by rw [hty]; exact TypeMsg.noConfusion) ?_
      rw [List.append_nil, fedRows_map_setNoInstances]
  | lull =>
      rw [hty] at hsvc
      cases hsvc
      refine hcontrol (by rw [hty]; exact TypeMsg.noConfusion) ?_
      rw [fedRows_append, fedRows_newRset, zero_add]
  | regular => rw [hty] at hsvc; cases hsvc; exact hupdate rfl rfl
  | emptyPane => rw [hty] at hsvc; cases hsvc; exact hupdate rfl rfl
  | unspecified => rw [hty] at hsvc; cases hsvc; exact hupdate rfl rfl

/-- **A message leaves the deque strictly increasing.** -/
theorem Sorted.feed {R : Type} [PrefQuery (Row ℚ DIM) R] {wp sp : Nat}
    {x y : PlqWorker R × List (Rset R)} (hx : x.1.Sorted) {t : Tuple DIM}
    (h : feed (svc wp sp) x t = some y) : y.1.Sorted := by
  have hopen : t.type = .newInst → (cell t.paneId x).1 ≠ [] := by
    intro hty hnil
    obtain ⟨r, hr, hid⟩ := mem_of_feed hty (show FifoNet.feed (svcOf false wp sp) x t = some y from h)
    rw [cell, List.map_eq_nil_iff, List.filter_eq_nil_iff] at hnil
    exact hnil r hr (by simpa using hid)
  obtain ⟨z, hz, hsort, -⟩ := svc_cell wp sp hx hopen
  rw [h] at hz
  cases hz
  exact hsort

end PlqWorker

namespace PlqState

variable {S : Strategy N DIM} {c : PlqParams} {Rf : S.Refinement}

/-! ## Runs -/

/-- The tuples scheduled so far, each with its pane. -/
def scheduledRows {R : Type} (σ : PlqState S R) : Multiset (Nat × Row ℚ DIM) :=
  (σ.scheduled.map fun t => (t.paneId, t.toRow) : List (Nat × Row ℚ DIM))

/-- What a list of sends feeds are its regular messages. -/
theorem sum_fedBy (l : Sends N DIM) :
    (l.map fun x => PlqWorker.fedBy x.2).sum
      = ((regulars l).map fun t => (t.paneId, t.toRow) : List (Nat × Row ℚ DIM)) := by
  induction l with
  | nil => rfl
  | cons x l ih =>
      have hcons : regulars (x :: l) = regulars [x] ++ regulars l := regulars_append [x] l
      rw [List.map_cons, List.sum_cons, ih, hcons, List.map_append, ← Multiset.coe_add]
      congr 1
      by_cases hty : x.2.type = .regular
      · simp [PlqWorker.fedBy, regulars, hty]
      · simp [PlqWorker.fedBy, regulars, hty]

variable {σ σ' : PlqState S (Build (Row ℚ DIM))}

/-- **The tuples of the stage**: what the workers have been fed, and what is on its way to them, are
the tuples that have been scheduled. -/
structure Conserved (σ : PlqState S (Build (Row ℚ DIM))) : Prop where
  total : σ.net.total PlqWorker.rows PlqWorker.fedBy = σ.scheduledRows
  sorted : ∀ w, (σ.net.node w).1.Sorted

/-- Nothing is conserved less by an event that calls the strategy. -/
theorem Conserved.emits (h : σ.Conserved) {e : PlqEvent S} {out : Sends N DIM}
    (he : σ.Emits c Rf σ' e out) : σ'.Conserved where
  total := by
    obtain ⟨n, hn⟩ := he.regular
    rw [he.net, Net.total_sendAll, h.total, sum_fedBy, hn, scheduledRows, scheduledRows,
      he.scheduled, List.map_append, ← Multiset.coe_add, List.map_map]
    rfl
  sorted := by
    intro w
    rw [he.net]
    exact h.sorted w

/-- **Every event conserves the tuples.** -/
theorem Conserved.step (h : σ.Conserved) (hh : σ.Handled c Rf) (hi : c.iop = false) {e : PlqEvent S}
    (he : σ.Enabled c e) (hσ : σ.exec c e = some σ') : σ'.Conserved := by
  have hsvc : (PlqWorker.svcOf c.iop c.wp c.sp :
      Svc (PlqWorker (Build (Row ℚ DIM))) (Tuple DIM) (Rset (Build (Row ℚ DIM))))
        = PlqWorker.svc c.wp c.sp := PlqWorker.svcOf_oop hi _ _
  by_cases hcall : Calls e
  · obtain ⟨σ₁, hσ₁, hem⟩ := (hh.ready hi).emits hcall he
      fun hi' => absurd (hi.symm.trans hi') Bool.false_ne_true
    rw [hσ] at hσ₁
    cases hσ₁
    exact h.emits hem
  · cases e with
    | finish =>
        cases hσ
        refine ⟨?_, h.sorted⟩
        -- the end-of-stream messages feed nothing
        show (σ.net.sendAll ((List.finRange N).map fun i => (i, Tuple.createEnd N))).total _ _ = _
        rw [Net.total_sendAll, h.total, List.map_map]
        have hzero : ((List.finRange N).map
            ((fun x : Fin N × Tuple DIM => PlqWorker.fedBy x.2) ∘
              fun i => (i, Tuple.createEnd N))).sum = 0 := by
          refine List.sum_eq_zero fun x hx => ?_
          obtain ⟨i, -, rfl⟩ := List.mem_map.mp hx
          rfl
        rw [hzero, add_zero]
        rfl
    | worker w =>
        rcases exec_worker hσ with ⟨hq, -⟩ | ⟨m, ms, y, hq, hy, rfl⟩
        · exact absurd hq he
        · rw [hsvc] at hy
          have hd := Deliver.mk w m ms y hq hy
          exact ⟨(hd.total fun _ _ _ hf => PlqWorker.rows_feed hf).trans h.total,
            hd.forall_node (fun _ _ _ hx hf => PlqWorker.Sorted.feed hx hf) h.sorted⟩
    | _ => exact absurd trivial hcall

/-- Nothing has been scheduled, fed or sent yet. -/
theorem init_conserved (S : Strategy N DIM) (nw : Nat) :
    (init S (Build (Row ℚ DIM)) nw).Conserved where
  total := by
    rw [Net.total_of_drained fun _ => rfl]
    exact Finset.sum_eq_zero fun w _ => rfl
  sorted := fun _ => List.Pairwise.nil

/-- After the end of the stream the drained workers hold no pane any more. -/
theorem Handled.paneSet_eq_nil {R : Type} [PrefQuery (Row ℚ DIM) R] {σ : PlqState S R}
    (h : σ.Handled c Rf) (hend : σ.ended = true) (hd : σ.Drained) (w : Fin N) :
    (σ.net.node w).1.paneSet = [] := by
  obtain ⟨v, hs, -, -, -, hnil⟩ := h.view
  have hv := hs.eq_node hd
  rw [List.eq_nil_iff_forall_not_mem]
  intro r hr
  have hcell := hnil hend r.id w
  rw [← hv] at hcell
  simp only [viewCells, PlqWorker.cell, List.map_eq_nil_iff, List.filter_eq_nil_iff] at hcell
  exact hcell r hr (by simp)

/-- No tuple of a state is lost or duplicated: the deques are strictly increasing, and at the end the
emitted results sets have been fed, together, every scheduled tuple once, each in a results set of
its pane. -/
structure TuplesKept (σ : PlqState S (Build (Row ℚ DIM))) : Prop where
  sorted : ∀ w, (σ.net.node w).1.Sorted
  fed : σ.ended = true → σ.Drained → ∑ w, fedRows (σ.emitted w) = σ.scheduledRows

/-- Where every message sent has been handled, the tuples scheduled are those fed. -/
theorem Conserved.tuplesKept (h : σ.Conserved) (hh : σ.Handled c Rf) : σ.TuplesKept where
  sorted := h.sorted
  fed := by
    intro hend hd
    rw [← h.total, Net.total_of_drained hd]
    refine Finset.sum_congr rfl fun w _ => ?_
    rw [PlqWorker.rows, hh.paneSet_eq_nil hend hd w, List.append_nil]
    rfl

/-- No run of the out-of-order pipeline aborts, and each leads to a state in which the tuples are
kept. -/
def KeepsTuples (S : Strategy N DIM) (wp sp paneLength nw : Nat) : Prop :=
  ∀ es, Valid (oop wp sp paneLength) (fun _ _ => True) es (init S (Build (Row ℚ DIM)) nw) →
    ∃ σ, run (oop wp sp paneLength) es (init S _ nw) = some σ ∧ σ.TuplesKept

end PlqState

open PlqState

/-- **Every strategy that refines the ledger keeps the tuples.** -/
theorem Strategy.Refinement.keepsTuples {S : Strategy N DIM} (Rf : S.Refinement)
    (wp sp paneLength : Nat) {nw : Nat} (hpos : 0 < nw) (hle : nw ≤ N) :
    KeepsTuples S wp sp paneLength nw := by
  intro es hes
  have hi : (oop wp sp paneLength).iop = false := rfl
  obtain ⟨σ, hrun, hc, hh⟩ := Valid.induction
    (P := fun σ => σ.Conserved ∧ σ.Handled (oop wp sp paneLength) Rf)
    (fun σ e h he _ => by
      obtain ⟨σ', hσ', hh'⟩ := h.2.step hi he
      exact ⟨σ', hσ', h.1.step h.2 hi he hσ', hh'⟩)
    hes ⟨init_conserved S nw, init_handled _ Rf hpos hle⟩
  exact ⟨σ, hrun, hc.tuplesKept hh⟩

/-- **No tuple is lost or duplicated by elasticity**, for each of the three strategies with
out-of-order workers. -/
theorem tuples_kept (wp sp paneLength : Nat) {nw : Nat} (hpos : 0 < nw) (hle : nw ≤ N) :
    KeepsTuples (PbRrSched.strategy N DIM) wp sp paneLength nw ∧
      KeepsTuples (TbRrSched.strategy N DIM) wp sp paneLength nw ∧
      KeepsTuples (AdaptiveSched.strategy N DIM) wp sp paneLength nw :=
  ⟨(PbRrSched.refinement N DIM).keepsTuples wp sp paneLength hpos hle,
    (TbRrSched.refinement N DIM).keepsTuples wp sp paneLength hpos hle,
    (AdaptiveSched.refinement N DIM).keepsTuples wp sp paneLength hpos hle⟩

/-- A pane migrates, another one is created again behind a later one, and the stream ends. -/
theorem tuples_kept_witness :
    ∃ σ, run (oop 2 1 1) [.tuple (idleEnv 2) (tupleOf 0), .tuple (idleEnv 2) (tupleOf 2),
        .remove (idleEnv 2) [0], .worker 0, .tuple (idleEnv 2) (tupleOf 0), .add [0],
        .progress (idleEnv 2) 0 1, .finish, .worker 0, .worker 0, .worker 0, .worker 1, .worker 1,
        .worker 1, .worker 1, .worker 1, .worker 1]
        (init (AdaptiveSched.strategy 2 1) _ 2) = some σ ∧ σ.TuplesKept :=
  (tuples_kept 2 1 1 (by decide) (by decide)).2.2 _ (by decide +kernel)

end ElasticPPQ
