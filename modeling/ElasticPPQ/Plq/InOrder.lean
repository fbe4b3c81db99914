import ElasticPPQ.Plq.Protocol

/-! # The count protocol in the in-order pipeline

With `IOP` defined the tuples are scheduled by nondecreasing timestamp, and a worker closes a pane
when a later one arrives. Every strategy then guarantees the count protocol for every pane up to the
last one of the stream. The branch of `PLQ_Worker_IOP::svc` for an existing pane sends the earlier
results sets and leaves them in the deque; there are none, because the deque never holds more than
one, so every results set allocated is emitted once at most (`PlqWorker.Accounted`). -/

namespace ElasticPPQ

open FifoNet

variable {N DIM : Nat} {R : Type}

/-! ## A worker emits what it allocates, once -/

namespace PlqWorker

/-- Which of its results sets a worker has emitted or holds in its deque. -/
def addrs (x : PlqWorker R × List (Rset R)) : List Nat := (x.2 ++ x.1.paneSet).map Rset.addr

/-- **Every results set allocated is either emitted or in the deque, and there once.** -/
structure Accounted (x : PlqWorker R × List (Rset R)) : Prop where
  single : x.1.paneSet.length ≤ 1
  perm : (addrs x).Perm (List.range x.1.allocs)

/-- No results set has been emitted twice. -/
theorem Accounted.nodup {x : PlqWorker R × List (Rset R)} (h : Accounted x) :
    (x.2.map Rset.addr).Nodup := by
  have hall : (addrs x).Nodup := h.perm.nodup_iff.mpr List.nodup_range
  rw [addrs, List.map_append] at hall
  exact hall.of_append_left

/-- A worker as constructed. -/
theorem accounted_new : Accounted (PlqWorker.new R, []) :=
  ⟨Nat.zero_le _, List.Perm.refl _⟩

/-- In a deque of at most one pane nothing stands before a results set. -/
theorem before_eq_nil {w : PlqWorker R} (hw : w.paneSet.length ≤ 1) {p : Nat} {r : Rset R}
    {rest : List (Rset R)} (hl : w.lowerBound p = r :: rest) : w.before p = [] := by
  have hsplit := congrArg List.length (before_append_lowerBound w p)
  rw [hl, List.length_append, List.length_cons] at hsplit
  exact List.length_eq_zero_iff.mp (by omega)

/-- A `NEW_INST` message touches the counters only. -/
theorem addrs_setInstances {w w' : PlqWorker R} {t : Tuple DIM} (h : w.setInstances t = some w')
    (out : List (Rset R)) : w'.allocs = w.allocs ∧ addrs (w', out) = addrs (w, out) := by
  have hsplit := before_append_lowerBound w t.paneId
  unfold setInstances at h
  cases hl : w.lowerBound t.paneId with
  | nil => simp [hl] at h
  | cons r rest =>
      rw [hl] at hsplit h
      -- the pane is the first one not before it, or the message would abort
      by_cases hr : r.id = t.paneId
      · simp only [hr, ne_eq, not_true_eq_false, if_false, Option.some.injEq] at h
        subst h
        refine ⟨rfl, ?_⟩
        simp only [addrs, ← hsplit, List.map_append, List.map_cons]
        rfl
      · simp [hr] at h

variable [PrefQuery (Row ℚ DIM) R]

/-- A regular tuple or an `EMPTYPANE` message: the earlier results set is sent out as the new one is
allocated. -/
theorem addrs_updatePaneIop (wp sp : Nat) {w : PlqWorker R} (hw : w.paneSet.length ≤ 1)
    (t : Tuple DIM) (out : List (Rset R)) :
    (updatePaneIop wp sp w t).allocs = w.allocs ∧
        addrs (updatePaneIop wp sp w t, out ++ w.before t.paneId) = addrs (w, out) ∨
      (updatePaneIop wp sp w t).allocs = w.allocs + 1 ∧
        addrs (updatePaneIop wp sp w t, out ++ w.before t.paneId)
          = addrs (w, out) ++ [w.allocs] := by
  have hsplit := before_append_lowerBound w t.paneId
  cases hl : w.lowerBound t.paneId with
  -- the deque holds older panes only, which are emitted, and a new results set is allocated
  | nil =>
      rw [hl, List.append_nil] at hsplit
      refine Or.inr ⟨by simp only [updatePaneIop, hl], ?_⟩
      simp [addrs, updatePaneIop, hl, hsplit, newRset]
  -- the deque holds the pane itself
  | cons r rest =>
      have hnil := before_eq_nil hw hl
      rw [hl, hnil, List.nil_append] at hsplit
      refine Or.inl ⟨by simp only [updatePaneIop, hl], ?_⟩
      simp [addrs, updatePaneIop, hl, hnil, ← hsplit]

/-- **One message.** An in-order worker keeps account of its results sets. -/
theorem Accounted.feed {wp sp : Nat} {x y : PlqWorker R × List (Rset R)} (h : Accounted x)
    {t : Tuple DIM} (hy : feed (svcIop wp sp) x t = some y) : Accounted y := by
  obtain ⟨w, out⟩ := x
  obtain ⟨w', out'⟩ := y
  obtain ⟨o, hsvc, ho⟩ := feed_eq_some.mp hy
  replace hsvc : svcIop wp sp w t = some (w', o) := hsvc
  replace ho : out' = out ++ o := ho
  subst ho
  refine ⟨svcIop_length_le wp sp h.single hsvc, ?_⟩
  -- a results set is either allocated by the message or not
  have hkeep : w'.allocs = w.allocs → addrs (w', out ++ o) = addrs (w, out) →
      (addrs (w', out ++ o)).Perm (List.range w'.allocs) := by
    intro halloc haddrs
    rw [halloc, haddrs]
    exact h.perm
  have hgrow : w'.allocs = w.allocs + 1 →
      (addrs (w', out ++ o)).Perm (addrs (w, out) ++ [w.allocs]) →
      (addrs (w', out ++ o)).Perm (List.range w'.allocs) := by
    intro halloc haddrs
    rw [halloc, List.range_succ]
    exact haddrs.trans (h.perm.append_right _)
  have hupdate : updatePaneIop wp sp w t = w' → w.before t.paneId = o →
      (addrs (w', out ++ o)).Perm (List.range w'.allocs) := by
    rintro rfl rfl
    rcases addrs_updatePaneIop wp sp h.single t out with ⟨halloc, haddrs⟩ | ⟨halloc, haddrs⟩
    · exact hkeep halloc haddrs
    · exact hgrow halloc (List.Perm.of_eq haddrs)
  unfold svcIop at hsvc
  cases hty : t.type with
  | «end» =>
      rw [hty] at hsvc
      cases hsvc
      exact hkeep rfl (by simp [addrs])
  | newInst =>
      rw [hty] at hsvc
      obtain ⟨w₁, hw₁, he⟩ := Option.map_eq_some_iff.mp hsvc
      cases he
      obtain ⟨halloc, haddrs⟩ := addrs_setInstances hw₁ out
      exact hkeep halloc (by rw [List.append_nil, haddrs])
  | flush =>
      rw [hty] at hsvc
      cases hsvc
      refine hkeep rfl ?_
      simp only [addrs, List.append_nil, List.map_append, List.map_map]
      refine congrArg _ (List.map_congr_left fun r _ => ?_)
      show (if t.paneId ≤ r.id then r.setNoInstances 0 else r).addr = r.addr
      split <;> rfl
  | lull =>
      rw [hty] at hsvc
      cases hsvc
      refine hgrow rfl ?_
      simp only [addrs, List.map_append, List.map_cons, List.map_nil, List.append_assoc]
      exact List.perm_append_comm.append_left _
  | regular =>
      rw [hty] at hsvc
      cases hsvc
      exact hupdate rfl rfl
  | emptyPane =>
      rw [hty] at hsvc
      cases hsvc
      exact hupdate rfl rfl
  | unspecified =>
      rw [hty] at hsvc
      cases hsvc
      exact hupdate rfl rfl
  | punct =>
      rw [hty] at hsvc
      cases hsvc
      exact hupdate rfl rfl

end PlqWorker

/-! ## Runs -/

open PlqState

variable [PrefQuery (Row ℚ DIM) R]

/-- Only a delivery touches the workers, and it feeds one of them. -/
theorem PlqState.forall_node_exec {S : Strategy N DIM} {c : PlqParams} {σ σ' : PlqState S R}
    {e : PlqEvent S} (hσ : σ.exec c e = some σ') {P : PlqWorker R × List (Rset R) → Prop}
    (step : ∀ x t y, P x → feed (PlqWorker.svcOf c.iop c.wp c.sp) x t = some y → P y)
    (h : ∀ w, P (σ.net.node w)) (w : Fin N) : P (σ'.net.node w) := by
  have hmap : ∀ {o : Option (S.State × Sends N DIM)}, o.map σ.sent = some σ' →
      σ'.net.node = σ.net.node := by
    intro o ho
    obtain ⟨x, -, rfl⟩ := Option.map_eq_some_iff.mp ho
    rfl
  -- only an event of a worker changes a node, and only that of the worker
  cases e with
  | tuple env t =>
      obtain ⟨x, -, rfl⟩ := Option.map_eq_some_iff.mp hσ
      exact h w
  | progress env ts pId => rw [hmap hσ]; exact h w
  | add ws =>
      obtain ⟨x, -, rfl⟩ := Option.map_eq_some_iff.mp hσ
      exact h w
  | remove env ws => rw [hmap hσ]; exact h w
  | finish => cases hσ; exact h w
  | worker i =>
      rcases exec_worker hσ with ⟨-, rfl⟩ | ⟨m, ms, y, hq, hy, rfl⟩
      · exact h w
      · exact (Deliver.mk i m ms y hq hy).forall_node step h w

/-- The stage of the in-order pipeline. -/
def inOrder (wp sp paneLength : Nat) : PlqParams := ⟨wp, sp, paneLength, true⟩

/-- What the in-order pipeline guarantees in a state: no deque holds more than one pane, nothing has
been emitted twice, and at the end every pane up to the last one scheduled has been counted right. -/
structure InOrderCounted {S : Strategy N DIM} (σ : PlqState S R) : Prop where
  single : ∀ w, (σ.net.node w).1.paneSet.length ≤ 1
  once : ∀ w, ((σ.emitted w).map Rset.addr).Nodup
  counted : σ.ended = true → σ.Drained → ∀ t ∈ σ.scheduled, ∀ p, p ≤ t.paneId →
    CountProtocol σ.emitted p (σ.pInstances p)

/-- No run of the in-order pipeline with strategy `S` aborts, and each leads to a state that is
counted right. -/
def InOrderProtocol (S : Strategy N DIM) (R : Type) [PrefQuery (Row ℚ DIM) R]
    (wp sp paneLength nw : Nat) : Prop :=
  ∀ es, Valid (inOrder wp sp paneLength) (fun _ _ => True) es (init S R nw) →
    ∃ σ, run (inOrder wp sp paneLength) es (init S R nw) = some σ ∧ InOrderCounted σ

/-- **Every strategy that refines the ledger counts right in the in-order pipeline.** -/
theorem Strategy.Refinement.inOrderProtocol {S : Strategy N DIM} (Rf : S.Refinement)
    (wp sp paneLength : Nat) {nw : Nat} (hpos : 0 < nw) (hle : nw ≤ N) :
    InOrderProtocol S R wp sp paneLength nw := by
  intro es hes
  obtain ⟨c, hc⟩ : ∃ c, c = inOrder wp sp paneLength := ⟨_, rfl⟩
  have hi : c.iop = true := by rw [hc]; rfl
  rw [← hc] at hes ⊢
  have hsvc : (PlqWorker.svcOf c.iop c.wp c.sp : Svc (PlqWorker R) (Tuple DIM) (Rset R))
      = PlqWorker.svcIop c.wp c.sp := by
    funext w t
    rw [PlqWorker.svcOf, if_pos hi]
  have hstep : ∀ (σ : PlqState S R) e,
      (σ.Good c Rf ∧ ∀ w, PlqWorker.Accounted (σ.net.node w)) → σ.Enabled c e →
      True → ∃ σ', σ.exec c e = some σ' ∧ σ'.Good c Rf ∧
        ∀ w, PlqWorker.Accounted (σ'.net.node w) := by
    rintro σ e ⟨hgood, hacc⟩ he -
    obtain ⟨σ', hσ', hgood', -⟩ := hgood.stepIop hi he
    refine ⟨σ', hσ', hgood', forall_node_exec hσ' (fun x t y hx hy => ?_) hacc⟩
    rw [hsvc] at hy
    exact hx.feed hy
  obtain ⟨σ, hrun, hgood, hacc⟩ := Valid.induction hstep hes
    ⟨init_good c Rf hpos hle, fun _ => PlqWorker.accounted_new⟩
  refine ⟨σ, hrun, fun w => (hacc w).single, fun w => (hacc w).nodup, ?_⟩
  intro hend hd t ht p hp
  have hcur := hgood.current hi
  refine hgood.countProtocol_ended hend hd ?_
  -- the tables end with the pane of the last tuple, so a pane up to it is closed or has that tuple
  rcases Nat.lt_or_ge p σ.nextPaneId with hlt | hge
  · exact Or.inl hlt
  · exact Or.inr ⟨t, ht, Nat.le_antisymm ((hcur.le t ht).trans hge) hp⟩

/-- **The count protocol of the in-order pipeline**, for each of the three strategies. -/
theorem inOrder_count_protocol (R : Type) [PrefQuery (Row ℚ DIM) R] (wp sp paneLength : Nat)
    {nw : Nat} (hpos : 0 < nw) (hle : nw ≤ N) :
    InOrderProtocol (PbRrSched.strategy N DIM) R wp sp paneLength nw ∧
      InOrderProtocol (TbRrSched.strategy N DIM) R wp sp paneLength nw ∧
      InOrderProtocol (AdaptiveSched.strategy N DIM) R wp sp paneLength nw :=
  ⟨(PbRrSched.refinement N DIM).inOrderProtocol wp sp paneLength hpos hle,
    (TbRrSched.refinement N DIM).inOrderProtocol wp sp paneLength hpos hle,
    (AdaptiveSched.refinement N DIM).inOrderProtocol wp sp paneLength hpos hle⟩

/-- A tuple of panes of one millisecond, for runs on fixed inputs. -/
def tupleAt (p : Nat) : Tuple 1 :=
  Tuple.createRegular ⟨fun _ => 0, (1000 * p : Nat), 0⟩ 1

/-- A run with two workers of four: pane 0 is split over them, one of them is removed, pane 1 has no
tuple, and the stream ends in pane 2. -/
def splitPaneCountedRun : List (PlqEvent (TbRrSched.strategy 4 1)) :=
  [.tuple () (tupleAt 0), .tuple () (tupleAt 0), .remove () [0], .worker 0, .tuple () (tupleAt 2),
    .add [0], .finish, .worker 1, .worker 1, .worker 0, .worker 2, .worker 3, .worker 1, .worker 0,
    .worker 0, .worker 1]

/-- The state after that run. -/
def splitPaneCountedEnd : PlqState (TbRrSched.strategy 4 1) (Build (Row ℚ 1)) :=
  (run (inOrder 2 1 1) splitPaneCountedRun (init _ _ 2)).get (by decide +kernel)

/-- The channels are empty, and both the split pane and the one without tuples are counted right. -/
theorem inOrder_count_protocol_witness :
    (splitPaneCountedEnd.emitted 0).map Rset.id = [0] ∧
      (splitPaneCountedEnd.emitted 1).map Rset.id = [1, 0, 2] ∧
      ∀ p, p ≤ 2 → CountProtocol splitPaneCountedEnd.emitted p (splitPaneCountedEnd.pInstances p) := by
  have htwo : 0 < 2 := by decide
  obtain ⟨σ, hrun, hcounted⟩ := (inOrder_count_protocol (N := 4) (Build (Row ℚ 1)) 2 1 1 htwo
    (Nat.le_add_right 2 2)).2.1 splitPaneCountedRun (by decide +kernel)
  have hend : σ = splitPaneCountedEnd :=
    Option.some.inj (hrun.symm.trans (Option.some_get _).symm)
  rw [hend] at hcounted
  have hlast : ∃ t ∈ splitPaneCountedEnd.scheduled, t.paneId = 2 := by decide +kernel
  obtain ⟨t, ht, hid⟩ := hlast
  refine ⟨by decide +kernel, by decide +kernel, fun p hp => ?_⟩
  exact hcounted.counted (by decide +kernel) (by decide +kernel) t ht p (hid ▸ hp)

end ElasticPPQ
