import ElasticPPQ.Lib.Lifetime
import ElasticPPQ.Plq.Conservation
import ElasticPPQ.Plq.OutOfOrder
import ElasticPPQ.Wlq.Windows

/-! # How a run of the first stage may be completed

Every state of the out-of-order pipeline can be completed (`PlqState.Completes`): the stream ends, and
the workers empty their channels. What has been emitted on the way stays emitted, so that whatever a
later stage gets at some moment is part of what it gets over a complete run. In a complete run the
results sets emitted satisfy the count protocol, pane by pane (`emitted_counted`), and have been fed
the scheduled tuples (`Conserved.tuplesKept`). -/

namespace ElasticPPQ

open FifoNet

variable {N DIM : Nat} {R : Type} [PrefQuery (Row ℚ DIM) R]

namespace PlqState

variable {S : Strategy N DIM} {c : PlqParams} {Rf : S.Refinement} {σ σ' φ : PlqState S R}

/-! ## Emissions stay -/

/-- Nothing emitted is taken back. -/
theorem emitted_exec {e : PlqEvent S} (h : σ.exec c e = some σ') (w : Fin N) :
    σ.emitted w <+: σ'.emitted w := by
  -- the emitter hands nothing to the workers' outputs; a worker appends to its own
  by_cases he : ofEmitter e = true
  · rw [emitted, emitted, exec_net he h]
    exact List.prefix_refl _
  · cases e with
    | worker v =>
        rcases exec_worker h with ⟨-, rfl⟩ | ⟨m, ms, y, hq, hy, rfl⟩
        · exact List.prefix_refl _
        · obtain ⟨o, -, ho⟩ := feed_eq_some.mp hy
          show (σ.net.node w).2 <+: (Function.update σ.net.node v y w).2
          by_cases hw : w = v
          · rw [hw, Function.update_self, ho]
            exact List.prefix_append _ _
          · rw [Function.update_of_ne hw]
    | _ => exact absurd rfl he

/-- What has been emitted stays so along a run. -/
theorem emitted_run {es : List (PlqEvent S)} (h : run c es σ = some σ') (w : Fin N) :
    σ.emitted w <+: σ'.emitted w := by
  induction es generalizing σ with
  | nil =>
      rw [Option.some.inj h]
  | cons e es ih =>
      obtain ⟨σ₁, hσ₁, hrest⟩ := Option.bind_eq_some_iff.mp h
      exact (emitted_exec hσ₁ w).trans (ih hrest)

/-! ## Complete runs -/

/-- `φ` is what `σ` becomes in a run that ends the stream and empties the channels, each of its events
satisfying `C` where it happens. -/
structure Completes (c : PlqParams) (C : S.State → PlqEvent S → Prop) (σ φ : PlqState S R) :
    Prop where
  run : ∃ es, Valid c (fun σ => C σ.sched) es σ ∧ run c es σ = some φ
  ended : φ.ended = true
  drained : φ.Drained

variable {C : S.State → PlqEvent S → Prop}

/-- A completion emits more. -/
theorem Completes.emitted (h : Completes c C σ φ) (w : Fin N) : σ.emitted w <+: φ.emitted w := by
  obtain ⟨es, -, hrun⟩ := h.run
  exact emitted_run hrun w

/-- The first event of a complete run. -/
theorem Completes.step {e : PlqEvent S} (h : Completes c C σ' φ) (he : σ.Enabled c e)
    (hC : C σ.sched e) (hσ' : σ.exec c e = some σ') : Completes c C σ φ where
  run := by
    obtain ⟨es, hes, hrun⟩ := h.run
    refine ⟨e :: es, ⟨he, hC, ?_⟩, ?_⟩
    · rw [hσ']
      exact hes
    · rw [PlqState.run, hσ']
      exact hrun
  ended := h.ended
  drained := h.drained

/-- A complete run is its own completion. -/
theorem Completes.refl (hend : σ.ended = true) (hd : σ.Drained) : Completes c C σ σ :=
  ⟨⟨[], trivial, rfl⟩, hend, hd⟩

/-- Nothing happens in a state that is complete. -/
theorem Completes.eq (h : Completes c C σ φ) (hend : σ.ended = true) (hd : σ.Drained) : φ = σ := by
  obtain ⟨es, hes, hrun⟩ := h.run
  cases es with
  | nil => exact (Option.some.inj hrun).symm
  | cons e es =>
      obtain ⟨w, rfl, hw⟩ := hes.1.eq_worker hend
      exact absurd (hd w) hw

/-- The events that satisfy `C` keep `T`, and none of them aborts. The end of the stream and the
deliveries always satisfy `C`. -/
structure Progresses (c : PlqParams) (C : S.State → PlqEvent S → Prop) (T : PlqState S R → Prop) :
    Prop where
  step : ∀ σ e, T σ → σ.Enabled c e → C σ.sched e → ∃ σ', σ.exec c e = some σ' ∧ T σ'
  finish : ∀ s, C s .finish
  worker : ∀ s w, C s (.worker w)

variable {T : PlqState S R → Prop}

/-- The workers can empty their channels. -/
theorem Progresses.drain (hT : Progresses c C T) (h : T σ) (hend : σ.ended = true) :
    ∃ φ, Completes c C σ φ ∧ φ.scheduled = σ.scheduled := by
  -- every delivery makes the channels shorter
  obtain ⟨n, hn⟩ : ∃ n, n = ∑ w, (σ.net.queue w).length := ⟨_, rfl⟩
  induction n generalizing σ with
  | zero =>
      refine ⟨σ, Completes.refl hend fun w => List.length_eq_zero_iff.mp ?_, rfl⟩
      exact Finset.sum_eq_zero_iff.mp hn.symm w (Finset.mem_univ w)
  | succ n ih =>
      obtain ⟨w, -, hw⟩ := Finset.exists_ne_zero_of_sum_ne_zero
        (hn.symm.trans_ne (Nat.succ_ne_zero n))
      have hne : σ.net.queue w ≠ [] := fun hnil => hw (List.length_eq_zero_iff.mpr hnil)
      obtain ⟨m, ms, hq⟩ := List.exists_cons_of_ne_nil hne
      obtain ⟨σ', hσ', h'⟩ := hT.step σ (.worker w) h hne (hT.worker _ w)
      have hexec := hσ'
      simp only [exec, hq] at hexec
      obtain ⟨y, -, rfl⟩ := Option.map_eq_some_iff.mp hexec
      have hlength : ∑ v, (Function.update σ.net.queue w ms v).length =
          ∑ v, Function.update (fun v => (σ.net.queue v).length) w ms.length v := by
        refine Finset.sum_congr rfl fun v _ => ?_
        by_cases hv : v = w
        · rw [hv, Function.update_self, Function.update_self]
        · rw [Function.update_of_ne hv, Function.update_of_ne hv]
      have hsum := Lifetime.Memory.sum_update_add (fun v => (σ.net.queue v).length) w ms.length
      rw [hq, List.length_cons] at hsum
      have hshorter : n = ∑ v, (Function.update σ.net.queue w ms v).length := by
        rw [hlength]
        omega
      obtain ⟨φ, hφ, hsched⟩ := ih h' hend hshorter
      exact ⟨φ, hφ.step (e := .worker w) hne (hT.worker _ w) hσ', hsched⟩

/-- **Every state can be completed**, without another tuple. -/
theorem Progresses.completes (hT : Progresses c C T) (h : T σ) :
    ∃ φ, Completes c C σ φ ∧ φ.scheduled = σ.scheduled := by
  cases hend : σ.ended with
  | true => exact hT.drain h hend
  | false =>
      obtain ⟨σ', hσ', h'⟩ := hT.step σ .finish h hend (hT.finish _)
      have hexec := hσ'
      cases hexec
      obtain ⟨φ, hφ, hsched⟩ := hT.drain h' rfl
      exact ⟨φ, hφ.step (e := .finish) hend (hT.finish _) hσ', hsched⟩

/-- What the events keep, a complete run keeps. -/
theorem Progresses.completed (hT : Progresses c C T) (h : T σ) (hφ : Completes c C σ φ) : T φ := by
  obtain ⟨es, hes, hrun⟩ := hφ.run
  obtain ⟨φ', hφ', h'⟩ := Valid.induction (P := T) (fun σ e => hT.step σ e) hes h
  rw [hrun] at hφ'
  exact Option.some.inj hφ' ▸ h'

/-- **Every state of the out-of-order pipeline can be completed.** -/
theorem Handled.completes (h : σ.Handled c Rf) (hi : c.iop = false) :
    ∃ φ, Completes c (fun _ _ => True) σ φ ∧ φ.scheduled = σ.scheduled :=
  Progresses.completes (T := fun σ => σ.Handled c Rf)
    ⟨fun _ _ h he _ => h.step hi he, fun _ => trivial, fun _ _ => trivial⟩ h

/-! ## What a complete run has emitted -/

/-- All the results sets emitted. -/
def emissions (σ : PlqState S R) : Multiset (Rset R) := ∑ w, (σ.emitted w : Multiset (Rset R))

omit [PrefQuery (Row ℚ DIM) R] in
/-- What has been emitted at all has been emitted by some worker. -/
theorem mem_emissions {r : Rset R} : r ∈ σ.emissions ↔ ∃ w, r ∈ σ.emitted w := by
  rw [emissions, Multiset.mem_sum]
  simp

omit [PrefQuery (Row ℚ DIM) R] in
/-- The number of results sets of a pane, by the count protocol. -/
theorem count_emissions {p n : Nat} (h : CountProtocol σ.emitted p n) :
    (σ.emissions.map Rset.id).count p = n := by
  have hmap : σ.emissions.map Rset.id =
      ∑ w, (((σ.emitted w).map Rset.id : List Nat) : Multiset Nat) :=
    map_sum (Multiset.mapAddMonoidHom Rset.id) _ _
  rw [← h.total, hmap, Multiset.count_sum']
  refine Finset.sum_congr rfl fun w _ => ?_
  rw [Multiset.coe_count, List.count, List.countP_map, List.countP_eq_length_filter]
  congr 1

/-- Once the channels are empty, a pane that is neither closed nor has a partition has left no
trace. -/
def Untouched (c : PlqParams) (σ : PlqState S R) : Prop :=
  ∃ v, Settles (PlqWorker.svcOf c.iop c.wp c.sp) σ.net v ∧
    ∀ p, σ.nextPaneId ≤ p → σ.pInstances p = 0 → ∀ w, viewCells v p w = ([], [])

/-- Panes that nobody has a partition of have not been touched. -/
theorem Handled.untouched (h : σ.Handled c Rf) : σ.Untouched c := by
  obtain ⟨v, hs, -, htr, -⟩ := h.view
  exact ⟨v, hs, htr.untouched⟩

/-- So the panes emitted are closed or have a partition. -/
theorem Untouched.of_mem (h : σ.Untouched c) (hd : σ.Drained) {r : Rset R} (hr : r ∈ σ.emissions) :
    r.id < σ.nextPaneId ∨ σ.pInstances r.id ≠ 0 := by
  obtain ⟨w, hw⟩ := mem_emissions.mp hr
  obtain ⟨v, hs, huntouched⟩ := h
  by_contra hno
  obtain ⟨hge, hzero⟩ := not_or.mp hno
  have hcell := huntouched r.id (Nat.not_lt.mp hge) (not_not.mp hzero) w
  rw [viewCells, ← hs.eq_node hd, PlqWorker.cell, Prod.mk.injEq] at hcell
  have hnil := List.map_eq_nil_iff.mp hcell.2
  rw [List.filter_eq_nil_iff] at hnil
  exact hnil r hw (decide_eq_true rfl)

/-- **In a complete run the panes emitted satisfy the count protocol.** -/
theorem Good.emitted_counted (h : σ.Good c Rf) (hu : σ.Untouched c) (hend : σ.ended = true)
    (hd : σ.Drained) {r : Rset R} (hr : r ∈ σ.emissions) :
    CountProtocol σ.emitted r.id ((σ.emissions.map Rset.id).count r.id) := by
  have hcount := h.countProtocol_touched hend hd (hu.of_mem hd hr)
  rw [count_emissions hcount]
  exact hcount

/-- The table of the sizes counts the tuples scheduled. -/
def Sized (σ : PlqState S R) : Prop :=
  ∀ p, (S.base σ.sched).size p = σ.scheduled.countP fun t => t.paneId = p

omit [PrefQuery (Row ℚ DIM) R] in
/-- A pane has tuples if and only if one has been scheduled. -/
theorem Sized.ne_zero_iff (h : σ.Sized) (p : Nat) :
    (S.base σ.sched).size p ≠ 0 ↔ ∃ t ∈ σ.scheduled, t.paneId = p := by
  rw [h p, ← Nat.pos_iff_ne_zero, List.countP_pos_iff]
  simp

omit [PrefQuery (Row ℚ DIM) R] in
/-- The stage as constructed has its tables in step. -/
theorem init_sized (Rf : S.Refinement) (nw : Nat) : (init S R nw).Sized := by
  intro p
  show (S.base (S.new nw)).size p = 0
  rw [Rf.base_new]
  rfl

/-- **Every event keeps the sizes right.** -/
theorem Sized.step (h : σ.Sized) (hr : σ.Ready c Rf) {e : PlqEvent S} (he : σ.Enabled c e)
    (hle : c.iop = true → ∀ t ∈ scheduledBy e, σ.nextPaneId ≤ t.paneId)
    (hσ' : σ.exec c e = some σ') : σ'.Sized := by
  -- a call counts the tuples that it schedules; the end of the stream and the workers count none
  by_cases hcall : Calls e
  · obtain ⟨σ₁, hσ₁, hem⟩ := hr.emits hcall he hle
    obtain rfl := Option.some.inj (hσ'.symm.trans hσ₁)
    intro p
    rw [hem.size, hem.scheduled, List.countP_append, h p]
  · cases e with
    | finish =>
        obtain ⟨s', hsched, -, -, hbase⟩ := Rf.broadcastEndToW hr.inv
        rw [exec, hsched] at hσ'
        cases hσ'
        intro p
        show (S.base s').size p = _
        rw [hbase]
        exact h p
    | worker w =>
        rcases exec_worker hσ' with ⟨-, rfl⟩ | ⟨m, ms, y, -, -, rfl⟩
        · exact h
        · exact h
    | _ => exact absurd trivial hcall

/-- **The panes of a complete run** are the closed ones and those with a partition. -/
theorem Good.mem_emissions_iff (h : σ.Good c Rf) (hu : σ.Untouched c) (hend : σ.ended = true)
    (hd : σ.Drained) (p : Nat) :
    p ∈ σ.emissions.map Rset.id ↔ p < σ.nextPaneId ∨ σ.pInstances p ≠ 0 := by
  constructor
  · intro hp
    obtain ⟨r, hr, rfl⟩ := Multiset.mem_map.mp hp
    exact hu.of_mem hd hr
  · intro hp
    obtain ⟨w, r, hr, hid, -⟩ := (h.countProtocol_touched hend hd hp).final
    exact hid ▸ Multiset.mem_map_of_mem _ (mem_emissions.mpr ⟨w, hr⟩)

/-- Where no pane has a partition without having tuples, they are the closed ones and those of the
tuples. -/
theorem Good.touched_iff (h : σ.Good c Rf) (hs : σ.Sized)
    (hfilled : ∀ p, σ.nextPaneId ≤ p → (S.base σ.sched).size p = 0 → σ.pInstances p = 0) (p : Nat) :
    p < σ.nextPaneId ∨ σ.pInstances p ≠ 0 ↔
      p < σ.nextPaneId ∨ ∃ t ∈ σ.scheduled, t.paneId = p := by
  rw [← hs.ne_zero_iff]
  by_cases hlt : p < σ.nextPaneId
  · simp only [hlt, true_or]
  · have hge := Nat.not_lt.mp hlt
    simp only [hlt, false_or]
    exact ⟨fun hne hz => hne (hfilled p hge hz), (Rf.sound h.inv).sized p hge⟩

/-! ## The tuples of a complete run -/

section Recorded

variable {β β' ψ : PlqState S (Build (Row ℚ DIM))}

/-- The invariants of a recording stage of the out-of-order pipeline. -/
structure Tracked (c : PlqParams) (Rf : S.Refinement) (β : PlqState S (Build (Row ℚ DIM))) : Prop where
  good : β.Good c Rf
  handled : β.Handled c Rf
  conserved : β.Conserved
  sized : β.Sized

/-- The stage as constructed. -/
theorem init_tracked (c : PlqParams) (Rf : S.Refinement) {nw : Nat} (hpos : 0 < nw) (hle : nw ≤ N) :
    (init S (Build (Row ℚ DIM)) nw).Tracked c Rf :=
  ⟨init_good c Rf hpos hle, init_handled c Rf hpos hle, init_conserved S nw, init_sized Rf nw⟩

/-- Every event that is as the strategy needs it keeps the invariants, and none aborts. -/
theorem Tracked.step (h : β.Tracked c Rf) (hi : c.iop = false) {e : PlqEvent S}
    (he : β.Enabled c e) (hok : β.StepOk Rf e) : ∃ β', β.exec c e = some β' ∧ β'.Tracked c Rf := by
  obtain ⟨β', hβ', hgood, -⟩ := h.good.step hi he hok
  obtain ⟨β'', hβ'', hhandled⟩ := h.handled.step hi he
  obtain rfl := Option.some.inj (hβ'.symm.trans hβ'')
  exact ⟨β', hβ', hgood, hhandled, h.conserved.step h.handled hi he hβ',
    h.sized.step h.good.ready he (fun hi' => absurd (hi.symm.trans hi') Bool.false_ne_true) hβ'⟩

/-- **What the second stage needs to know of the first one** in the runs whose events satisfy `C`:
every complete run counts right, and has emitted the scheduled tuples. -/
structure Forecast (c : PlqParams) (C : S.State → PlqEvent S → Prop)
    (T : PlqState S (Build (Row ℚ DIM)) → Prop) : Prop extends Progresses c C T where
  counted : ∀ β, T β → β.ended = true → β.Drained → ∀ r ∈ β.emissions,
    CountProtocol β.emitted r.id ((β.emissions.map Rset.id).count r.id)
  fed : ∀ β, T β → β.ended = true → β.Drained → ∑ w, fedRows (β.emitted w) = β.scheduledRows

/-- **The out-of-order pipeline**, where every event is as the strategy needs it. -/
theorem Tracked.forecast (Rf : S.Refinement) (hi : c.iop = false)
    {C : S.State → PlqEvent S → Prop}
    (hC : ∀ (β : PlqState S (Build (Row ℚ DIM))) e, Rf.Inv β.sched → C β.sched e → β.StepOk Rf e)
    (finish : ∀ s, C s .finish) (worker : ∀ s w, C s (.worker w)) :
    Forecast c C (Tracked c Rf) where
  step := fun β e h he hc => h.step hi he (hC β e h.good.inv hc)
  finish := finish
  worker := worker
  counted := fun _ h hend hd _ hr => h.good.emitted_counted h.handled.untouched hend hd hr
  fed := fun _ h hend hd => (h.conserved.tuplesKept h.handled).fed hend hd

/-- The tuples of the panes of window `k` among those scheduled. -/
def windowRows (wp sp : Nat) (scheduled : List (Tuple DIM)) (k : Nat) : Multiset (Row ℚ DIM) :=
  (scheduled.filter fun t => InWindow wp sp k t.paneId).map Tuple.toRow

/-- The tuples fed to the results sets of the panes of window `k`. -/
theorem filter_fedRows (wp sp k : Nat) (l : List (Rset (Build (Row ℚ DIM)))) :
    ((fedRows l).filter fun x => InWindow wp sp k x.1).map Prod.snd =
      ((l.filter fun r => InWindow wp sp k r.id).map fun r => r.set.tuples).sum := by
  induction l with
  | nil => rfl
  | cons r l ih =>
      rw [fedRows_cons, Multiset.filter_add, Multiset.map_add, ih, Multiset.filter_map,
        Multiset.map_map]
      -- the results set belongs to a pane of the window or not
      by_cases hr : InWindow wp sp k r.id
      · have hself : r.set.tuples.filter
            ((fun x : Nat × Row ℚ DIM => InWindow wp sp k x.1) ∘ fun x => (r.id, x)) =
            r.set.tuples := Multiset.filter_eq_self.mpr fun _ _ => hr
        rw [List.filter_cons_of_pos (by simpa using hr), List.map_cons, List.sum_cons, hself]
        congr 1
        exact Multiset.map_id _
      · have hnone : r.set.tuples.filter
            ((fun x : Nat × Row ℚ DIM => InWindow wp sp k x.1) ∘ fun x => (r.id, x)) = 0 :=
          Multiset.filter_eq_nil.mpr fun _ _ => hr
        rw [List.filter_cons_of_neg (by simpa using hr), hnone, Multiset.map_zero, zero_add]

/-- Selecting elements is additive. -/
def filterHom {α : Type} (P : α → Prop) [DecidablePred P] : Multiset α →+ Multiset α where
  toFun := Multiset.filter P
  map_zero' := Multiset.filter_zero P
  map_add' := Multiset.filter_add P

/-- **In a complete run the results sets of the panes of a window have been fed its tuples.** -/
theorem window_fed (hfed : ∑ w, fedRows (ψ.emitted w) = ψ.scheduledRows) (wp sp k : Nat) :
    ((ψ.emissions.filter fun r => InWindow wp sp k r.id).map fun r => r.set.tuples).sum =
      windowRows wp sp ψ.scheduled k := by
  -- the tuples of one window, as a homomorphism, so that it goes under the sum
  obtain ⟨f, hf⟩ : ∃ f : Multiset (Nat × Row ℚ DIM) →+ Multiset (Row ℚ DIM),
      ∀ m, f m = (m.filter fun x => InWindow wp sp k x.1).map Prod.snd :=
    ⟨(Multiset.mapAddMonoidHom Prod.snd).comp
      (filterHom fun x => InWindow wp sp k x.1), fun m => rfl⟩
  have hfed := congrArg f hfed
  have hsched : f ψ.scheduledRows = windowRows wp sp ψ.scheduled k := by
    rw [hf, scheduledRows, Multiset.filter_coe, List.filter_map, Multiset.map_coe, List.map_map]
    rfl
  have hsum : ((ψ.emissions.filter fun r => InWindow wp sp k r.id).map fun r => r.set.tuples).sum =
      ∑ w, f (fedRows (ψ.emitted w)) := by
    have hone : ∀ w, f (fedRows (ψ.emitted w)) =
        ((((ψ.emitted w : Multiset (Rset (Build (Row ℚ DIM)))).filter
          fun r => InWindow wp sp k r.id)).map fun r => r.set.tuples).sum := by
      intro w
      rw [hf, filter_fedRows, Multiset.filter_coe, Multiset.map_coe, Multiset.sum_coe]
    rw [Finset.sum_congr rfl fun w _ => hone w]
    exact map_sum (Multiset.sumAddMonoidHom.comp ((Multiset.mapAddMonoidHom fun r => r.set.tuples).comp
      (filterHom fun r : Rset (Build (Row ℚ DIM)) => InWindow wp sp k r.id))) _ _
  rw [hsum, ← map_sum, hfed, hsched]

end Recorded

end PlqState

end ElasticPPQ
