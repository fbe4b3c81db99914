import ElasticPPQ.Plq.Ledger

/-! # Routing: every message reaches a worker that can take it

The count protocol asks more of a strategy than it needs in order to run at all. Whatever becomes of
the counts, the workers that the ledger lists for a non-closed pane are activated and have the pane
open once their channels are drained (`Ledger.Routed`), and the panes that have left a trace are the
closed ones and those with a partition (`Ledger.Traced`). Beyond the moves of the ledger two steps
keep this invariant: a first tuple may overwrite the count of its pane, and a pane may be closed with
a lull although it has a partition (`Ledger.Route`). -/

namespace ElasticPPQ

open FifoNet

variable {N DIM : Nat}

/-! ## Cells in the out-of-order pipeline -/

/-- No results set of a cell is lost. -/
theorem length_le_cellStep (p : Nat) (c : Cell) (t : Tuple DIM) :
    c.1.length + c.2.length ≤
      (cellStep false p c t).1.length + (cellStep false p c t).2.length := by
  unfold cellStep
  -- no message takes a set away, it moves between the deque and what was emitted
  cases t.type with
  | «end» => simp [Nat.add_comm]
  | flush => simp [Nat.add_comm]
  | newInst => dsimp only; split <;> simp
  | punct => dsimp only; split <;> simp [Nat.add_comm]
  | lull => dsimp only; split <;> simp
  | _ =>
      dsimp only
      split
      · rename_i h
        simp [h.2]
      · simp

/-- What has left a trace in a cell is never forgotten. -/
theorem cellStep_ne_nil {p : Nat} {c : Cell} (hc : c ≠ ([], [])) (t : Tuple DIM) :
    cellStep false p c t ≠ ([], []) := by
  intro hnil
  have hle := length_le_cellStep p c t
  rw [hnil] at hle
  simp only [List.length_nil, Nat.add_zero, Nat.le_zero, Nat.add_eq_zero_iff,
    List.length_eq_zero_iff] at hle
  exact hc (Prod.ext hle.1 hle.2)

/-- Out of order a pane that has been touched stays so. -/
theorem foldl_cellStep_ne_nil {p : Nat} {c : Cell} (hc : c ≠ ([], [])) (ts : List (Tuple DIM)) :
    ts.foldl (cellStep false p) c ≠ ([], []) := by
  induction ts generalizing c with
  | nil => exact hc
  | cons t ts ih => exact ih (cellStep_ne_nil hc t)

/-- A lull leaves a trace in the cell of its pane. -/
theorem foldl_lull_ne_nil {p : Nat} {c : Cell} {ts : List (Tuple DIM)}
    (h : Tuple.createLull p ∈ ts) : ts.foldl (cellStep false p) c ≠ ([], []) := by
  obtain ⟨l, r, rfl⟩ := List.append_of_mem h
  rw [List.foldl_append, List.foldl_cons]
  refine foldl_cellStep_ne_nil ?_ r
  rw [cellStep_lull, if_pos rfl]
  simp

/-- A tuple or an `EMPTYPANE` message opens the cell of its pane. -/
theorem cellStep_open {c : Cell} {t : Tuple DIM}
    (ht : t.type = .regular ∨ t.type = .emptyPane) : (cellStep false t.paneId c t).1 ≠ [] := by
  rw [cellStep_regular _ _ _ ht]
  by_cases hc : c.1 = []
  · rw [if_pos ⟨rfl, hc⟩]
    exact List.cons_ne_nil _ _
  · rw [if_neg fun h => hc h.2, if_neg fun h => absurd h.1 Bool.false_ne_true]
    exact hc

/-- A message for another pane is not for this cell. -/
theorem cellStep_of_ne {p : Nat} {c : Cell} {t : Tuple DIM} (hp : p ≠ t.paneId)
    (ht : t.type = .regular ∨ t.type = .emptyPane) : cellStep false p c t = c := by
  rw [cellStep_regular _ _ _ ht, if_neg fun h => hp h.1,
    if_neg fun h => absurd h.1 Bool.false_ne_true]

namespace Ledger

/-- The panes that have left a trace at some worker are the closed ones and those with a
partition. -/
structure Traced (L : Ledger N) (c : Cells N) : Prop where
  untouched : ∀ p, L.next ≤ p → L.count p = 0 → ∀ w, c p w = ([], [])
  touched : ∀ p, p < L.next ∨ L.count p ≠ 0 → ∃ w, c p w ≠ ([], [])

/-- **The invariant of routing.** The holders of a non-closed pane are activated, and have the pane
open once they are drained. -/
structure Routed (L : Ledger N) (c : Cells N) : Prop extends Traced L c where
  active : ∀ p, L.next ≤ p → ∀ w ∈ L.holders p, L.active w = true
  opened : ∀ p, L.next ≤ p → ∀ w ∈ L.holders p, (c p w).1 ≠ []

/-- A tuple or an `EMPTYPANE` message is delivered to `w`, and the count of its pane becomes `n`. -/
def deliver (p : Nat) (w : Fin N) (n : Nat) (L : Ledger N) : Ledger N :=
  { L with
    holders := Function.update L.holders p (insert w (L.holders p))
    count := Function.update L.count p n }

section Fields

variable (L : Ledger N) (p : Nat) (w : Fin N) (n : Nat)

/-- A tuple closes no pane. -/
@[simp] theorem deliver_next : (L.deliver p w n).next = L.next := rfl

/-- A tuple activates nobody. -/
@[simp] theorem deliver_active : (L.deliver p w n).active = L.active := rfl

/-- The pane of the tuple gets a holder. -/
@[simp] theorem deliver_holders_self :
    (L.deliver p w n).holders p = insert w (L.holders p) := Function.update_self _ _ _

/-- The pane of the tuple gets a number of partitions. -/
@[simp] theorem deliver_count_self : (L.deliver p w n).count p = n := Function.update_self _ _ _

variable {p}

/-- The other panes keep their holders. -/
theorem deliver_holders_of_ne {q : Nat} (h : q ≠ p) :
    (L.deliver p w n).holders q = L.holders q := Function.update_of_ne h _ _

/-- The other panes keep their numbers of partitions. -/
theorem deliver_count_of_ne {q : Nat} (h : q ≠ p) : (L.deliver p w n).count q = L.count q :=
  Function.update_of_ne h _ _

end Fields

/-- A partition that exists already is delivered to. -/
theorem deliver_eq_self {L : Ledger N} {p : Nat} {w : Fin N} (hw : w ∈ L.holders p) :
    L.deliver p w (L.count p) = L := by
  rw [deliver, Finset.insert_eq_of_mem hw, Function.update_eq_self, Function.update_eq_self]

/-- The steps of a strategy in any run of the out-of-order pipeline. -/
inductive Route : Ledger N → Sends N DIM → Ledger N → Prop
  /-- The moves of the ledger. -/
  | moves {L L' : Ledger N} {l : Sends N DIM} (h : Moves false L l L') : Route L l L'
  /-- The first tuple of a pane overwrites the count. -/
  | reopen (L : Ledger N) (w : Fin N) (t : Tuple DIM) (n : Nat) (ht : t.type = .regular)
      (hp : L.next ≤ t.paneId) (ha : L.active w = true) (hn : n ≠ 0) :
      Route L [(w, t)] (L.deliver t.paneId w n)
  /-- The panes below `pId` are closed, with lull messages for all those without partitions and
  possibly for other ones. -/
  | close (L L' : Ledger N) (ts : ℚ) (nw : Nat) (lulls : List (Nat × Fin N))
      (hp : L.next ≤ L'.next) (hactive : L'.active = L.active) (hholders : L'.holders = L.holders)
      (hcount : ∀ p, L'.next ≤ p → L'.count p = L.count p)
      (hlulls : ∀ p ∈ lulls.map Prod.fst, L.next ≤ p ∧ p < L'.next)
      (hall : ∀ p, L.next ≤ p → p < L'.next → L.count p = 0 → p ∈ lulls.map Prod.fst) :
      Route L
        ((lulls.map fun x => (x.2, Tuple.createLull x.1)) ++
          ((List.finRange N).filter L.active).map fun v =>
            (v, Tuple.createPunctuation ts L'.next nw))
        L'

variable {L L' : Ledger N} {c : Cells N} {l : Sends N DIM}

/-- A trace stays, whatever is sent. -/
theorem Traced.touched_send (h : Traced L c) (l : Sends N DIM) {p : Nat}
    (hp : p < L.next ∨ L.count p ≠ 0) : ∃ w, c.send false l p w ≠ ([], []) := by
  obtain ⟨w, hw⟩ := h.touched p hp
  exact ⟨w, foldl_cellStep_ne_nil hw _⟩

/-- A pane that some worker has open has a partition. -/
theorem Routed.count_ne_zero (h : Routed L c) {p : Nat} (hp : L.next ≤ p) {w : Fin N}
    (hw : w ∈ L.holders p) : L.count p ≠ 0 := by
  intro hz
  apply h.opened p hp w hw
  rw [h.untouched p hp hz w]

/-- The holders of a pane are told a count, and one worker gets a message for it. -/
theorem Routed.deliver (h : Routed L c) {ws : List (Fin N)} {w : Fin N} {t : Tuple DIM} {n nw k : Nat}
    (ht : t.type = .regular ∨ t.type = .emptyPane) (hp : L.next ≤ t.paneId)
    (hws : ∀ v ∈ ws, v ∈ L.holders t.paneId) (ha : L.active w = true) (hk : k ≠ 0)
    (hl : l = (ws.map fun v => (v, Tuple.createNewinst t.paneId n nw)) ++ [(w, t)]) :
    SendsOk false c l ∧ Routed (L.deliver t.paneId w k) (c.send false l) := by
  obtain ⟨m, hm⟩ : ∃ m, m = (Tuple.createNewinst t.paneId n nw : Tuple DIM) := ⟨_, rfl⟩
  have hmsgs : ∀ v, msgsTo v l = List.replicate (ws.count v) m ++ if w = v then [t] else [] := by
    intro v
    rw [hl, msgsTo_append, msgsTo_multicast, msgsTo_cons, msgsTo_nil, hm]
  -- the news keep an open cell open, and leave every other one alone
  have hnews : ∀ p v, ((List.replicate (ws.count v) m).foldl (cellStep false p) (c p v)).1 = [] ↔
      (c p v).1 = [] := by
    intro p v
    by_cases hv : ws.count v = 0
    · rw [hv]
      rfl
    · rw [hm, foldl_newinst _ _ _ _ _ _ hv]
      by_cases hpt : p = t.paneId
      · rw [if_pos hpt, List.map_eq_nil_iff]
      · rw [if_neg hpt]
  have hother : ∀ p, p ≠ t.paneId → ∀ v, c.send false l p v = c p v := by
    intro p hpt v
    rw [Cells.send, hmsgs, List.foldl_append, hm, foldl_newinst_of_ne _ _ hpt]
    by_cases hv : w = v
    · rw [if_pos hv, List.foldl_cons, List.foldl_nil, cellStep_of_ne hpt ht]
    · rw [if_neg hv, List.foldl_nil]
  have hpane : ∀ v, v ∈ insert w (L.holders t.paneId) → (c.send false l t.paneId v).1 ≠ [] := by
    intro v hv
    rw [Cells.send, hmsgs, List.foldl_append]
    by_cases hvw : w = v
    · rw [if_pos hvw, List.foldl_cons, List.foldl_nil]
      exact cellStep_open ht
    · rw [if_neg hvw, List.foldl_nil, Ne, hnews]
      exact h.opened _ hp v ((Finset.mem_insert.mp hv).resolve_left (Ne.symm hvw))
  refine ⟨fun v => ?_, ⟨⟨fun p hpn hz v => ?_, fun p hpt => ?_⟩, fun p hpn v hv => ?_,
    fun p hpn v hv => ?_⟩⟩
  · rw [hmsgs, cellsOk_append]
    refine ⟨?_, ?_⟩
    · by_cases hv : v ∈ ws
      · rw [hm]
        exact cellsOk_newinst _ _ _ _ _ (h.opened _ hp v (hws v hv))
      · rw [List.count_eq_zero_of_not_mem hv]
        exact trivial
    · by_cases hv : w = v
      · rw [if_pos hv]
        refine ⟨⟨fun hty => ?_, fun hi => ?_, fun hi => ?_⟩, trivial⟩
        · rcases ht with ht | ht <;> rw [ht] at hty <;> cases hty
        · exact absurd hi Bool.false_ne_true
        · exact absurd hi Bool.false_ne_true
      · rw [if_neg hv]
        exact trivial
  · by_cases hpt : p = t.paneId
    · subst hpt
      rw [deliver_count_self] at hz
      exact absurd hz hk
    · rw [hother p hpt]
      refine h.untouched p hpn ?_ v
      rwa [deliver_count_of_ne L w k hpt] at hz
  · by_cases hpp : p = t.paneId
    · subst hpp
      refine ⟨w, fun hnil => hpane w (Finset.mem_insert_self _ _) ?_⟩
      rw [hnil]
    · refine h.touched_send l (hpt.imp_right fun hne => ?_)
      rwa [deliver_count_of_ne L w k hpp] at hne
  · by_cases hpt : p = t.paneId
    · subst hpt
      rw [deliver_holders_self] at hv
      rcases Finset.mem_insert.mp hv with rfl | hv
      · exact ha
      · exact h.active _ hpn v hv
    · rw [deliver_holders_of_ne L w k hpt] at hv
      exact h.active p hpn v hv
  · by_cases hpt : p = t.paneId
    · subst hpt
      rw [deliver_holders_self] at hv
      exact hpane v hv
    · rw [hother p hpt]
      rw [deliver_holders_of_ne L w k hpt] at hv
      exact h.opened p hpn v hv

/-- Workers are retired. -/
theorem Routed.retire (h : Routed L c) {ws : List (Fin N)} (hws : ws.Nodup)
    (hl : l = ws.map fun v => (v, (Tuple.createFlush ws.length L.next : Tuple DIM))) :
    SendsOk false c l ∧ Routed (L.retire ws) (c.send false l) := by
  -- each removed worker gets one FLUSH, the others get nothing
  have hmsgs : ∀ v, msgsTo v l = if v ∈ ws then [Tuple.createFlush ws.length L.next] else [] := by
    intro v
    rw [hl]
    exact msgsTo_multicast_nodup v hws _
  -- the open panes lose the removed workers
  have hheld : ∀ p, L.next ≤ p → (L.retire ws).holders p = L.holders p \ ws.toFinset :=
    fun p hp => if_pos hp
  refine ⟨fun v => ?_, ⟨⟨fun p hp hz v => ?_, fun p hp => h.touched_send l hp⟩,
    fun p hp v hv => ?_, fun p hp v hv => ?_⟩⟩
  -- a FLUSH is allowed at any worker in the variant for streams out of order
  · rw [hmsgs]
    by_cases hv : v ∈ ws
    · rw [if_pos hv]
      refine ⟨⟨fun hty => ?_, fun hi => ?_, fun hi => ?_⟩, trivial⟩
      · cases hty
      · exact absurd hi Bool.false_ne_true
      · exact absurd hi Bool.false_ne_true
    · rw [if_neg hv]
      exact trivial
  -- a flushed worker that never saw the pane has nothing to hand over
  · rw [Cells.send, hmsgs, h.untouched p hp hz v]
    by_cases hv : v ∈ ws
    · rw [if_pos hv, List.foldl_cons, List.foldl_nil, cellStep_flush]
      simp
    · rw [if_neg hv, List.foldl_nil]
  · rw [hheld p hp, Finset.mem_sdiff, List.mem_toFinset] at hv
    simp [h.active p hp v hv.1, hv.2]
  · rw [hheld p hp, Finset.mem_sdiff, List.mem_toFinset] at hv
    rw [Cells.send, hmsgs, if_neg hv.2, List.foldl_nil]
    exact h.opened p hp v hv.1

/-- Panes are closed. -/
theorem Routed.close (h : Routed L c) {ts : ℚ} {nw : Nat} {lulls : List (Nat × Fin N)}
    (hp : L.next ≤ L'.next) (hactive : L'.active = L.active) (hholders : L'.holders = L.holders)
    (hcount : ∀ p, L'.next ≤ p → L'.count p = L.count p)
    (hlulls : ∀ p ∈ lulls.map Prod.fst, L.next ≤ p ∧ p < L'.next)
    (hall : ∀ p, L.next ≤ p → p < L'.next → L.count p = 0 → p ∈ lulls.map Prod.fst)
    (hl : l = (lulls.map fun x => (x.2, (Tuple.createLull x.1 : Tuple DIM))) ++
      ((List.finRange N).filter L.active).map fun v =>
        (v, Tuple.createPunctuation ts L'.next nw)) :
    SendsOk false c l ∧ Routed L' (c.send false l) := by
  -- the panes that stay open are not concerned
  have hsame : ∀ p, L'.next ≤ p → ∀ v, c.send false l p v = c p v := by
    intro p hpn v
    have hstep : ∀ t ∈ msgsTo v l, ∀ x : Cell, cellStep false p x t = x := by
      intro t ht x
      obtain ⟨y, hy, rfl⟩ := List.mem_map.mp ht
      have hy := (List.mem_filter.mp hy).1
      rw [hl] at hy
      rcases List.mem_append.mp hy with hy | hy
      · obtain ⟨z, hz, rfl⟩ := List.mem_map.mp hy
        have := (hlulls z.1 (List.mem_map_of_mem hz)).2
        rw [cellStep_lull, if_neg (by omega)]
      · obtain ⟨u, -, rfl⟩ := List.mem_map.mp hy
        rw [cellStep_punct, if_neg (by omega)]
    rw [Cells.send]
    exact (List.foldl_ext _ _ _ fun x t ht => hstep t ht x).trans (List.foldl_fixed _)
  refine ⟨sendsOk_close c hl, ⟨⟨fun p hpn hz v => ?_, fun p hpt => ?_⟩,
    fun p hpn v hv => ?_, fun p hpn v hv => ?_⟩⟩
  · rw [hsame p hpn]
    rw [hcount p hpn] at hz
    exact h.untouched p (hp.trans hpn) hz v
  · by_cases hold : p < L.next ∨ L.count p ≠ 0
    · exact h.touched_send l hold
    · -- the pane is closed without a partition: it gets a lull
      rw [not_or, not_lt, not_not] at hold
      have hlt : p < L'.next := by
        by_contra hge
        rcases hpt with hpt | hpt
        · exact hge hpt
        · exact hpt ((hcount p (Nat.not_lt.mp hge)).trans hold.2)
      obtain ⟨⟨q, w⟩, hqw, rfl⟩ := List.mem_map.mp (hall p hold.1 hlt hold.2)
      refine ⟨w, foldl_lull_ne_nil ?_⟩
      rw [hl, msgsTo_append]
      apply List.mem_append_left
      refine List.mem_map.mpr ⟨(w, Tuple.createLull q), List.mem_filter.mpr ⟨?_, by simp⟩, rfl⟩
      exact List.mem_map.mpr ⟨(q, w), hqw, rfl⟩
  · rw [hholders] at hv
    rw [hactive]
    exact h.active p (hp.trans hpn) v hv
  · rw [hholders] at hv
    rw [hsame p hpn]
    exact h.opened p (hp.trans hpn) v hv

/-- A tuple or an `EMPTYPANE` message is delivered, and no other partition is told. -/
theorem Routed.deliverOne (h : Routed L c) {w : Fin N} {t : Tuple DIM} {k : Nat}
    (ht : t.type = .regular ∨ t.type = .emptyPane) (hp : L.next ≤ t.paneId)
    (ha : L.active w = true) (hk : k ≠ 0) :
    SendsOk false c [(w, t)] ∧ Routed (L.deliver t.paneId w k) (c.send false [(w, t)]) := by
  have hnil : [(w, t)] =
      (([] : List (Fin N)).map fun v => (v, Tuple.createNewinst t.paneId 0 0)) ++ [(w, t)] := rfl
  exact h.deliver ht hp (fun v hv => absurd hv List.not_mem_nil) ha hk hnil

/-- Workers are activated. -/
theorem Routed.activate (h : Routed L c) (ws : List (Fin N)) : Routed (L.activate ws) c where
  untouched := h.untouched
  touched := h.touched
  active := fun p hp v hv => by simp [Ledger.activate, h.active p hp v hv]
  opened := h.opened

/-- One move of the ledger. -/
theorem Routed.move (h : Routed L c) (hm : Move false L l L') :
    SendsOk false c l ∧ Routed L' (c.send false l) := by
  -- each kind of move of the ledger, with the messages it stands for
  cases hm with
  | feed w t ht hp hw =>
      have hcount := h.count_ne_zero hp.1 hw
      have := h.deliverOne (Or.inl ht) hp.1 (h.active _ hp.1 w hw) hcount
      rwa [deliver_eq_self hw] at this
  | split ws w t ht hp hws hw ha hn =>
      refine h.deliver ht hp.1 (fun v hv => ?_) ha (Nat.succ_ne_zero _) rfl
      rw [← hws]
      exact List.mem_toFinset.mpr hv
  | retire ws hws => exact h.retire hws rfl
  | close pId ts nw lulls hp hnodup hlulls hheld =>
      refine h.close (show L.next ≤ (L.close pId).next from hp) rfl rfl (fun p hpn => ?_)
        (fun p hm => ⟨((hlulls p).mp hm).1, ((hlulls p).mp hm).2.1⟩)
        (fun p hpn hlt hz => (hlulls p).mpr ⟨hpn, hlt, hz⟩) rfl
      exact if_neg fun hc => absurd hc.2.1 (Nat.not_lt.mpr hpn)
  | activate ws => exact ⟨SendsOk.nil _ _, h.activate ws⟩

/-- Any moves of the ledger. -/
theorem Routed.moves (h : Routed L c) (hm : Moves false L l L') :
    SendsOk false c l ∧ Routed L' (c.send false l) := by
  induction hm with
  | refl => exact ⟨SendsOk.nil _ _, h⟩
  | tail _ hm ih =>
      obtain ⟨hok, hr⟩ := ih
      obtain ⟨hok', hr'⟩ := hr.move hm
      rw [Cells.send_append]
      exact ⟨hok.append hok', hr'⟩

/-- **Routing is kept by every step of a strategy.** -/
theorem Routed.route (h : Routed L c) (hr : Route L l L') :
    SendsOk false c l ∧ Routed L' (c.send false l) := by
  cases hr with
  | moves hm => exact h.moves hm
  | reopen w t n ht hp ha hn =>
      exact h.deliverOne (Or.inl ht) hp ha hn
  | close _ ts nw lulls hp hactive hholders hcount hlulls hall =>
      exact h.close hp hactive hholders hcount hlulls hall rfl

/-- The end of the stream leaves the traces as they are, and empties the cells. -/
theorem Traced.finish (h : Traced L c)
    (hl : l = (List.finRange N).map fun v => (v, (Tuple.createEnd N : Tuple DIM))) :
    SendsOk false c l ∧ (∀ p v, (c.send false l p v).1 = []) ∧ Traced L (c.send false l) := by
  -- every worker gets exactly one END, which empties its deque
  have hmsgs : ∀ v, msgsTo v l = [(Tuple.createEnd N : Tuple DIM)] := by
    intro v
    rw [hl, msgsTo_multicast_nodup v (List.nodup_finRange N), if_pos (List.mem_finRange v)]
  have hcell : ∀ p v, c.send false l p v = ([], (c p v).2 ++ (c p v).1) := by
    intro p v
    rw [Cells.send, hmsgs]
    rfl
  refine ⟨fun v => ?_, fun p v => by rw [hcell], fun p hp hz v => ?_,
    fun p hp => h.touched_send l hp⟩
  · rw [hmsgs]
    refine ⟨⟨fun hty => ?_, fun hi => ?_, fun hi => ?_⟩, trivial⟩
    · cases hty
    · exact absurd hi Bool.false_ne_true
    · exact absurd hi Bool.false_ne_true
  · rw [hcell, h.untouched p hp hz v]
    rfl

end Ledger

end ElasticPPQ
