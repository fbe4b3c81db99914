import ElasticPPQ.Plq.PaneState

/-! # The partition ledger: an abstract scheduling strategy

What a scheduling strategy is for: it decides which workers hold a partition of which pane, and
counts the partitions. A *ledger* is that information and nothing else; its moves are the ways in
which any strategy may change it, each with the messages it has to send. The cells of the workers
then follow the ledger (`Ledger.Tracks`), whatever the strategy: this is where the count protocol is
proved, for the out-of-order and for the in-order pipeline at once. -/

namespace ElasticPPQ

open FifoNet

variable {N DIM : Nat}

/-- Who holds what, and how many partitions there are. -/
@[ext]
structure Ledger (N : Nat) where
  /-- The next pane to complete; the panes below are closed. -/
  next : Nat
  /-- The activated workers. -/
  active : Fin N → Bool
  /-- The workers that hold a partition of each pane; meaningful for non-closed panes. -/
  holders : Nat → Finset (Fin N)
  /-- The number of partitions of each pane. -/
  count : Nat → Nat

namespace Ledger

/-- The panes that may get tuples and partitions: the non-closed ones, and in the in-order pipeline
the current one only. -/
def MayOpen (iop : Bool) (L : Ledger N) (p : Nat) : Prop :=
  L.next ≤ p ∧ (iop = true → p = L.next)

/-- Worker `w` gets a partition of pane `p`. -/
def split (p : Nat) (w : Fin N) (L : Ledger N) : Ledger N :=
  { L with
    holders := Function.update L.holders p (insert w (L.holders p))
    count := Function.update L.count p (L.count p + 1) }

/-- The workers of `ws` are retired and lose their partitions of the non-closed panes. -/
def retire (ws : List (Fin N)) (L : Ledger N) : Ledger N :=
  { L with
    active := fun w => L.active w && !decide (w ∈ ws)
    holders := fun p => if L.next ≤ p then L.holders p \ ws.toFinset else L.holders p }

/-- The panes below `pId` are closed; those without a partition get one. -/
def close (pId : Nat) (L : Ledger N) : Ledger N :=
  { L with
    next := pId
    count := fun p => if L.next ≤ p ∧ p < pId ∧ L.count p = 0 then 1 else L.count p }

/-- The workers of `ws` are activated. -/
def activate (ws : List (Fin N)) (L : Ledger N) : Ledger N :=
  { L with active := fun w => L.active w || decide (w ∈ ws) }

section Fields

variable (L : Ledger N) (p q : Nat) (w : Fin N) (ws : List (Fin N))

/-- A split closes no pane. -/
@[simp] theorem split_next : (L.split p w).next = L.next := rfl

/-- A split activates nobody. -/
@[simp] theorem split_active : (L.split p w).active = L.active := rfl

/-- The pane gets a holder. -/
@[simp] theorem split_holders_self : (L.split p w).holders p = insert w (L.holders p) :=
  Function.update_self _ _ _

/-- The pane gets a partition. -/
@[simp] theorem split_count_self : (L.split p w).count p = L.count p + 1 :=
  Function.update_self _ _ _

variable {p q} in
/-- The other panes keep their holders. -/
theorem split_holders_of_ne (h : q ≠ p) : (L.split p w).holders q = L.holders q :=
  Function.update_of_ne h _ _

variable {p q} in
/-- The other panes keep their partitions. -/
theorem split_count_of_ne (h : q ≠ p) : (L.split p w).count q = L.count q :=
  Function.update_of_ne h _ _

/-- A retirement closes no pane. -/
@[simp] theorem retire_next : (L.retire ws).next = L.next := rfl

/-- The partitions stay counted. -/
@[simp] theorem retire_count : (L.retire ws).count = L.count := rfl

/-- The workers retired are not activated any more. -/
@[simp] theorem retire_active : (L.retire ws).active w = (L.active w && !decide (w ∈ ws)) := rfl

/-- The panes below are closed. -/
@[simp] theorem close_next : (L.close p).next = p := rfl

/-- Closing panes activates nobody. -/
@[simp] theorem close_active : (L.close p).active = L.active := rfl

/-- The holders stay recorded. -/
@[simp] theorem close_holders : (L.close p).holders = L.holders := rfl

/-- An activation closes no pane. -/
@[simp] theorem activate_next : (L.activate ws).next = L.next := rfl

end Fields

/-- The moves of a ledger, with the messages sent. -/
inductive Move (iop : Bool) : Ledger N → Sends N DIM → Ledger N → Prop
  /-- A tuple goes to a worker that holds a partition of its pane. -/
  | feed (L : Ledger N) (w : Fin N) (t : Tuple DIM) (ht : t.type = .regular)
      (hp : L.MayOpen iop t.paneId) (hw : w ∈ L.holders t.paneId) :
      Move iop L [(w, t)] L
  /-- A worker gets a new partition, and the holders are told the new count. -/
  | split (L : Ledger N) (ws : List (Fin N)) (w : Fin N) (t : Tuple DIM)
      (ht : t.type = .regular ∨ t.type = .emptyPane) (hp : L.MayOpen iop t.paneId)
      (hws : ws.toFinset = L.holders t.paneId) (hw : w ∉ L.holders t.paneId)
      (ha : L.active w = true) (hn : t.noInstances = L.count t.paneId + 1) :
      Move iop L
        ((ws.map fun v => (v, Tuple.createNewinst t.paneId t.noInstances ws.length)) ++ [(w, t)])
        (L.split t.paneId w)
  /-- Workers are retired and flushed. -/
  | retire (L : Ledger N) (ws : List (Fin N)) (hws : ws.Nodup) :
      Move iop L (ws.map fun v => (v, Tuple.createFlush ws.length L.next)) (L.retire ws)
  /-- The panes below `pId` are closed: those without a partition through a lull message to some
  activated worker, the other ones by a punctuation, which the in-order pipeline does not need. -/
  | close (L : Ledger N) (pId : Nat) (ts : ℚ) (nw : Nat) (lulls : List (Nat × Fin N))
      (hp : L.next ≤ pId) (hnodup : (lulls.map Prod.fst).Nodup)
      (hlulls : ∀ p, p ∈ lulls.map Prod.fst ↔ L.next ≤ p ∧ p < pId ∧ L.count p = 0)
      (hheld : ∀ p, L.next ≤ p → p < pId → L.count p ≠ 0 → (L.holders p).Nonempty) :
      Move iop L
        ((lulls.map fun x => (x.2, Tuple.createLull x.1)) ++
          if iop then [] else
            ((List.finRange N).filter L.active).map fun v => (v, Tuple.createPunctuation ts pId nw))
        (L.close pId)
  /-- Workers are activated. -/
  | activate (L : Ledger N) (ws : List (Fin N)) : Move iop L [] (L.activate ws)

/-- Some moves, one after the other. -/
inductive Moves (iop : Bool) : Ledger N → Sends N DIM → Ledger N → Prop
  | refl (L : Ledger N) : Moves iop L [] L
  | tail {L L' L'' : Ledger N} {l m : Sends N DIM} :
      Moves iop L l L' → Move iop L' m L'' → Moves iop L (l ++ m) L''

/-- One move. -/
theorem Move.moves {iop : Bool} {L L' : Ledger N} {l : Sends N DIM} (h : Move iop L l L') :
    Moves iop L l L' :=
  Moves.tail (Moves.refl L) h

/-- Moves one after the other. -/
theorem Moves.trans {iop : Bool} {L L' L'' : Ledger N} {l m : Sends N DIM}
    (h : Moves iop L l L') (h' : Moves iop L' m L'') : Moves iop L (l ++ m) L'' := by
  induction h' with
  | refl => rwa [List.append_nil]
  | tail _ hm ih =>
      rw [← List.append_assoc]
      exact Moves.tail ih hm

/-- A move does not touch the counts of the closed panes, and opens none of them again. -/
theorem Move.count_of_lt {iop : Bool} {L L' : Ledger N} {l : Sends N DIM} (h : Move iop L l L') :
    L.next ≤ L'.next ∧ ∀ p, p < L.next → L'.count p = L.count p := by
  cases h with
  | feed w t ht hp hw => exact ⟨le_rfl, fun _ _ => rfl⟩
  | split ws w t ht hp hws hw ha hn =>
      exact ⟨le_rfl, fun p hlt => split_count_of_ne L w (hlt.trans_le hp.1).ne⟩
  | retire ws hws => exact ⟨le_rfl, fun _ _ => rfl⟩
  | close pId ts nw lulls hp hnodup hlulls hheld =>
      exact ⟨hp, fun p hlt => if_neg fun hc => absurd hc.1 (Nat.not_le.mpr hlt)⟩
  | activate ws => exact ⟨le_rfl, fun _ _ => rfl⟩

/-- Hence the count of a closed pane is final. -/
theorem Moves.count_of_lt {iop : Bool} {L L' : Ledger N} {l : Sends N DIM} (h : Moves iop L l L') :
    L.next ≤ L'.next ∧ ∀ p, p < L.next → L'.count p = L.count p := by
  induction h with
  | refl => exact ⟨le_rfl, fun _ _ => rfl⟩
  | tail _ hm ih =>
      obtain ⟨hle, hcount⟩ := ih
      obtain ⟨hle', hcount'⟩ := hm.count_of_lt
      exact ⟨hle.trans hle', fun p hp => (hcount' p (hp.trans_le hle)).trans (hcount p hp)⟩

/-! ## The cells follow the ledger -/

/-- **The invariant of the count protocol.** The cells of a non-closed pane are the partitions that
the ledger knows of; those of a closed pane are settled, and in the out-of-order pipeline sent out. -/
structure Tracks (iop : Bool) (L : Ledger N) (c : Cells N) : Prop where
  active : ∀ p, L.next ≤ p → ∀ w ∈ L.holders p, L.active w = true
  opened : ∀ p, L.next ≤ p → Open (c p) (L.holders p) (L.count p)
  closed : ∀ p, p < L.next → Settled (c p) (L.count p)
  drained : iop = false → ∀ p, p < L.next → ∀ w, (c p w).1 = []
  later : iop = true → ∀ p, L.next < p → L.count p = 0

variable {iop : Bool} {L L' : Ledger N} {c : Cells N} {l : Sends N DIM}

/-- Messages for later panes, and the end of the stream, keep a closed pane settled. -/
theorem Tracks.closed_send (h : Tracks iop L c) {p : Nat} (hp : p < L.next)
    (hl : ∀ x ∈ l, p < x.2.paneId ∨ x.2.type = .end) :
    Settled (c.send iop l p) (L.count p) ∧
      (iop = false → ∀ w, (c.send iop l p w).1 = []) := by
  have hshift : ∀ w, Shifted (c p w) (c.send iop l p w) := by
    intro w
    refine foldl_shifted ?_ ?_
    · intro t ht
      obtain ⟨x, hx, rfl⟩ := List.mem_map.mp ht
      exact hl x (List.mem_filter.mp hx).1
    · cases iop with
      | true => exact Or.inl rfl
      | false => exact Or.inr (h.drained rfl p hp w)
  exact ⟨(h.closed p hp).shift hshift, fun hi w => (hshift w).eq_nil (h.drained hi p hp w)⟩

/-- In the in-order pipeline the later panes have left no trace. -/
theorem Tracks.later_nil (h : Tracks iop L c) (hi : iop = true) {p : Nat} (hp : L.next < p)
    (w : Fin N) : c p w = ([], []) := by
  have hopen := h.opened p hp.le
  rw [h.later hi p hp] at hopen
  exact hopen.eq_nil w

/-- A tuple for a held partition. -/
theorem Tracks.feed (h : Tracks iop L c) {w : Fin N} {t : Tuple DIM} (ht : t.type = .regular)
    (hp : L.MayOpen iop t.paneId) (hw : w ∈ L.holders t.paneId) :
    SendsOk iop c [(w, t)] ∧ Tracks iop L (c.send iop [(w, t)]) := by
  -- the worker has the pane open already, so the tuple changes no partition
  have hsame : ∀ p, L.next ≤ p → c.send iop [(w, t)] p = c p := by
    intro p hpn
    funext v
    by_cases hv : w = v
    · subst hv
      simp only [Cells.send, msgsTo_cons, msgsTo_nil, if_true, List.foldl_cons, List.foldl_nil]
      rw [cellStep_regular iop p _ (Or.inl ht), if_neg, if_neg]
      · rintro ⟨hi, hlt⟩
        have := hp.2 hi
        omega
      · rintro ⟨rfl, hnil⟩
        rw [(h.opened _ hpn).held w, if_pos hw] at hnil
        exact List.cons_ne_nil _ _ hnil
    · simp [Cells.send, hv]
  refine ⟨?_, ?_⟩
  · intro v
    by_cases hv : w = v
    · subst hv
      rw [msgsTo_cons, if_pos rfl, msgsTo_nil]
      refine ⟨⟨fun hty => ?_, fun _ hty => ?_, fun hi _ p hlt => ?_⟩, trivial⟩
      · rw [ht] at hty; cases hty
      · rw [ht] at hty; cases hty
      · have := hp.2 hi
        simp [h.later_nil hi (p := p) (by omega) w]
    · simp [CellsOk, hv]
  · have hlate : ∀ p, p < L.next → ∀ x ∈ [(w, t)], p < x.2.paneId ∨ x.2.type = .end := by
      intro p hlt x hx
      rw [List.mem_singleton] at hx
      subst hx
      exact Or.inl (hlt.trans_le hp.1)
    -- closed panes are older than the pane of the tuple, and are not touched
    exact {
      active := h.active
      opened := fun p hpn => by rw [hsame p hpn]; exact h.opened p hpn
      closed := fun p hlt => (h.closed_send hlt (hlate p hlt)).1
      drained := fun hi p hlt => (h.closed_send hlt (hlate p hlt)).2 hi
      later := h.later }

/-- The messages of a split, worker by worker. -/
theorem msgsTo_split {H : Finset (Fin N)} {ws : List (Fin N)} (hws : ws.toFinset = H) {w : Fin N}
    (hw : w ∉ H) (m t : Tuple DIM) (v : Fin N) :
    msgsTo v ((ws.map fun u => (u, m)) ++ [(w, t)]) =
      if v = w then [t] else List.replicate (ws.count v) m := by
  rw [msgsTo_append, msgsTo_multicast, msgsTo_cons, msgsTo_nil]
  by_cases hv : v = w
  · subst hv
    have hnot : v ∉ ws := fun hmem => hw (hws ▸ List.mem_toFinset.mpr hmem)
    rw [if_pos rfl, if_pos rfl, List.count_eq_zero_of_not_mem hnot]
    rfl
  · rw [if_neg hv, if_neg (Ne.symm hv), List.append_nil]

/-- The pane of a new partition: its holders and the new one know the new count. -/
theorem Tracks.splitting (h : Tracks iop L c) {ws : List (Fin N)} {w : Fin N} {t : Tuple DIM}
    (ht : t.type = .regular ∨ t.type = .emptyPane) (hp : L.next ≤ t.paneId)
    (hws : ws.toFinset = L.holders t.paneId) (hw : w ∉ L.holders t.paneId)
    (hn : t.noInstances = L.count t.paneId + 1)
    (hl : ∀ v, msgsTo v l = if v = w then [t] else
      List.replicate (ws.count v) (Tuple.createNewinst t.paneId t.noInstances ws.length)) :
    Open (c.send iop l t.paneId) (insert w (L.holders t.paneId)) (L.count t.paneId + 1) := by
  have hopen := h.opened t.paneId hp
  refine hopen.split hw ?_ ?_ ?_
  -- the new holder opens the pane with the new number of partitions
  · show (msgsTo w l).foldl (cellStep iop t.paneId) (c t.paneId w) = _
    rw [hl, if_pos rfl, List.foldl_cons, List.foldl_nil, cellStep_regular _ _ _ ht,
      if_pos ⟨rfl, by rw [hopen.held w, if_neg hw]⟩, hn]
  -- each old holder hears of the new number once at least
  · intro v hv
    have hvw : v ≠ w := fun hvw => hw (hvw ▸ hv)
    have hcount : ws.count v ≠ 0 := by
      rw [← hws, List.mem_toFinset] at hv
      exact (List.count_pos_iff.mpr hv).ne'
    show (msgsTo v l).foldl (cellStep iop t.paneId) (c t.paneId v) = _
    rw [hl, if_neg hvw, foldl_newinst _ _ _ _ _ _ hcount, if_pos rfl, hopen.held v, if_pos hv, hn]
    rfl
  -- nobody else hears of it
  · intro v hv hvw
    have hnot : v ∉ ws := fun hmem => hv (hws ▸ List.mem_toFinset.mpr hmem)
    show (msgsTo v l).foldl (cellStep iop t.paneId) (c t.paneId v) = _
    rw [hl, if_neg hvw, List.count_eq_zero_of_not_mem hnot]
    rfl

/-- The other panes do not notice a new partition. -/
theorem send_split {w : Fin N} {t : Tuple DIM} {n : Fin N → Nat} {noInstances k : Nat}
    (ht : t.type = .regular ∨ t.type = .emptyPane) {p : Nat} (hlate : iop = true → t.paneId ≤ p)
    (hne : p ≠ t.paneId) (hl : ∀ v, msgsTo v l = if v = w then [t] else
      List.replicate (n v) (Tuple.createNewinst t.paneId noInstances k)) :
    c.send iop l p = c p := by
  funext v
  show (msgsTo v l).foldl (cellStep iop p) (c p v) = _
  rw [hl]
  -- the new holder may close older panes in order, but has none of them open
  by_cases hv : v = w
  · rw [if_pos hv, List.foldl_cons, List.foldl_nil, cellStep_regular _ _ _ ht,
      if_neg fun h => hne h.1, if_neg]
    rintro ⟨hi, hlt⟩
    have := hlate hi
    omega
  · rw [if_neg hv, foldl_newinst_of_ne _ _ hne]

/-- The messages of a new partition respect what the workers hold. -/
theorem Tracks.sendsOk_split (h : Tracks iop L c) {ws : List (Fin N)} {w : Fin N} {t : Tuple DIM}
    (ht : t.type = .regular ∨ t.type = .emptyPane) (hp : L.MayOpen iop t.paneId)
    (hws : ws.toFinset = L.holders t.paneId)
    (hl : ∀ v, msgsTo v l = if v = w then [t] else
      List.replicate (ws.count v) (Tuple.createNewinst t.paneId t.noInstances ws.length)) :
    SendsOk iop c l := by
  intro v
  rw [hl]
  -- the new holder gets the tuple, the old ones their `NEWINST`, and the others nothing
  by_cases hv : v = w
  · subst hv
    rw [if_pos rfl]
    refine ⟨⟨fun hty => ?_, fun _ hty => ?_, fun hi _ p hlt => ?_⟩, trivial⟩
    · rcases ht with ht | ht <;> rw [ht] at hty <;> cases hty
    · rcases ht with ht | ht <;> rw [ht] at hty <;> cases hty
    · have := hp.2 hi
      simp [h.later_nil hi (p := p) (by omega) v]
  · rw [if_neg hv]
    by_cases hvH : v ∈ L.holders t.paneId
    · refine cellsOk_newinst _ _ _ _ _ ?_
      show (c t.paneId v).1 ≠ []
      rw [(h.opened t.paneId hp.1).held v, if_pos hvH]
      exact List.cons_ne_nil _ _
    -- who does not hold the pane gets no `NEWINST`, which would abort
    · have hnot : v ∉ ws := fun hmem => hvH (hws ▸ List.mem_toFinset.mpr hmem)
      rw [List.count_eq_zero_of_not_mem hnot]
      exact trivial

/-- A new partition. -/
theorem Tracks.split (h : Tracks iop L c) {ws : List (Fin N)} {w : Fin N} {t : Tuple DIM}
    (ht : t.type = .regular ∨ t.type = .emptyPane) (hp : L.MayOpen iop t.paneId)
    (hws : ws.toFinset = L.holders t.paneId) (hw : w ∉ L.holders t.paneId)
    (ha : L.active w = true) (hn : t.noInstances = L.count t.paneId + 1)
    (hl : l = (ws.map fun v => (v, Tuple.createNewinst t.paneId t.noInstances ws.length))
      ++ [(w, t)]) :
    SendsOk iop c l ∧ Tracks iop (L.split t.paneId w) (c.send iop l) := by
  have hmsgs : ∀ v, msgsTo v l = if v = w then [t] else
      List.replicate (ws.count v) (Tuple.createNewinst t.paneId t.noInstances ws.length) := by
    intro v
    rw [hl]
    exact msgsTo_split hws hw _ _ v
  -- only the pane of the tuple is touched
  have hother : ∀ p, L.next ≤ p → p ≠ t.paneId → c.send iop l p = c p := fun p hpn hne =>
    send_split ht (fun hi => (hp.2 hi).trans_le hpn) hne hmsgs
  have hlate : ∀ p, p < L.next → ∀ x ∈ l, p < x.2.paneId ∨ x.2.type = .end := by
    intro p hlt x hx
    refine Or.inl (hlt.trans_le ?_)
    rw [hl] at hx
    rcases List.mem_append.mp hx with hx | hx
    · obtain ⟨v, -, rfl⟩ := List.mem_map.mp hx
      exact hp.1
    · rw [List.mem_singleton] at hx
      subst hx
      exact hp.1
  refine ⟨h.sendsOk_split ht hp hws hmsgs, {
    active := ?_
    opened := ?_
    closed := ?_
    drained := fun hi p hlt => (h.closed_send hlt (hlate p hlt)).2 hi
    later := ?_ }⟩
  · intro p hpn v hv
    -- the new holder is activated, and the old ones still are
    by_cases hpt : p = t.paneId
    · subst hpt
      rw [split_holders_self] at hv
      rcases Finset.mem_insert.mp hv with rfl | hv
      · exact ha
      · exact h.active _ hpn v hv
    · rw [split_holders_of_ne L w hpt] at hv
      exact h.active p hpn v hv
  · intro p hpn
    by_cases hpt : p = t.paneId
    · subst hpt
      rw [split_holders_self, split_count_self]
      exact h.splitting ht hp.1 hws hw hn hmsgs
    · rw [hother p hpn hpt, split_holders_of_ne L w hpt, split_count_of_ne L w hpt]
      exact h.opened p hpn
  · intro p hlt
    have hcount : (L.split t.paneId w).count p = L.count p :=
      split_count_of_ne L w (hlt.trans_le hp.1).ne
    rw [hcount]
    exact (h.closed_send hlt (hlate p hlt)).1
  · intro hi p hlt
    have := hp.2 hi
    rw [split_next] at hlt
    rw [split_count_of_ne L w (by omega)]
    exact h.later hi p hlt

/-- Workers are retired. -/
theorem Tracks.retire (h : Tracks iop L c) {ws : List (Fin N)} (hws : ws.Nodup)
    (hl : l = ws.map fun v => (v, (Tuple.createFlush ws.length L.next : Tuple DIM))) :
    SendsOk iop c l ∧ Tracks iop (L.retire ws) (c.send iop l) := by
  -- each worker removed gets one `FLUSH`, the others nothing
  have hmsgs : ∀ v, msgsTo v l = if v ∈ ws then [Tuple.createFlush ws.length L.next] else [] := by
    intro v
    rw [hl]
    exact msgsTo_multicast_nodup v hws _
  have hlate : ∀ p, p < L.next → ∀ x ∈ l, p < x.2.paneId ∨ x.2.type = .end := by
    intro p hlt x hx
    rw [hl] at hx
    obtain ⟨v, -, rfl⟩ := List.mem_map.mp hx
    exact Or.inl hlt
  refine ⟨?_, ?_⟩
  · intro v
    rw [hmsgs]
    by_cases hv : v ∈ ws
    · rw [if_pos hv]
      refine ⟨⟨fun hty => ?_, fun _ hty => ?_, fun _ hty => ?_⟩, trivial⟩
      · cases hty
      · cases hty
      · rcases hty with hty | hty | hty <;> cases hty
    · rw [if_neg hv]
      exact trivial
  · exact {
      active := by
        intro p hpn v hv
        have hpn' : L.next ≤ p := hpn
        simp only [Ledger.retire, if_pos hpn', Finset.mem_sdiff, List.mem_toFinset] at hv
        simp [Ledger.retire, h.active p hpn v hv.1, hv.2]
      opened := by
        intro p hpn
        have hpn' : L.next ≤ p := hpn
        have hH : (L.retire ws).holders p = L.holders p \ ws.toFinset := if_pos hpn'
        rw [hH]
        -- the workers removed close what they have open, as partitions that count for nothing
        refine (h.opened p hpn).flush ?_ ?_
        · intro v hv
          rw [List.mem_toFinset] at hv
          simp only [Cells.send, hmsgs, if_pos hv, List.foldl_cons, List.foldl_nil, cellStep_flush]
          rw [if_neg (by omega)]
        · intro v hv
          rw [List.mem_toFinset] at hv
          simp only [Cells.send, hmsgs, if_neg hv, List.foldl_nil]
      closed := fun p hlt => (h.closed_send hlt (hlate p hlt)).1
      drained := fun hi p hlt => (h.closed_send hlt (hlate p hlt)).2 hi
      later := h.later }

/-- Workers are activated. -/
theorem Tracks.activate (h : Tracks iop L c) (ws : List (Fin N)) :
    Tracks iop (L.activate ws) c where
  active := fun p hpn v hv => by simp [Ledger.activate, h.active p hpn v hv]
  opened := h.opened
  closed := h.closed
  drained := h.drained
  later := h.later

/-! ### Closing panes -/

/-- Lull messages put one final results set each into the cells of their panes. -/
theorem foldl_lulls (iop : Bool) (p : Nat) (c : Cell) (xs : List Nat) :
    (xs.map fun q => (Tuple.createLull q : Tuple DIM)).foldl (cellStep iop p) c =
      (c.1, c.2 ++ List.replicate (xs.count p) 1) := by
  induction xs generalizing c with
  | nil => simp
  | cons x xs ih =>
      rw [List.map_cons, List.foldl_cons, ih, cellStep_lull, List.count_cons]
      by_cases hx : p = x
      · simp [hx, List.replicate_succ]
      · simp [hx, Ne.symm hx]

/-- The cells after lull messages for distinct panes. -/
theorem send_lulls (iop : Bool) (c : Cells N) {lulls : List (Nat × Fin N)}
    (hnodup : (lulls.map Prod.fst).Nodup) (p : Nat) (v : Fin N) :
    c.send iop (lulls.map fun x => (x.2, (Tuple.createLull x.1 : Tuple DIM))) p v =
      ((c p v).1, (c p v).2 ++ if (p, v) ∈ lulls then [1] else []) := by
  have hmsgs : msgsTo v (lulls.map fun x => (x.2, (Tuple.createLull x.1 : Tuple DIM))) =
      ((lulls.filter fun x => x.2 = v).map Prod.fst).map fun q => Tuple.createLull q := by
    simp only [msgsTo, List.filter_map, List.map_map]
    rfl
  -- a pane gets one `LULL` at most
  have hsub : ((lulls.filter fun x => x.2 = v).map Prod.fst).Nodup :=
    hnodup.sublist (List.filter_sublist.map _)
  have hmem : p ∈ (lulls.filter fun x => x.2 = v).map Prod.fst ↔ (p, v) ∈ lulls := by
    simp [List.mem_map, List.mem_filter]
  rw [Cells.send, hmsgs, foldl_lulls, hsub.count]
  by_cases h : (p, v) ∈ lulls
  · rw [if_pos (hmem.mpr h), if_pos h]; rfl
  · rw [if_neg (fun h' => h (hmem.mp h')), if_neg h]; rfl

/-- The cells after a punctuation to all the activated workers. -/
theorem send_punct (iop : Bool) (c : Cells N) (active : Fin N → Bool) (ts : ℚ) (pId nw p : Nat)
    (v : Fin N) :
    c.send iop (((List.finRange N).filter active).map fun v =>
        (v, (Tuple.createPunctuation ts pId nw : Tuple DIM))) p v =
      if active v = true ∧ p < pId then ([], (c p v).2 ++ (c p v).1) else c p v := by
  have hnodup : ((List.finRange N).filter active).Nodup := (List.nodup_finRange N).filter _
  rw [Cells.send, msgsTo_multicast_nodup v hnodup]
  by_cases ha : active v = true
  · rw [if_pos (List.mem_filter.mpr ⟨List.mem_finRange v, ha⟩), List.foldl_cons, List.foldl_nil,
      cellStep_punct]
    simp [ha]
  · rw [if_neg (fun h => ha (List.mem_filter.mp h).2), if_neg (fun h => ha h.1)]
    rfl

section

variable {active : Fin N → Bool} {pId : Nat} {ts : ℚ} {nw : Nat} {lulls : List (Nat × Fin N)}

/-- The cells after the messages that close panes, with the effect of the lulls and of the
punctuations spelled out. -/
theorem send_close (c : Cells N) (hnodup : (lulls.map Prod.fst).Nodup)
    (hl : l = (lulls.map fun x => (x.2, (Tuple.createLull x.1 : Tuple DIM))) ++
      if iop then [] else ((List.finRange N).filter active).map fun v =>
        (v, Tuple.createPunctuation ts pId nw)) (p : Nat) (v : Fin N) :
    c.send iop l p v =
      if iop = false ∧ active v = true ∧ p < pId then
        ([], ((c p v).2 ++ if (p, v) ∈ lulls then [1] else []) ++ (c p v).1)
      else ((c p v).1, (c p v).2 ++ if (p, v) ∈ lulls then [1] else []) := by
  rw [hl, Cells.send_append]
  -- in order there is no punctuation, out of order every activated worker gets one
  cases iop with
  | true =>
      rw [if_pos rfl, Cells.send_nil, send_lulls _ _ hnodup]
      exact (if_neg fun hc => Bool.noConfusion hc.1).symm
  | false =>
      rw [if_neg Bool.false_ne_true, send_punct, send_lulls _ _ hnodup]
      simp

/-- A worker can take these messages whatever it has. -/
theorem sendsOk_close (c : Cells N)
    (hl : l = (lulls.map fun x => (x.2, (Tuple.createLull x.1 : Tuple DIM))) ++
      if iop then [] else ((List.finRange N).filter active).map fun v =>
        (v, Tuple.createPunctuation ts pId nw)) : SendsOk iop c l := by
  intro v
  -- a `LULL` needs no open partition, and neither does a punctuation
  have hok : ∀ t ∈ msgsTo v l, t.type = .lull ∨ iop = false ∧ t.type = .punct := by
    intro t ht
    obtain ⟨x, hx, rfl⟩ := List.mem_map.mp ht
    have hx := (List.mem_filter.mp hx).1
    rw [hl] at hx
    rcases List.mem_append.mp hx with hx | hx
    · obtain ⟨y, -, rfl⟩ := List.mem_map.mp hx
      exact Or.inl rfl
    · cases iop with
      | true => exact absurd hx List.not_mem_nil
      | false =>
          obtain ⟨u, -, rfl⟩ := List.mem_map.mp hx
          exact Or.inr ⟨rfl, rfl⟩
  exact cellsOk_of_forall hok _

/-- They are for panes that are not closed yet. -/
theorem late_close (hp : L.next ≤ pId) (hlulls : ∀ p v, (p, v) ∈ lulls → L.next ≤ p)
    (hl : l = (lulls.map fun x => (x.2, (Tuple.createLull x.1 : Tuple DIM))) ++
      if iop then [] else ((List.finRange N).filter active).map fun v =>
        (v, Tuple.createPunctuation ts pId nw)) {p : Nat} (hlt : p < L.next) :
    ∀ x ∈ l, p < x.2.paneId ∨ x.2.type = .end := by
  intro x hx
  refine Or.inl ?_
  rw [hl] at hx
  rcases List.mem_append.mp hx with hx | hx
  · obtain ⟨⟨q, v⟩, hqv, rfl⟩ := List.mem_map.mp hx
    exact hlt.trans_le (hlulls q v hqv)
  · cases iop with
    | true => exact absurd hx List.not_mem_nil
    | false =>
        obtain ⟨v, -, rfl⟩ := List.mem_map.mp hx
        exact hlt.trans_le hp

/-- A pane that becomes closed has a final count, and is drained by the punctuation. -/
theorem Tracks.closing (h : Tracks iop L c) (hnodup : (lulls.map Prod.fst).Nodup)
    (hlulls : ∀ p, p ∈ lulls.map Prod.fst ↔ L.next ≤ p ∧ p < pId ∧ L.count p = 0)
    (hl : l = (lulls.map fun x => (x.2, (Tuple.createLull x.1 : Tuple DIM))) ++
      if iop then [] else ((List.finRange N).filter L.active).map fun v =>
        (v, Tuple.createPunctuation ts pId nw)) {p : Nat} (hpn : L.next ≤ p) (hlt : p < pId)
    (hheld : L.count p ≠ 0 → (L.holders p).Nonempty) :
    Settled (c.send iop l p) ((L.close pId).count p) ∧
      (iop = false → ∀ v, (c.send iop l p v).1 = []) := by
  have hcell := send_close c hnodup hl p
  have hshift : ∀ v, Shifted ((c p v).1, (c p v).2 ++ if (p, v) ∈ lulls then [1] else [])
      (c.send iop l p v) := by
    intro v
    rw [hcell]
    by_cases hc : iop = false ∧ L.active v = true ∧ p < pId
    · rw [if_pos hc]
      exact Or.inr rfl
    · rw [if_neg hc]
      exact Or.inl rfl
  have hopen := h.opened p hpn
  by_cases hz : L.count p = 0
  · -- no worker has a partition, and one of them gets a lull
    have hcount : (L.close pId).count p = 1 := if_pos ⟨hpn, hlt, hz⟩
    obtain ⟨⟨q, w⟩, hqw, hq⟩ := List.mem_map.mp ((hlulls p).mpr ⟨hpn, hlt, hz⟩)
    obtain rfl : q = p := hq
    rw [hz] at hopen
    rw [hcount]
    have huniq : ∀ v, (q, v) ∈ lulls → v = w := fun v hv =>
      congrArg Prod.snd (List.inj_on_of_nodup_map hnodup hv hqw rfl)
    have hnil : ∀ v, ((c q v).1, (c q v).2 ++ if (q, v) ∈ lulls then [1] else [])
        = ([], if (q, v) ∈ lulls then [1] else []) := by
      intro v
      rw [hopen.eq_nil v, List.nil_append]
    refine ⟨?_, fun _ v => (hshift v).eq_nil (by rw [hnil v])⟩
    refine (hopen.lull (w := w) ?_ ?_).shift hshift
    · rw [hnil w, if_pos hqw]
    · intro v hv
      rw [hnil v, if_neg fun hqv => hv (huniq v hqv), hopen.eq_nil v]
  · -- there are partitions, and no lull
    have hcount : (L.close pId).count p = L.count p := if_neg fun hc => hz hc.2.2
    have hno : ∀ v, (p, v) ∉ lulls := fun v hpv =>
      hz ((hlulls p).mp (List.mem_map.mpr ⟨(p, v), hpv, rfl⟩)).2.2
    have hsame : ∀ v, ((c p v).1, (c p v).2 ++ if (p, v) ∈ lulls then [1] else []) = c p v := by
      intro v
      rw [if_neg (hno v), List.append_nil]
    rw [hcount]
    refine ⟨(hopen.settled (hheld hz)).shift fun v => ?_, fun hi v => ?_⟩
    · have := hshift v
      rwa [hsame] at this
    · rw [hcell]
      by_cases ha : L.active v = true
      · rw [if_pos ⟨hi, ha, hlt⟩]
      · rw [if_neg fun hc => ha hc.2.1, hsame, hopen.held v, if_neg]
        exact fun hv => ha (h.active p hpn v hv)

/-- Panes are closed. -/
theorem Tracks.close (h : Tracks iop L c) (hp : L.next ≤ pId) (hnodup : (lulls.map Prod.fst).Nodup)
    (hlulls : ∀ p, p ∈ lulls.map Prod.fst ↔ L.next ≤ p ∧ p < pId ∧ L.count p = 0)
    (hheld : ∀ p, L.next ≤ p → p < pId → L.count p ≠ 0 → (L.holders p).Nonempty)
    (hl : l = (lulls.map fun x => (x.2, (Tuple.createLull x.1 : Tuple DIM))) ++
      if iop then [] else ((List.finRange N).filter L.active).map fun v =>
        (v, Tuple.createPunctuation ts pId nw)) :
    SendsOk iop c l ∧ Tracks iop (L.close pId) (c.send iop l) := by
  have hmem : ∀ p v, (p, v) ∈ lulls → L.next ≤ p ∧ p < pId ∧ L.count p = 0 := fun p v hpv =>
    (hlulls p).mp (List.mem_map.mpr ⟨(p, v), hpv, rfl⟩)
  -- the panes closed now: those without partition get a `LULL`, the others a holder that closes
  -- them
  have hnew := fun p hpn hlt => h.closing hnodup hlulls hl hpn hlt (hheld p hpn hlt)
  -- the panes closed before are not touched
  have hold := fun p (hlt : p < L.next) =>
    h.closed_send hlt (late_close hp (fun q v hq => (hmem q v hq).1) hl hlt)
  refine ⟨sendsOk_close c hl, ?_⟩
  exact {
    active := fun p hpn v hv => h.active p (hp.trans hpn) v hv
    opened := by
      intro p hpn
      rw [close_next] at hpn
      have hcount : (L.close pId).count p = L.count p := if_neg (by omega)
      have hsame : c.send iop l p = c p := by
        funext v
        rw [send_close c hnodup hl, if_neg (by omega),
          if_neg fun hpv => (by have := hmem p v hpv; omega), List.append_nil]
      rw [hcount, hsame]
      exact h.opened p (hp.trans hpn)
    closed := by
      intro p hlt
      rw [close_next] at hlt
      -- closed now, or closed before
      by_cases hpn : L.next ≤ p
      · exact (hnew p hpn hlt).1
      · have hcount : (L.close pId).count p = L.count p := if_neg (by omega)
        rw [hcount]
        exact (hold p (by omega)).1
    drained := by
      intro hi p hlt
      rw [close_next] at hlt
      by_cases hpn : L.next ≤ p
      · exact (hnew p hpn hlt).2 hi
      · exact (hold p (by omega)).2 hi
    later := by
      intro hi p hlt
      rw [close_next] at hlt
      have hcount : (L.close pId).count p = L.count p := if_neg (by omega)
      rw [hcount]
      exact h.later hi p (by omega) }

end

/-! ### Any moves, and the end of the stream -/

/-- **One move of a ledger is followed by the cells.** -/
theorem Tracks.move (h : Tracks iop L c) (hm : Move iop L l L') :
    SendsOk iop c l ∧ Tracks iop L' (c.send iop l) := by
  cases hm with
  | feed w t ht hp hw => exact h.feed ht hp hw
  | split ws w t ht hp hws hw ha hn => exact h.split ht hp hws hw ha hn rfl
  | retire ws hws => exact h.retire hws rfl
  | close pId ts nw lulls hp hnodup hlulls hheld => exact h.close hp hnodup hlulls hheld rfl
  | activate ws => exact ⟨SendsOk.nil _ _, h.activate ws⟩

/-- **Any moves of a ledger are followed by the cells.** -/
theorem Tracks.moves (h : Tracks iop L c) (hm : Moves iop L l L') :
    SendsOk iop c l ∧ Tracks iop L' (c.send iop l) := by
  induction hm with
  | refl => exact ⟨SendsOk.nil _ _, h⟩
  | tail _ hm ih =>
      obtain ⟨hok, htr⟩ := ih
      obtain ⟨hok', htr'⟩ := htr.move hm
      rw [Cells.send_append]
      exact ⟨hok.append hok', htr'⟩

/-- The end of the stream settles every closed pane and every pane that some worker holds. -/
theorem Tracks.finish (h : Tracks iop L c)
    (hl : l = (List.finRange N).map fun v => (v, (Tuple.createEnd N : Tuple DIM))) :
    SendsOk iop c l ∧ (∀ p v, (c.send iop l p v).1 = []) ∧
      ∀ p, p < L.next ∨ (L.holders p).Nonempty → Settled (c.send iop l p) (L.count p) := by
  -- every worker gets one `END`, which closes what it has open
  have hmsgs : ∀ v, msgsTo v l = [(Tuple.createEnd N : Tuple DIM)] := by
    intro v
    rw [hl, msgsTo_multicast_nodup v (List.nodup_finRange N), if_pos (List.mem_finRange v)]
  have hcell : ∀ p v, c.send iop l p v = ([], (c p v).2 ++ (c p v).1) := by
    intro p v
    rw [Cells.send, hmsgs]
    rfl
  refine ⟨fun v => ?_, fun p v => by rw [hcell], fun p hp => ?_⟩
  · rw [hmsgs]
    refine ⟨⟨fun hty => ?_, fun _ hty => ?_, fun _ hty => ?_⟩, trivial⟩
    · cases hty
    · cases hty
    · rcases hty with hty | hty | hty <;> cases hty
  -- a pane was settled before, or is open at its holders
  · have hsettled : Settled (c p) (L.count p) := by
      by_cases hlt : p < L.next
      · exact h.closed p hlt
      · exact (h.opened p (Nat.not_lt.mp hlt)).settled (hp.resolve_left hlt)
    refine hsettled.shift fun v => ?_
    rw [hcell]
    exact Or.inr rfl

end Ledger

end ElasticPPQ
