import ElasticPPQ.Plq.Sched
import ElasticPPQ.Plq.WorkerCells
import Mathlib.Algebra.Order.BigOperators.Group.Finset

/-! # The states of a pane

One pane seen across all workers is a family of cells. While the pane is open, some workers hold a
partition and know the current count (`Open`); once its count is final it is `Settled`. Each kind of
message moves a pane from one of these states to one of them. -/

namespace ElasticPPQ

open FifoNet

variable {N DIM : Nat}

/-! ## Cells under a list of sends -/

/-- The cells of all panes and workers. -/
abbrev Cells (N : Nat) := Nat → Fin N → Cell

/-- The cells after the workers have processed a list of sends. -/
def Cells.send (iop : Bool) (l : Sends N DIM) (c : Cells N) : Cells N :=
  fun p w => (msgsTo w l).foldl (cellStep iop p) (c p w)

/-- No worker aborts on a list of sends. -/
def SendsOk (iop : Bool) (c : Cells N) (l : Sends N DIM) : Prop :=
  ∀ w, CellsOk iop (fun p => c p w) (msgsTo w l)

/-- Messages in two parts are as they should be if both parts are. -/
theorem cellsOk_append {iop : Bool} {ts us : List (Tuple DIM)} {c : Nat → Cell} :
    CellsOk iop c (ts ++ us) ↔
      CellsOk iop c ts ∧ CellsOk iop (fun p => ts.foldl (cellStep iop p) (c p)) us := by
  induction ts generalizing c with
  | nil => exact ⟨fun h => ⟨trivial, h⟩, fun h => h.2⟩
  | cons t ts ih =>
      simp only [List.cons_append, CellsOk, ih, List.foldl_cons, and_assoc]

/-- Nothing is sent. -/
@[simp] theorem Cells.send_nil (iop : Bool) (c : Cells N) :
    c.send iop ([] : Sends N DIM) = c := rfl

/-- Messages sent in two parts. -/
theorem Cells.send_append (iop : Bool) (l m : Sends N DIM) (c : Cells N) :
    c.send iop (l ++ m) = (c.send iop l).send iop m := by
  funext p w
  rw [send, msgsTo_append, List.foldl_append]
  rfl

/-- Messages in two parts may be sent if both parts may. -/
theorem SendsOk.append {iop : Bool} {c : Cells N} {l m : Sends N DIM} (hl : SendsOk iop c l)
    (hm : SendsOk iop (c.send iop l) m) : SendsOk iop c (l ++ m) := by
  intro w
  rw [msgsTo_append, cellsOk_append]
  exact ⟨hl w, hm w⟩

/-- Nothing may always be sent. -/
theorem SendsOk.nil (iop : Bool) (c : Cells N) : SendsOk iop c ([] : Sends N DIM) :=
  fun _ => trivial

/-! ## One message at one cell -/

section CellStep

variable (iop : Bool) (p : Nat) (c : Cell)

/-- A message that computes opens a partition where there is none; an in-order worker closes the panes
below. -/
theorem cellStep_regular {t : Tuple DIM} (ht : t.type = .regular ∨ t.type = .emptyPane) :
    cellStep iop p c t =
      if p = t.paneId ∧ c.1 = [] then ([t.noInstances], c.2)
      else if iop ∧ p < t.paneId then ([], c.2 ++ c.1) else c := by
  rcases ht with ht | ht <;> simp only [cellStep, ht]

/-- A new number of partitions is noted in those that are open. -/
@[simp] theorem cellStep_newinst (q n nw : Nat) :
    cellStep iop p c (Tuple.createNewinst q n nw : Tuple DIM) =
      if p = q then (c.1.map fun _ => n, c.2) else c := rfl

/-- A flush closes what is open, or, at an out-of-order worker, all with number 0. -/
@[simp] theorem cellStep_flush (nw q : Nat) :
    cellStep iop p c (Tuple.createFlush nw q : Tuple DIM) =
      if iop ∧ p < q then ([], c.2 ++ c.1) else ([], c.2 ++ c.1.map fun _ => 0) := rfl

/-- An empty pane is emitted as one partition. -/
@[simp] theorem cellStep_lull (q : Nat) :
    cellStep iop p c (Tuple.createLull q : Tuple DIM) =
      if p = q then (c.1, c.2 ++ [1]) else c := rfl

/-- A punctuation closes the panes below. -/
@[simp] theorem cellStep_punct (ts : ℚ) (q nw : Nat) :
    cellStep iop p c (Tuple.createPunctuation ts q nw : Tuple DIM) =
      if p < q then ([], c.2 ++ c.1) else c := rfl

/-- The end of the stream closes all panes. -/
@[simp] theorem cellStep_end (nw : Nat) :
    cellStep iop p c (Tuple.createEnd nw : Tuple DIM) = ([], c.2 ++ c.1) := rfl

/-- A repeated `NEW_INST` message acts as a single one. -/
theorem foldl_newinst (q n nw : Nat) {k : Nat} (hk : k ≠ 0) :
    (List.replicate k (Tuple.createNewinst q n nw : Tuple DIM)).foldl (cellStep iop p) c =
      if p = q then (c.1.map fun _ => n, c.2) else c := by
  induction k generalizing c with
  | zero => exact absurd rfl hk
  | succ k ih =>
      rw [List.replicate_succ, List.foldl_cons, cellStep_newinst]
      by_cases hk0 : k = 0
      · subst hk0; rfl
      · rw [ih _ hk0]
        by_cases hp : p = q
        · simp [hp]
        · simp [hp]

/-- A repeated `NEW_INST` message for another pane changes nothing. -/
theorem foldl_newinst_of_ne {p q : Nat} (hp : p ≠ q) (n nw k : Nat) :
    (List.replicate k (Tuple.createNewinst q n nw : Tuple DIM)).foldl (cellStep iop p) c = c := by
  by_cases hk : k = 0
  · subst hk; rfl
  · rw [foldl_newinst _ _ _ _ _ _ hk, if_neg hp]

/-- Lulls, and punctuations where there are any, can always be processed. -/
theorem cellsOk_of_forall {iop : Bool} {ts : List (Tuple DIM)}
    (h : ∀ t ∈ ts, t.type = .lull ∨ iop = false ∧ t.type = .punct) (c : Nat → Cell) :
    CellsOk iop c ts := by
  induction ts generalizing c with
  | nil => trivial
  | cons t ts ih =>
      refine ⟨?_, ih (fun u hu => h u (List.mem_cons_of_mem _ hu)) _⟩
      rcases h t List.mem_cons_self with ht | ⟨rfl, ht⟩
      · refine ⟨fun hty => ?_, fun _ hty => ?_, fun _ hty => ?_⟩ <;> simp [ht] at hty
      · refine ⟨fun hty => ?_, fun hi => absurd hi Bool.false_ne_true,
          fun hi => absurd hi Bool.false_ne_true⟩
        simp [ht] at hty

/-- Repeated `NEW_INST` messages for an open pane can be processed. -/
theorem cellsOk_newinst (q n nw k : Nat) {c : Nat → Cell} (hc : (c q).1 ≠ []) :
    CellsOk iop c (List.replicate k (Tuple.createNewinst q n nw : Tuple DIM)) := by
  induction k generalizing c with
  | zero => trivial
  | succ k ih =>
      refine ⟨⟨fun _ => hc, fun _ hty => ?_, fun _ hty => ?_⟩, ih ?_⟩
      · cases hty
      · rcases hty with hty | hty | hty <;> cases hty
      · simpa using hc

end CellStep

/-! ## The two states of a pane -/

/-- The number of results sets of a pane, open or emitted, over all workers. -/
def cellTotal (c : Fin N → Cell) : Nat := ∑ w, ((c w).1.length + (c w).2.length)

/-- The partitions of one worker are among all. -/
theorem length_le_cellTotal (c : Fin N → Cell) (w : Fin N) :
    (c w).1.length + (c w).2.length ≤ cellTotal c :=
  Finset.single_le_sum (fun w _ => Nat.zero_le ((c w).1.length + (c w).2.length))
    (Finset.mem_univ w)

/-- A pane with `n` partitions, those of `H` still held by a worker and the other ones flushed with
an unspecified counter. -/
structure Open (c : Fin N → Cell) (H : Finset (Fin N)) (n : Nat) : Prop where
  held : ∀ w, (c w).1 = if w ∈ H then [n] else []
  flushed : ∀ w, ∀ k ∈ (c w).2, k = 0
  total : cellTotal c = n

/-- A pane with `n` partitions whose number is final: every counter is `0` or `n`, and one is `n`. -/
structure Settled (c : Fin N → Cell) (n : Nat) : Prop where
  values : ∀ w, ∀ k ∈ (c w).1 ++ (c w).2, k = 0 ∨ k = n
  total : cellTotal c = n
  final : ∃ w, n ∈ (c w).1 ++ (c w).2

/-- What a cell becomes when its open results set is, possibly, sent out. -/
def Shifted (c c' : Cell) : Prop := c' = c ∨ c' = ([], c.2 ++ c.1)

/-- Partitions close in two steps. -/
theorem Shifted.trans {c c' c'' : Cell} (h : Shifted c c') (h' : Shifted c' c'') :
    Shifted c c'' := by
  rcases h with rfl | rfl
  · exact h'
  · rcases h' with rfl | rfl
    · exact Or.inr rfl
    · exact Or.inr (by simp)

/-- No partition opens when others close. -/
theorem Shifted.eq_nil {c c' : Cell} (h : Shifted c c') (hc : c.1 = []) : c'.1 = [] := by
  rcases h with rfl | rfl
  · exact hc
  · rfl

/-- The partitions stay the same. -/
theorem Shifted.perm {c c' : Cell} (h : Shifted c c') : (c'.1 ++ c'.2).Perm (c.1 ++ c.2) := by
  rcases h with rfl | rfl
  · exact List.Perm.refl _
  · show (c.2 ++ c.1).Perm (c.1 ++ c.2)
    exact List.perm_append_comm

/-- A final count stays final while the results sets are sent out. -/
theorem Settled.shift {c c' : Fin N → Cell} {n : Nat} (h : Settled c n)
    (hs : ∀ w, Shifted (c w) (c' w)) : Settled c' n where
  values := fun w k hk => h.values w k ((hs w).perm.mem_iff.mp hk)
  total := by
    rw [← h.total]
    refine Finset.sum_congr rfl fun w _ => ?_
    have := (hs w).perm.length_eq
    simpa using this
  final := by
    obtain ⟨w, hw⟩ := h.final
    exact ⟨w, (hs w).perm.mem_iff.mpr hw⟩

/-- A pane that has been settled has a partition. -/
theorem Settled.pos {c : Fin N → Cell} {n : Nat} (h : Settled c n) : 1 ≤ n := by
  obtain ⟨w, hw⟩ := h.final
  have hle := length_le_cellTotal c w
  have hlen := List.length_pos_of_mem hw
  rw [List.length_append] at hlen
  have := h.total
  omega

/-- An open pane that is held by some worker is settled. -/
theorem Open.settled {c : Fin N → Cell} {H : Finset (Fin N)} {n : Nat} (h : Open c H n)
    (hH : H.Nonempty) : Settled c n where
  values := by
    intro w k hk
    rcases List.mem_append.mp hk with hk | hk
    -- a partition still in the deque carries the current count, the ones handed over carry 0
    · rw [h.held w] at hk
      by_cases hw : w ∈ H
      · rw [if_pos hw] at hk
        exact Or.inr (List.mem_singleton.mp hk)
      · rw [if_neg hw] at hk
        exact absurd hk List.not_mem_nil
    · exact Or.inl (h.flushed w k hk)
  total := h.total
  final := by
    -- the workers that still hold the pane are the ones that will announce its count
    obtain ⟨w, hw⟩ := hH
    refine ⟨w, List.mem_append_left _ ?_⟩
    rw [h.held w, if_pos hw]
    exact List.mem_singleton_self n

/-- A pane without partitions has left no trace anywhere. -/
theorem Open.eq_nil {c : Fin N → Cell} {H : Finset (Fin N)} (h : Open c H 0) (w : Fin N) :
    c w = ([], []) := by
  have hle := length_le_cellTotal c w
  have htot := h.total
  have h1 : (c w).1 = [] := List.length_eq_zero_iff.mp (by omega)
  have h2 : (c w).2 = [] := List.length_eq_zero_iff.mp (by omega)
  exact Prod.ext h1 h2

/-- The empty results set of a lull settles a pane without partitions. -/
theorem Open.lull {c c' : Fin N → Cell} {H : Finset (Fin N)} (h : Open c H 0) {w : Fin N}
    (hw : c' w = ([], [1])) (hne : ∀ v, v ≠ w → c' v = c v) : Settled c' 1 where
  values := by
    intro v k hk
    -- the worker of the LULL emits the only set of a pane nobody else has seen
    by_cases hv : v = w
    · subst hv
      rw [hw] at hk
      exact Or.inr (by simpa using hk)
    · rw [hne v hv, h.eq_nil v] at hk
      simp at hk
  total := by
    rw [cellTotal, Finset.sum_eq_single w]
    · simp [hw]
    · intro v _ hv
      simp [hne v hv, h.eq_nil v]
    · intro hw'
      exact absurd (Finset.mem_univ w) hw'
  final := ⟨w, by simp [hw]⟩

/-- A new partition: the holders learn the new count, and one more worker holds the pane. -/
theorem Open.split {c c' : Fin N → Cell} {H : Finset (Fin N)} {n : Nat} (h : Open c H n)
    {w : Fin N} (hw : w ∉ H) (hnew : c' w = ([n + 1], (c w).2))
    (hheld : ∀ v ∈ H, c' v = ([n + 1], (c v).2)) (hne : ∀ v ∉ H, v ≠ w → c' v = c v) :
    Open c' (insert w H) (n + 1) where
  held := by
    intro v
    -- the new partition, the ones told by a NEWINST, and the workers without one
    by_cases hv : v = w
    · subst hv
      rw [hnew, if_pos (Finset.mem_insert_self v H)]
    · by_cases hvH : v ∈ H
      · rw [hheld v hvH, if_pos (Finset.mem_insert_of_mem hvH)]
      · rw [hne v hvH hv, h.held v, if_neg hvH, if_neg]
        intro hv'
        rcases Finset.mem_insert.mp hv' with hv' | hv'
        · exact hv hv'
        · exact hvH hv'
  flushed := by
    intro v k hk
    by_cases hv : v = w
    · subst hv
      rw [hnew] at hk
      exact h.flushed v k hk
    · by_cases hvH : v ∈ H
      · rw [hheld v hvH] at hk
        exact h.flushed v k hk
      · rw [hne v hvH hv] at hk
        exact h.flushed v k hk
  total := by
    -- the new partition is the one set more that the raised count stands for
    have hlen : ∀ v, (c' v).1.length + (c' v).2.length
        = (c v).1.length + (c v).2.length + if v = w then 1 else 0 := by
      intro v
      by_cases hv : v = w
      · subst hv
        rw [hnew, h.held v, if_neg hw, if_pos rfl]
        simp only [List.length_cons, List.length_nil]
        omega
      · rw [if_neg hv]
        by_cases hvH : v ∈ H
        · rw [hheld v hvH, h.held v, if_pos hvH]
          rfl
        · rw [hne v hvH hv, Nat.add_zero]
    rw [cellTotal, Finset.sum_congr rfl fun v _ => hlen v, Finset.sum_add_distrib,
      Finset.sum_ite_eq' Finset.univ w fun _ => 1, if_pos (Finset.mem_univ w)]
    exact congrArg (· + 1) h.total

/-- A flush: the flushed workers send their partitions out with an unspecified counter. -/
theorem Open.flush {c c' : Fin N → Cell} {H : Finset (Fin N)} {n : Nat} (h : Open c H n)
    {ws : Finset (Fin N)} (hws : ∀ w ∈ ws, c' w = ([], (c w).2 ++ (c w).1.map fun _ => 0))
    (hne : ∀ w ∉ ws, c' w = c w) : Open c' (H \ ws) n where
  held := by
    intro w
    -- a flushed worker hands its set over with 0 instances and holds the pane no longer
    by_cases hw : w ∈ ws
    · rw [hws w hw, if_neg (by simp [hw])]
    · rw [hne w hw, h.held w]
      simp [hw]
  flushed := by
    intro w k hk
    by_cases hw : w ∈ ws
    · rw [hws w hw] at hk
      rcases List.mem_append.mp hk with hk | hk
      · exact h.flushed w k hk
      · obtain ⟨_, _, rfl⟩ := List.mem_map.mp hk
        rfl
    · rw [hne w hw] at hk
      exact h.flushed w k hk
  total := by
    rw [← h.total]
    refine Finset.sum_congr rfl fun w _ => ?_
    by_cases hw : w ∈ ws
    · rw [hws w hw]
      simp only [List.length_nil, List.length_append, List.length_map]
      omega
    · rw [hne w hw]

/-- A message for a later pane, or the end of the stream, only sends the results sets of a closed
pane out. -/
theorem cellStep_shifted {iop : Bool} {p : Nat} {c : Cell} {t : Tuple DIM}
    (ht : p < t.paneId ∨ t.type = .end) (hc : iop = true ∨ c.1 = []) :
    Shifted c (cellStep iop p c t) := by
  unfold cellStep
  rcases ht with ht | ht
  -- a message for a later pane closes this one if it still is in the deque, END closes every pane
  · cases t.type with
    | punct => exact Or.inr (if_pos ht)
    | «end» => exact Or.inr rfl
    | newInst => exact Or.inl (if_neg ht.ne)
    | lull => exact Or.inl (if_neg ht.ne)
    | flush =>
        rcases hc with hc | hc
        · exact Or.inr (if_pos ⟨hc, ht⟩)
        · simp [Shifted, hc]
    | _ =>
        show Shifted c (if p = t.paneId ∧ c.1 = [] then _ else _)
        rw [if_neg fun h => ht.ne h.1]
        split
        · exact Or.inr rfl
        · exact Or.inl rfl
  · rw [ht]
    exact Or.inr rfl

/-- Hence so does a list of such messages. -/
theorem foldl_shifted {iop : Bool} {p : Nat} {c : Cell} {ts : List (Tuple DIM)}
    (hts : ∀ t ∈ ts, p < t.paneId ∨ t.type = .end) (hc : iop = true ∨ c.1 = []) :
    Shifted c (ts.foldl (cellStep iop p) c) := by
  induction ts generalizing c with
  | nil => exact Or.inl rfl
  | cons t ts ih =>
      have hstep := cellStep_shifted (hts t List.mem_cons_self) hc
      refine hstep.trans (ih (fun u hu => hts u (List.mem_cons_of_mem _ hu)) ?_)
      exact hc.imp_right hstep.eq_nil

end ElasticPPQ
