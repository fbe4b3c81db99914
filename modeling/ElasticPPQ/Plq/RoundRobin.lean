import ElasticPPQ.Lib.Turns
import ElasticPPQ.Plq.SchedSpec

/-! # Round-robin selection is fair

`get_rr_w` cuts its scan of the workers at the cursor `last_w`. The activated workers, in the order
of the scan, stand in a queue: a call selects the head of the queue and moves it to the back
(`Sched.getRrW_turn`), wherever the cursor points to. So consecutive calls take turns, and the
tuples of a stream are dealt out in turns by the tuple-based strategy. -/

namespace ElasticPPQ

variable {N DIM : Nat}

namespace Sched

/-! ## The scan as a rotation -/

/-- The order of the scan is a rotation. -/
theorem scanOrder_eq_rotate {w : Nat} (hw : w ≤ N) :
    scanOrder N w = (List.finRange N).rotate w := by
  rw [List.rotate_eq_drop_append_take (by rwa [List.length_finRange]), scanOrder]

/-- The scan that starts behind worker `i` visits the workers behind `i` in an earlier scan, then
the ones in front of `i`, and `i` last. -/
theorem scanOrder_next {w : Nat} (hw : w < N) {front back : List (Fin N)} {i : Fin N}
    (h : scanOrder N w = front ++ i :: back) :
    scanOrder N ((i.val + 1) % N) = back ++ (front ++ [i]) := by
  have hN : 0 < N := Nat.zero_lt_of_lt hw
  rw [scanOrder_eq_rotate hw.le] at h
  -- The position of `i` in the scan gives its identifier.
  have hlen : front.length < ((List.finRange N).rotate w).length := by
    rw [h, List.length_append, List.length_cons]
    omega
  have hi : i.val = (front.length + w) % N := by
    have hget : ((List.finRange N).rotate w)[front.length] = i := by
      simp [h]
    rw [List.getElem_rotate] at hget
    rw [← hget]
    simp
  have hmod : (i.val + 1) % N = (w + (front.length + 1)) % N := by
    rw [hi, Nat.mod_add_mod]
    congr 1
    omega
  rw [scanOrder_eq_rotate (Nat.mod_lt _ hN).le, hmod]
  calc (List.finRange N).rotate ((w + (front.length + 1)) % N)
      = (List.finRange N).rotate (w + (front.length + 1)) := by
        have hrot := List.rotate_mod (List.finRange N) (w + (front.length + 1))
        rwa [List.length_finRange] at hrot
    _ = ((front ++ [i]) ++ back).rotate (front ++ [i]).length := by
        rw [← List.rotate_rotate, h]
        simp
    _ = back ++ (front ++ [i]) := List.rotate_append_length_eq _ _

/-! ## The queue of the activated workers -/

/-- The activated workers, by increasing identifier. -/
def activeWorkers (s : Sched N) : List (Fin N) := (List.finRange N).filter s.activatedWorker

/-- The activated workers in the order of the next scan. -/
def rrQueue (s : Sched N) : List (Fin N) := (scanOrder N s.lastW).filter s.activatedWorker

/-- Each worker is listed once. -/
theorem nodup_activeWorkers (s : Sched N) : s.activeWorkers.Nodup :=
  (List.nodup_finRange N).filter _

/-- Those listed are the activated ones. -/
theorem mem_activeWorkers {s : Sched N} {w : Fin N} :
    w ∈ s.activeWorkers ↔ s.activatedWorker w = true := by
  rw [activeWorkers, List.mem_filter]
  exact and_iff_right (List.mem_finRange w)

/-- The queue is the activated workers in cyclic order of their identifiers. -/
theorem rrQueue_isRotated (s : Sched N) : s.rrQueue ~r s.activeWorkers := by
  have hsplit : s.activeWorkers = ((List.finRange N).take s.lastW).filter s.activatedWorker ++
      ((List.finRange N).drop s.lastW).filter s.activatedWorker := by
    rw [← List.filter_append, List.take_append_drop]
    rfl
  rw [hsplit, rrQueue, scanOrder, List.filter_append]
  exact List.isRotated_append

/-- **A call of `get_rr_w` is a turn**: the head of the queue is selected and goes to the back, and
the cursor stays inside the workers. -/
theorem getRrW_turn {s : Sched N} (hw : s.lastW < N) (h : s.HasActive) :
    ∃ w lastW, s.getRrW = some (w, { s with lastW := lastW }) ∧ lastW < N ∧
      s.rrQueue.head? = some w ∧ rrQueue { s with lastW := lastW } = s.rrQueue.rotate 1 := by
  obtain ⟨v, hv⟩ := h
  obtain ⟨w, hfind⟩ := Option.isSome_iff_exists.mp
    (List.find?_isSome.mpr ⟨v, mem_scanOrder s.lastW v, hv⟩)
  obtain ⟨hact, front, back, hscan, hfront⟩ := List.find?_eq_some_iff_append.mp hfind
  -- The scan passes over the workers in front of the selected one: they are de-activated.
  have hnone : front.filter s.activatedWorker = [] := by
    rw [List.filter_eq_nil_iff]
    intro u hu hu'
    simpa [hu'] using hfront u hu
  have hqueue : s.rrQueue = w :: back.filter s.activatedWorker := by
    rw [rrQueue, hscan, List.filter_append, hnone, List.nil_append, List.filter_cons_of_pos hact]
  refine ⟨w, (w.val + 1) % N, ?_, Nat.mod_lt _ (Nat.zero_lt_of_lt hw), ?_, ?_⟩
  · rw [getRrW, hfind]
    rfl
  · rw [hqueue, List.head?_cons]
  · show (scanOrder N ((w.val + 1) % N)).filter s.activatedWorker = _
    rw [scanOrder_next hw hscan, hqueue, List.filter_append, List.filter_append, hnone,
      List.nil_append, List.filter_cons_of_pos hact, List.filter_nil, List.rotate_cons_succ,
      List.rotate_zero]

/-! ## Consecutive calls -/

/-- `c` consecutive calls of `get_rr_w`, with the selected workers. -/
def getRrWs : Nat → Sched N → Option (List (Fin N) × Sched N)
  | 0, s => some ([], s)
  | c + 1, s => do
      let (w, s) ← s.getRrW
      let (ws, s) ← getRrWs c s
      some (w :: ws, s)

/-- **Consecutive calls take turns.** -/
theorem getRrWs_turns {s : Sched N} (hw : s.lastW < N) (h : s.HasActive) (c : Nat) :
    ∃ lastW, s.getRrWs c = some (turns s.rrQueue c, { s with lastW := lastW }) ∧ lastW < N := by
  induction c generalizing s with
  | zero =>
      rw [turns_zero]
      exact ⟨s.lastW, rfl, hw⟩
  | succ c ih =>
      obtain ⟨w, lastW, hcall, hlast, hhead, hqueue⟩ := getRrW_turn hw h
      obtain ⟨lastW', hcalls, hlast'⟩ := ih (s := { s with lastW := lastW }) hlast h
      refine ⟨lastW', ?_, hlast'⟩
      rw [getRrWs, hcall]
      simp only [Option.bind_eq_bind, Option.bind_some]
      rw [hcalls, hqueue, turns_succ hhead]
      rfl

/-- **Round-robin selection is fair.** With `m ≥ 1` activated workers, `c` consecutive calls succeed
and change nothing but the cursor, which stays inside the workers. They select activated workers
only; any `m` consecutive ones select every activated worker once, in cyclic order of the
identifiers; and each activated worker is selected `⌊c / m⌋` or `⌈c / m⌉` times. -/
theorem getRrWs_fair {s : Sched N} (hw : s.lastW < N) (h : s.HasActive) (c : Nat) :
    ∃ ws lastW, s.getRrWs c = some (ws, { s with lastW := lastW }) ∧ lastW < N ∧ ws.length = c ∧
      (∀ w ∈ ws, s.activatedWorker w = true) ∧
      (∀ i, i + s.activeWorkers.length ≤ c →
        ((ws.drop i).take s.activeWorkers.length) ~r s.activeWorkers ∧
        ∀ w, s.activatedWorker w = true →
          ((ws.drop i).take s.activeWorkers.length).count w = 1) ∧
      (∀ w, s.activatedWorker w = true → c / s.activeWorkers.length ≤ ws.count w ∧
        ws.count w ≤ (c + s.activeWorkers.length - 1) / s.activeWorkers.length) ∧
      ∀ w, s.activatedWorker w = false → ws.count w = 0 := by
  -- the calls take the queue's workers in turn, as many as asked for
  obtain ⟨lastW, hcalls, hlast⟩ := getRrWs_turns hw h c
  have hrot := s.rrQueue_isRotated
  have hlen : s.rrQueue.length = s.activeWorkers.length := hrot.perm.length_eq
  have hnodup : s.rrQueue.Nodup := hrot.nodup_iff.mpr s.nodup_activeWorkers
  have hmem : ∀ w, w ∈ s.rrQueue ↔ s.activatedWorker w = true := by
    intro w
    rw [hrot.mem_iff, mem_activeWorkers]
  have hne : s.rrQueue ≠ [] := by
    obtain ⟨v, hv⟩ := h
    exact List.ne_nil_of_mem ((hmem v).mpr hv)
  refine ⟨turns s.rrQueue c, lastW, hcalls, hlast, length_turns hne c, ?_, ?_, ?_, ?_⟩
  -- only activated workers are in the queue
  · intro w hmemw
    exact (hmem w).mp (mem_of_mem_turns hmemw)
  · intro i hi
    -- any window of one round is the queue turned, in which each worker occurs once
    have hwindow : ((turns s.rrQueue c).drop i).take s.activeWorkers.length
        = s.rrQueue.rotate i := by
      rw [← hlen]
      exact take_drop_turns hne (by omega)
    have hwin := (List.IsRotated.forall s.rrQueue i).trans hrot
    rw [hwindow]
    refine ⟨hwin, fun w hact => ?_⟩
    exact List.count_eq_one_of_mem (hwin.nodup_iff.mpr s.nodup_activeWorkers)
      (hwin.mem_iff.mpr (mem_activeWorkers.mpr hact))
  -- over all calls the counts of two workers differ by one at most
  · intro w hact
    have hcount := count_turns hnodup ((hmem w).mpr hact) c
    rwa [hlen] at hcount
  · intro w hact
    refine List.count_eq_zero.mpr fun hmemw => ?_
    rw [(hmem w).mp (mem_of_mem_turns hmemw)] at hact
    cases hact

/-- Four workers, the second one de-activated and the cursor on it: ten calls. -/
theorem getRrWs_fair_witness : ∃ ws lastW,
    getRrWs 10 { Sched.new 4 4 with
      lastW := 1, activatedWorker := fun i : Fin 4 => decide (i ≠ 1) } = some (ws, { Sched.new 4 4 with
      lastW := lastW, activatedWorker := fun i : Fin 4 => decide (i ≠ 1) }) ∧ lastW < 4 ∧
    ws.count 2 ≤ 4 ∧ ws.count 1 = 0 := by
  obtain ⟨ws, lastW, hcalls, hlast, -, -, -, hcount, hzero⟩ :=
    getRrWs_fair (s := { Sched.new 4 4 with
      lastW := 1, activatedWorker := fun i : Fin 4 => decide (i ≠ 1) })
      (by decide) ⟨0, by decide⟩ 10
  exact ⟨ws, lastW, hcalls, hlast, (hcount 2 (by decide)).2, hzero 1 (by decide)⟩

example : (getRrWs 7 { Sched.new 4 4 with
    lastW := 1, activatedWorker := fun i : Fin 4 => decide (i ≠ 1) }).map Prod.fst
      = some [2, 3, 0, 2, 3, 0, 2] := by
  decide

/-- The queue is read off the cursor and the activated workers. -/
theorem rrQueue_congr {s s' : Sched N} (hlast : s'.lastW = s.lastW)
    (hactive : s'.activatedWorker = s.activatedWorker) : s'.rrQueue = s.rrQueue := by
  rw [rrQueue, rrQueue, hlast, hactive]

end Sched

/-! ## Tuple-based round-robin -/

namespace TbRrSched

/-- Growing the tables leaves the turn where it is. -/
theorem growTo_lastW (p : Nat) (s : TbRrSched N) : (s.growTo p).lastW = s.lastW := by
  unfold growTo
  split <;> rfl

/-- It activates nobody. -/
theorem growTo_activatedWorker (p : Nat) (s : TbRrSched N) :
    (s.growTo p).activatedWorker = s.activatedWorker := by
  unfold growTo
  split <;> rfl

/-- A tuple is sent, last, to the worker whose turn it is. -/
theorem schedToWorker_turn {s s' : TbRrSched N} (hw : s.lastW < N) (h : s.HasActive)
    {t : Tuple DIM} {out : Sends N DIM} (hcall : s.schedToWorker t = some (s', out)) :
    s'.lastW < N ∧ s'.activatedWorker = s.activatedWorker ∧
      s'.rrQueue = s.rrQueue.rotate 1 ∧ out.getLast?.map Prod.fst = s.rrQueue.head? := by
  obtain ⟨c, hc⟩ : ∃ c : Sched N, c = { (s.growTo t.paneId).toSched with
      paneSize := (s.growTo t.paneId).paneSize.set t.paneId
        ((s.growTo t.paneId).paneSize.getD t.paneId 0 + 1) } := ⟨_, rfl⟩
  have hlast : c.lastW = s.lastW := by rw [hc]; exact growTo_lastW _ s
  have hactive : c.activatedWorker = s.activatedWorker := by
    rw [hc]
    exact growTo_activatedWorker _ s
  have hcact : c.HasActive := by rw [Sched.HasActive, hactive]; exact h
  obtain ⟨w, lastW, hrr, hlt, hhead, hrot⟩ := Sched.getRrW_turn (by rwa [hlast]) hcact
  rw [Sched.rrQueue_congr hlast hactive] at hhead hrot
  unfold schedToWorker at hcall
  dsimp only at hcall
  rw [← hc, hrr] at hcall
  simp only [Option.bind_eq_bind, Option.bind_some] at hcall
  -- Whether the worker holds the pane already or not, the cursor and the workers stay.
  obtain ⟨hlast', hactive', hsent⟩ : s'.lastW = lastW ∧ s'.activatedWorker = c.activatedWorker ∧
      out.getLast?.map Prod.fst = some w := by
    split at hcall
    · cases hcall
      exact ⟨rfl, rfl, rfl⟩
    · obtain ⟨news, -, hout⟩ := Option.bind_eq_some_iff.mp hcall
      cases hout
      exact ⟨rfl, rfl, by rw [List.getLast?_concat]; rfl⟩
  refine ⟨by rwa [hlast'], hactive'.trans hactive, ?_, hsent.trans hhead.symm⟩
  rw [← hrot]
  exact Sched.rrQueue_congr hlast' hactive'

/-- The tuples of a stream, one after the other, with the messages sent for each. -/
def schedAll : List (Tuple DIM) → TbRrSched N → Option (TbRrSched N × List (Sends N DIM))
  | [], s => some (s, [])
  | t :: ts, s => do
      let (s, out) ← s.schedToWorker t
      let (s, outs) ← schedAll ts s
      some (s, out :: outs)

/-- **Tuples are dealt out in turns**, whatever panes they belong to. -/
theorem schedAll_turns {s s' : TbRrSched N} (hw : s.lastW < N) (h : s.HasActive)
    {ts : List (Tuple DIM)} {outs : List (Sends N DIM)} (hrun : s.schedAll ts = some (s', outs)) :
    outs.map (fun out => out.getLast?.map Prod.fst) = (turns s.rrQueue ts.length).map some := by
  -- induction on the tuples: each takes the head of the queue and turns it by one
  induction ts generalizing s outs with
  | nil =>
      cases hrun
      rw [List.length_nil, turns_zero]
      rfl
  | cons t ts ih =>
      rw [schedAll] at hrun
      obtain ⟨⟨s₁, out⟩, hcall, hrest⟩ := Option.bind_eq_some_iff.mp hrun
      obtain ⟨⟨s₂, outs₁⟩, hcalls, hres⟩ := Option.bind_eq_some_iff.mp hrest
      cases hres
      -- the call leaves the next worker at the head
      obtain ⟨hlt, hactive, hrot, hlast⟩ := schedToWorker_turn hw h hcall
      have hact : s₁.HasActive := by rw [Sched.HasActive, hactive]; exact h
      obtain ⟨v, hv⟩ := h
      have hmem : v ∈ s.rrQueue :=
        s.toSched.rrQueue_isRotated.mem_iff.mpr (Sched.mem_activeWorkers.mpr hv)
      obtain ⟨w, rest, hqueue⟩ := List.exists_cons_of_ne_nil (List.ne_nil_of_mem hmem)
      have hhead : s.rrQueue.head? = some w := by rw [hqueue, List.head?_cons]
      rw [List.map_cons, ih hlt hact hcalls, hlast, hrot, List.length_cons, turns_succ hhead,
        List.map_cons, hhead]

end TbRrSched

end ElasticPPQ
