import ElasticPPQ.Wlq.Dispatch
import ElasticPPQ.Wlq.System
import ElasticPPQ.Wlq.Windows
import Mathlib.Algebra.BigOperators.Ring.Finset

/-! # The invariant of one window

What the slot of a window has to do with the results sets delivered so far and with the tasks of the
window in flight (`Control`). In an open window the completed, the pending and the running work add up
to the results sets that have arrived; this is why the coincidence that `toFinalize` tests for means
that the last one is at hand. Every move of the emitter keeps the invariant, moves the results sets
that the window still holds (`held`) without losing any, and changes the number of pending tasks
(`npend`) as the emitter counts it. -/

namespace ElasticPPQ

variable {R : Type}

/-! ## What has arrived -/

/-- The results sets of window `k`, by order of arrival, of those with pane identifiers `ids`. -/
def arrivals (c : WlqParams) (ids : List Nat) (k : Nat) : List Nat :=
  (List.range ids.length).filter fun i => InWindow c.wp c.sp k (ids.getD i 0)

/-- One results set more has arrived. -/
theorem arrivals_concat (c : WlqParams) (ids : List Nat) (p k : Nat) :
    arrivals c (ids ++ [p]) k
      = arrivals c ids k ++ if InWindow c.wp c.sp k p then [ids.length] else [] := by
  rw [arrivals, List.length_append, List.length_singleton, List.range_succ, List.filter_append]
  congr 1
  · refine List.filter_congr fun i hi => ?_
    rw [List.getD_append _ _ _ _ (List.mem_range.mp hi)]
  · rw [List.filter_cons, List.filter_nil, List.getD_append_right _ _ _ _ le_rfl]
    simp only [Nat.sub_self, List.getD_cons_zero, decide_eq_true_eq]

/-- The arrivals of a window, pane by pane. -/
theorem length_arrivals (c : WlqParams) (ids : List Nat) (k : Nat) :
    (arrivals c ids k).length = ∑ j ∈ Finset.range c.wp, ids.count (c.sp * k + j) := by
  -- induction on the arrivals from the end, each of which lies at one place of the window at most
  induction ids using List.reverseRecOn with
  | nil => simp [arrivals]
  | append_singleton ids p ih =>
      have hone : (∑ j ∈ Finset.range c.wp, [p].count (c.sp * k + j))
          = if InWindow c.wp c.sp k p then 1 else 0 := by
        -- the pane occurs at one place of the window
        by_cases hp : InWindow c.wp c.sp k p
        · obtain ⟨hle, hlt⟩ := hp
          rw [if_pos ⟨hle, hlt⟩, Finset.sum_eq_single (p - c.sp * k)]
          · rw [Nat.add_sub_cancel' hle, List.count_singleton_self]
          · intro j _ hj
            exact List.count_eq_zero_of_not_mem fun h => hj (by
              have := List.mem_singleton.mp h
              omega)
          · intro h
            exact absurd (Finset.mem_range.mpr (by omega)) h
        · rw [if_neg hp]
          refine Finset.sum_eq_zero fun j hj => List.count_eq_zero_of_not_mem fun h => hp ?_
          have := List.mem_singleton.mp h
          have := Finset.mem_range.mp hj
          exact ⟨by omega, by omega⟩
      simp only [List.count_append]
      rw [arrivals_concat, List.length_append, ih, Finset.sum_add_distrib, hone]
      split <;> rfl

/-- All the results sets of window `k` have arrived, at least one for each pane. -/
def Complete (c : WlqParams) (plan : Multiset Nat) (ids : List Nat) (k : Nat) : Prop :=
  ∀ p, InWindow c.wp c.sp k p → ids.count p = plan.count p ∧ 0 < plan.count p

/-- The number of partitions of pane `p` is known from a results set delivered. -/
def Known (delivered : List (Rset R)) (p : Nat) : Prop :=
  ∃ r ∈ delivered, r.id = p ∧ 0 < r.noInstances

instance decidableKnown (delivered : List (Rset R)) (p : Nat) : Decidable (Known delivered p) :=
  inferInstanceAs (Decidable (∃ r ∈ delivered, r.id = p ∧ 0 < r.noInstances))

/-- The number of results sets of a pane comes with one of them. -/
theorem known_concat (delivered : List (Rset R)) (r : Rset R) (p : Nat) :
    Known (delivered ++ [r]) p ↔ Known delivered p ∨ r.id = p ∧ 0 < r.noInstances := by
  constructor
  · rintro ⟨r', hr', hid, hn⟩
    rcases List.mem_append.mp hr' with hr' | hr'
    · exact Or.inl ⟨r', hr', hid, hn⟩
    · rw [List.mem_singleton.mp hr'] at hid hn
      exact Or.inr ⟨hid, hn⟩
  · rintro (⟨r', hr', hid, hn⟩ | h)
    · exact ⟨r', List.mem_append_left _ hr', hid, hn⟩
    · exact ⟨r, List.mem_append_right _ (List.mem_singleton_self r), h⟩

/-- All the results sets of window `k` have arrived, and with them the numbers of partitions. -/
def Informed (c : WlqParams) (plan : Multiset Nat) (delivered : List (Rset R)) (k : Nat) : Prop :=
  ∀ p, InWindow c.wp c.sp k p →
    (delivered.map Rset.id).count p = plan.count p ∧ Known delivered p

/-- Results sets of other panes do not matter. -/
theorem informed_concat {c : WlqParams} {plan : Multiset Nat} {delivered : List (Rset R)} {k : Nat}
    {r : Rset R} (hout : ¬ InWindow c.wp c.sp k r.id) (h : Informed c plan (delivered ++ [r]) k) :
    Informed c plan delivered k := by
  intro p hp
  have hne : r.id ≠ p := fun heq => hout (heq ▸ hp)
  obtain ⟨hcount, hknown⟩ := h p hp
  rw [List.map_append, List.count_append, List.map_singleton,
    List.count_eq_zero_of_not_mem fun h => hne (List.mem_singleton.mp h).symm, Nat.add_zero] at hcount
  exact ⟨hcount, ((known_concat _ _ _).mp hknown).resolve_right fun h => hne h.1⟩

/-- The counters of a window descriptor, as they have to be. -/
def countTable (c : WlqParams) (plan : Multiset Nat) (delivered : List (Rset R)) (k : Nat) :
    List Int :=
  (List.range c.wp).map fun j =>
    if Known delivered (c.sp * k + j) then (plan.count (c.sp * k + j) : Int) else -1

/-! ## What the tasks hold -/

namespace WTask

/-- The results sets of a task that belong to no window yet: what it still has to fold in, or the
result of a `MERGE`. -/
def operands (t : WTask) : Multiset Addr :=
  (if t.type = .merge then {t.p1} else 0) + t.p2.elim 0 fun a => {a}

end WTask

/-- How many `WIN_UPDATE` tasks there are. -/
def updates (T : Multiset WTask) : Nat := T.countP fun t => t.type = .winUpdate

/-- How many `MERGE` tasks there are. -/
def merges (T : Multiset WTask) : Nat := T.countP fun t => t.type = .merge

/-- No tasks, no updates. -/
@[simp] theorem updates_zero : updates 0 = 0 := rfl

/-- No tasks, no merges. -/
@[simp] theorem merges_zero : merges 0 = 0 := rfl

/-- The updates of two collections of tasks. -/
@[simp] theorem updates_add (T T' : Multiset WTask) : updates (T + T') = updates T + updates T' :=
  Multiset.countP_add ..

/-- The merges of two collections of tasks. -/
@[simp] theorem merges_add (T T' : Multiset WTask) : merges (T + T') = merges T + merges T' :=
  Multiset.countP_add ..

/-- One task is an update or not. -/
@[simp] theorem updates_singleton (t : WTask) :
    updates {t} = if t.type = .winUpdate then 1 else 0 := by
  rw [updates, ← Multiset.cons_zero, Multiset.countP_cons, Multiset.countP_zero, Nat.zero_add]

/-- One task is a merge or not. -/
@[simp] theorem merges_singleton (t : WTask) : merges {t} = if t.type = .merge then 1 else 0 := by
  rw [merges, ← Multiset.cons_zero, Multiset.countP_cons, Multiset.countP_zero, Nat.zero_add]

/-- Every task is of one of the two types. -/
theorem updates_add_merges (T : Multiset WTask) : updates T + merges T = T.card := by
  induction T using Multiset.induction with
  | empty => rfl
  | cons t T ih =>
      rw [← Multiset.singleton_add, updates_add, merges_add, Multiset.card_add,
        Multiset.card_singleton, ← ih]
      cases hty : t.type with
      | winUpdate =>
          simp [hty]
          omega
      | merge =>
          simp [hty]
          omega

/-- The results sets that a window holds: pending, or operands of its tasks. -/
def held (slot : WinSlot) (T : Multiset WTask) : Multiset Addr :=
  (slot.pending : Multiset Addr) + T.bind WTask.operands

/-- What a window holds with one task more. -/
theorem held_add (slot : WinSlot) (T : Multiset WTask) (t : WTask) :
    held slot (T + {t}) = held slot T + t.operands := by
  rw [held, Multiset.add_bind, Multiset.singleton_bind, held, add_assoc]

/-- A results set that is pending is held. -/
theorem held_cons {wd : WinDescr} {p : Addr} {q : List Addr} (hq : wd.pendingQueue = p :: q)
    (T : Multiset WTask) :
    held (.opened wd) T = held (.opened { wd with pendingQueue := q }) T + {p} := by
  rw [held, held, WinSlot.pending, WinSlot.pending, hq, ← Multiset.cons_coe,
    ← Multiset.singleton_add,
    add_comm ({p} : Multiset Addr), add_right_comm]

/-- The pending tasks of a window, as the emitter counts them: one less per `MERGE` task than the
results sets it takes. -/
def npend (slot : WinSlot) (T : Multiset WTask) : Nat := slot.pending.length + merges T

/-- Whether a window is finalized, as a number. -/
def WinSlot.done : WinSlot → Nat
  | finalized => 1
  | _ => 0

/-- The finalizing tasks that have not been executed yet. -/
def awaited (T : Multiset WTask) : Nat := T.countP fun t => t.finalize = true ∧ t.p2 ≠ none

/-! ## The invariant -/

/-- An open window. -/
structure Opened (c : WlqParams) (plan : Multiset Nat) (delivered : List (Rset R)) (k : Nat)
    (wd : WinDescr) (T : Multiset WTask) : Prop where
  id : wd.id = k
  firstPaneId : wd.firstPaneId = c.sp * k
  cntIns : wd.cntIns = countTable c plan delivered k
  nonneg : 0 ≤ wd.cntTasksCom
  busy : updates T = if wd.isBusy then 1 else 0
  running : ∀ t ∈ T, t.finalize = false ∧ (t.type = .winUpdate → t.p1 = .win k)
  total : wd.cntTasksCom + wd.pendingQueue.length + updates T + 2 * merges T
    = ((arrivals c (delivered.map Rset.id) k).length : Int)
  pursued : Informed c plan delivered k → 1 ≤ wd.pendingQueue.length + merges T

/-- **The invariant of window `k`**, for its slot and its tasks in flight. -/
def Control (c : WlqParams) (plan : Multiset Nat) (delivered : List (Rset R)) (k : Nat) :
    WinSlot → Multiset WTask → Prop
  | .unopened, T => T = 0 ∧ arrivals c (delivered.map Rset.id) k = []
  | .opened wd, T => Opened c plan delivered k wd T
  | .finalized, T => Complete c plan (delivered.map Rset.id) k ∧
      (T = 0 ∨ ∃ t, T = {t} ∧ t.type = .winUpdate ∧ t.finalize = true ∧ t.p1 = .win k)

/-! ## Finalization -/

/-- The loop over the counts stops at a pane of which the number is not known. -/
theorem WinDescr.sumCounts_eq (cs : List Int) (a : Int) :
    sumCounts cs a = if -1 ∈ cs then -1 else a + cs.sum := by
  induction cs generalizing a with
  | nil => simp [sumCounts]
  | cons x cs ih =>
      by_cases hx : x = -1
      · simp [sumCounts, hx]
      · rw [sumCounts, if_neg hx, ih, List.sum_cons]
        have hmem : -1 ∈ x :: cs ↔ -1 ∈ cs := by simp [Ne.symm hx]
        simp only [hmem, add_assoc]

section Moves

variable {c : WlqParams} {plan : Multiset Nat} {delivered : List (Rset R)} {k : Nat}
  {slot slot' : WinSlot} {T : Multiset WTask} {ts : List WTask} {wd : WinDescr}

/-- No more results sets have been delivered than planned. -/
def Planned (plan : Multiset Nat) (delivered : List (Rset R)) : Prop :=
  ∀ p, (delivered.map Rset.id).count p ≤ plan.count p

/-- When `toFinalize` holds at most one task is not completed, and if none has been lost on the way
the window is complete. -/
theorem Opened.of_toFinalize (h : Opened c plan delivered k wd T) (hplan : Planned plan delivered)
    (hfin : wd.toFinalize = true) :
    ((arrivals c (delivered.map Rset.id) k).length : Int) ≤ wd.cntTasksCom + 1 ∧
      (((arrivals c (delivered.map Rset.id) k).length : Int) = wd.cntTasksCom + 1 →
        Complete c plan (delivered.map Rset.id) k) := by
  have hsum := of_decide_eq_true hfin
  rw [WinDescr.sumCounts_eq] at hsum
  have hnonneg := h.nonneg
  -- a pane of unknown count makes the sum -1, which no number of completed tasks matches
  by_cases hmem : -1 ∈ wd.cntIns
  · rw [if_pos hmem] at hsum
    omega
  · rw [if_neg hmem, zero_add, h.cntIns] at hsum
    rw [h.cntIns] at hmem
    -- every pane of the window has announced its count
    have hknown : ∀ j, j < c.wp → Known delivered (c.sp * k + j) := by
      intro j hj
      by_contra hno
      exact hmem (List.mem_map.mpr ⟨j, List.mem_range.mpr hj, if_neg hno⟩)
    have htotal : (∑ j ∈ Finset.range c.wp, (plan.count (c.sp * k + j) : Int))
        = wd.cntTasksCom + 1 := by
      rw [← hsum, countTable]
      show ((List.range c.wp).map _).sum = _
      refine congrArg List.sum (List.map_congr_left fun j hj => ?_)
      rw [if_pos (hknown j (List.mem_range.mp hj))]
    rw [length_arrivals]
    push_cast
    have hle : ∀ j ∈ Finset.range c.wp, (((delivered.map Rset.id).count (c.sp * k + j) : Nat) : Int)
        ≤ plan.count (c.sp * k + j) := fun j _ => by exact_mod_cast hplan _
    -- no pane has more arrivals than planned, so equal sums mean equal counts
    refine ⟨htotal ▸ Finset.sum_le_sum hle, fun heq p hp => ?_⟩
    rw [← htotal, Finset.sum_eq_sum_iff_of_le hle] at heq
    obtain ⟨hpl, hpr⟩ := hp
    have hj := heq (p - c.sp * k) (Finset.mem_range.mpr (by omega))
    rw [Nat.add_sub_cancel' hpl] at hj
    obtain ⟨r, hr, hid, -⟩ := hknown (p - c.sp * k) (by omega)
    rw [Nat.add_sub_cancel' hpl] at hid
    have hpos : 0 < (delivered.map Rset.id).count p :=
      List.count_pos_iff.mpr (List.mem_map.mpr ⟨r, hr, hid⟩)
    have hjn : (delivered.map Rset.id).count p = plan.count p := by exact_mod_cast hj
    exact ⟨hjn, hjn ▸ hpos⟩

/-- **The coincidence that `toFinalize` tests for**: when it holds and something is pending, that is
the last results set of the window, and no task of the window is in flight. -/
theorem Opened.finalize (h : Opened c plan delivered k wd T) (hplan : Planned plan delivered)
    (hfin : wd.toFinalize = true) (hq : wd.pendingQueue ≠ []) :
    wd.pendingQueue.length = 1 ∧ T = 0 ∧ Complete c plan (delivered.map Rset.id) k := by
  obtain ⟨hle, hcomplete⟩ := h.of_toFinalize hplan hfin
  have htotal := h.total
  have hpos := List.length_pos_iff.mpr hq
  have hcard : updates T = 0 ∧ merges T = 0 ∧ wd.pendingQueue.length = 1 := by omega
  obtain ⟨hu, hm, hone⟩ := hcard
  refine ⟨hone, ?_, hcomplete (by omega)⟩
  rw [← Multiset.card_eq_zero, ← updates_add_merges, hu, hm]

/-- **The coincidence comes about**: when a window is informed and has one results set left, which is
pending, `toFinalize` holds. -/
theorem Opened.toFinalize_of_informed (h : Opened c plan delivered k wd T)
    (hin : Informed c plan delivered k)
    (hone : wd.pendingQueue.length + updates T + 2 * merges T = 1) : wd.toFinalize = true := by
  have htotal := h.total
  -- every pane of the window has announced its count
  have hmem : -1 ∉ wd.cntIns := by
    rw [h.cntIns]
    intro hmem
    obtain ⟨j, hj, hneg⟩ := List.mem_map.mp hmem
    have hj := List.mem_range.mp hj
    rw [if_pos (hin _ ⟨Nat.le_add_right _ _, by omega⟩).2] at hneg
    omega
  -- the counts add up to the arrivals
  have hsum : wd.cntIns.sum = ((arrivals c (delivered.map Rset.id) k).length : Int) := by
    rw [h.cntIns, length_arrivals, countTable]
    push_cast
    show _ = ((List.range c.wp).map fun j =>
      (((delivered.map Rset.id).count (c.sp * k + j) : Nat) : Int)).sum
    refine congrArg List.sum (List.map_congr_left fun j hj => ?_)
    have hj := List.mem_range.mp hj
    obtain ⟨hcount, hknown⟩ := hin (c.sp * k + j) ⟨Nat.le_add_right _ _, by omega⟩
    rw [if_pos hknown, hcount]
  refine decide_eq_true ?_
  rw [WinDescr.sumCounts_eq, if_neg hmem, zero_add, hsum]
  omega

/-- Where a window may be finalized one results set at most is pending. -/
theorem Control.lastPending (h : Control c plan delivered k slot T) (hplan : Planned plan delivered) :
    LastPending slot := by
  rintro wd rfl - hfin
  by_cases hq : wd.pendingQueue = []
  · rw [hq]
    exact Nat.zero_le 1
  · exact (Opened.finalize h hplan hfin hq).1.le

/-! ## Tasks are sent -/

/-- A window sends a `WIN_UPDATE` task. -/
theorem Control.updateMove (h : Control c plan delivered k slot T) (hplan : Planned plan delivered)
    (hmv : UpdateMove slot ts slot') :
    Control c plan delivered k slot' (T + ts) ∧ held slot' (T + ts) = held slot T ∧
      npend slot' (T + ts) + ts.length = npend slot T := by
  cases hmv with
  | stay =>
      rw [Multiset.coe_nil, add_zero]
      exact ⟨h, rfl, rfl⟩
  | @update wd p q hb hq =>
      have ho : Opened c plan delivered k wd T := h
      have hid := ho.id
      cases hfin : wd.toFinalize with
      | true =>
          obtain ⟨hone, hT, hcomplete⟩ := ho.finalize hplan hfin (hq ▸ List.cons_ne_nil p q)
          rw [hq, List.length_cons] at hone
          obtain rfl : q = [] := List.eq_nil_of_length_eq_zero (by omega)
          subst hT
          refine ⟨⟨hcomplete, Or.inr ⟨_, zero_add _, rfl, rfl, by rw [hid]⟩⟩, ?_, ?_⟩
          · simp [held, WinSlot.pending, hq, WTask.operands]
          · simp [npend, WinSlot.pending, hq]
      | false =>
          have hu : updates T = 0 := by rw [ho.busy, hb]; rfl
          rw [Multiset.coe_singleton]
          refine ⟨⟨hid, ho.firstPaneId, ho.cntIns, ho.nonneg, ?_, ?_, ?_, fun hin => ?_⟩, ?_, ?_⟩
          · simp [hu]
          · intro t ht
            rcases Multiset.mem_add.mp ht with ht | ht
            · exact ho.running t ht
            · rw [Multiset.mem_singleton.mp ht]
              exact ⟨rfl, fun _ => by rw [hid]⟩
          · have htotal := ho.total
            rw [hq, List.length_cons] at htotal
            simp only [updates_add, merges_add, updates_singleton, merges_singleton, if_true,
              reduceCtorEq, if_false, Nat.add_zero]
            push_cast at htotal ⊢
            omega
          · -- the window would be finalized if this were its last results set
            rw [merges_add, merges_singleton, if_neg (by simp)]
            by_contra hno
            have hno : ¬ 1 ≤ q.length + (merges T + 0) := hno
            have htrue := ho.toFinalize_of_informed hin (by rw [hq, List.length_cons]; omega)
            exact absurd (hfin.symm.trans htrue) Bool.false_ne_true
          · rw [held_add, held_cons hq]
            simp [WTask.operands, held, WinSlot.pending]
          · simp [npend, WinSlot.pending, hq]
            omega

/-- A window sends a `MERGE` task. -/
theorem Control.mergeMove (h : Control c plan delivered k slot T) (hmv : MergeMove slot ts slot') :
    Control c plan delivered k slot' (T + ts) ∧ held slot' (T + ts) = held slot T ∧
      npend slot' (T + ts) + ts.length = npend slot T := by
  -- two pending sets become one task with both as operands
  cases hmv with
  | stay =>
      rw [Multiset.coe_nil, add_zero]
      exact ⟨h, rfl, rfl⟩
  | @merge wd p1 p2 q hq =>
      have ho : Opened c plan delivered k wd T := h
      rw [Multiset.coe_singleton]
      refine ⟨⟨ho.id, ho.firstPaneId, ho.cntIns, ho.nonneg, ?_, ?_, ?_, fun _ => ?_⟩, ?_, ?_⟩
      · simpa using ho.busy
      · intro t ht
        rcases Multiset.mem_add.mp ht with ht | ht
        · exact ho.running t ht
        · rw [Multiset.mem_singleton.mp ht]
          exact ⟨rfl, fun hty => absurd hty (by simp)⟩
      · have htotal := ho.total
        rw [hq, List.length_cons, List.length_cons] at htotal
        simp only [updates_add, merges_add, updates_singleton, merges_singleton, if_true,
          reduceCtorEq, if_false, Nat.add_zero]
        push_cast at htotal ⊢
        omega
      · rw [merges_add, merges_singleton, if_pos rfl]
        omega
      · obtain ⟨wd', hwd'⟩ : ∃ wd' : WinDescr, wd' = { wd with pendingQueue := p2 :: q } := ⟨_, rfl⟩
        have hq' : wd'.pendingQueue = p2 :: q := by rw [hwd']
        rw [held_add, held_cons hq, ← hwd', held_cons hq', hwd', add_assoc]
        simp [WTask.operands, add_comm]
      · simp [npend, WinSlot.pending, hq]
        omega

/-- **A window sends tasks.** -/
theorem Control.dispatchMove (h : Control c plan delivered k slot T) (hplan : Planned plan delivered)
    (hmv : DispatchMove slot ts slot') :
    Control c plan delivered k slot' (T + ts) ∧ held slot' (T + ts) = held slot T ∧
      npend slot' (T + ts) + ts.length = npend slot T := by
  obtain ⟨us, slot₁, ms, hu, hm, rfl⟩ := hmv
  obtain ⟨h₁, hheld₁, hnpend₁⟩ := h.updateMove hplan hu
  obtain ⟨h₂, hheld₂, hnpend₂⟩ := h₁.mergeMove hm
  rw [← Multiset.coe_add, ← add_assoc, List.length_append]
  exact ⟨h₂, hheld₂.trans hheld₁, by omega⟩

/-- A window is finalized by sending a finalizing task. -/
theorem DispatchMove.done (hmv : DispatchMove slot ts slot') :
    slot'.done = slot.done + ts.countP fun t => t.finalize := by
  obtain ⟨us, slot₁, ms, hu, hm, rfl⟩ := hmv
  have hu' : slot₁.done = slot.done + us.countP fun t => t.finalize := by
    cases hu with
    | stay => rfl
    | @update wd p q hb hq => cases wd.toFinalize <;> simp [WinSlot.done]
  have hm' : slot'.done = slot₁.done + ms.countP fun t => t.finalize := by
    cases hm with
    | stay => rfl
    | merge hq => simp [WinSlot.done]
  rw [hm', hu', List.countP_append, Nat.add_assoc]

/-- Tasks are sent before they are executed. -/
theorem DispatchMove.fresh (hmv : DispatchMove slot ts slot') {t : WTask} (ht : t ∈ ts) :
    t.p2 ≠ none := by
  obtain ⟨us, slot₁, ms, hu, hm, rfl⟩ := hmv
  rcases List.mem_append.mp ht with ht | ht
  · cases hu with
    | stay => exact absurd ht List.not_mem_nil
    | update hb hq =>
        rw [List.mem_singleton.mp ht]
        exact Option.some_ne_none _
  · cases hm with
    | stay => exact absurd ht List.not_mem_nil
    | merge hq =>
        rw [List.mem_singleton.mp ht]
        exact Option.some_ne_none _

/-- The finalizing tasks that are awaited, with those sent. -/
theorem DispatchMove.awaited (hmv : DispatchMove slot ts slot') (T : Multiset WTask) :
    awaited (T + ts) = awaited T + ts.countP fun t => t.finalize := by
  rw [ElasticPPQ.awaited, Multiset.countP_add, Multiset.coe_countP]
  refine congrArg _ (List.countP_congr fun t ht => ?_)
  simp [hmv.fresh ht]

/-! ## Tasks come back -/

/-- The feedback of task `t` changes the slot of its window. -/
inductive CompleteMove (t : WTask) : WinSlot → WinSlot → Prop
  /-- A finalizing task. -/
  | finalize (hty : t.type = .winUpdate) (hfin : t.finalize = true) :
      CompleteMove t .finalized .finalized
  /-- Another `WIN_UPDATE` task: the window is not busy any more. -/
  | update (hty : t.type = .winUpdate) (hfin : t.finalize = false) (wd : WinDescr) :
      CompleteMove t (.opened wd) (.opened { wd with isBusy := false }.incrementCompletedTask)
  /-- A `MERGE` task: its result is pending. -/
  | merge (hty : t.type = .merge) (hfin : t.finalize = false) (wd : WinDescr) :
      CompleteMove t (.opened wd)
        (.opened { wd with pendingQueue := t.p1 :: wd.pendingQueue }.incrementCompletedTask)

/-- **A task of the window comes back**, executed. -/
theorem Control.completeMove {t : WTask} (h : Control c plan delivered k slot (T + {t}))
    (hp2 : t.p2 = none) :
    ∃ slot', CompleteMove t slot slot' ∧ Control c plan delivered k slot' T ∧
      held slot' T = held slot (T + {t}) ∧ npend slot' T = npend slot (T + {t}) ∧
      slot'.done = slot.done ∧ awaited T = awaited (T + {t}) := by
  have hmem : t ∈ T + {t} := Multiset.mem_add.mpr (Or.inr (Multiset.mem_singleton_self t))
  have hawait : awaited T = awaited (T + {t}) := by
    rw [awaited, awaited, Multiset.countP_add, ← Multiset.cons_zero, Multiset.countP_cons_of_neg]
    · rfl
    · simp [hp2]
  cases slot with
  | unopened => exact absurd hmem (h.1 ▸ Multiset.notMem_zero t)
  | finalized =>
      obtain ⟨hcomplete, hT | ⟨t', hT, hty, hfin, -⟩⟩ := h
      · exact absurd hmem (hT ▸ Multiset.notMem_zero t)
      · -- the task that completes is the finalizing one
        have htt : t = t' := Multiset.mem_singleton.mp (hT ▸ hmem)
        subst htt
        have hnil : T = 0 := by
          have := congrArg Multiset.card hT
          rw [Multiset.card_add, Multiset.card_singleton] at this
          exact Multiset.card_eq_zero.mp (by omega)
        refine ⟨.finalized, CompleteMove.finalize hty hfin, ⟨hcomplete, Or.inl hnil⟩, ?_, ?_, rfl,
          hawait⟩
        · rw [held_add]
          simp [WTask.operands, hp2, hty]
        · simp [npend, hty]
  | opened wd =>
      have ho : Opened c plan delivered k wd (T + {t}) := h
      have hfin := (ho.running t hmem).1
      have hrunning : ∀ t' ∈ T, t'.finalize = false ∧ (t'.type = .winUpdate → t'.p1 = .win k) :=
        fun t' ht' => ho.running t' (Multiset.mem_add.mpr (Or.inl ht'))
      have hbusy := ho.busy
      have htotal := ho.total
      rw [updates_add, updates_singleton] at hbusy htotal
      rw [merges_add, merges_singleton] at htotal
      cases hty : t.type with
      | winUpdate =>
          -- the window is not busy any more
          refine ⟨_, CompleteMove.update hty hfin wd, ⟨ho.id, ho.firstPaneId, ho.cntIns, ?_, ?_,
            hrunning, ?_, fun hin => ?_⟩, ?_, ?_, rfl, hawait⟩
          · exact Int.add_nonneg ho.nonneg Int.one_nonneg
          · rw [hty, if_pos rfl] at hbusy
            show updates T = 0
            split at hbusy <;> omega
          · rw [hty, if_pos rfl, if_neg (by simp)] at htotal
            show wd.cntTasksCom + 1 + (wd.pendingQueue.length : Nat) + _ + _ = _
            push_cast at htotal ⊢
            omega
          · have hleft := ho.pursued hin
            rw [merges_add, merges_singleton, hty, if_neg (by simp)] at hleft
            exact hleft
          · rw [held_add]
            simp [WTask.operands, hp2, hty, held, WinSlot.pending, WinDescr.incrementCompletedTask]
          · simp [npend, hty, WinSlot.pending, WinDescr.incrementCompletedTask]
      | merge =>
          -- the merged results set is pending again
          refine ⟨_, CompleteMove.merge hty hfin wd, ⟨ho.id, ho.firstPaneId, ho.cntIns, ?_, ?_,
            hrunning, ?_, fun _ => ?_⟩, ?_, ?_, rfl, hawait⟩
          · exact Int.add_nonneg ho.nonneg Int.one_nonneg
          · rw [hty, if_neg (by simp)] at hbusy
            exact hbusy
          · rw [hty, if_neg (by simp), if_pos rfl] at htotal
            show wd.cntTasksCom + 1 + ((t.p1 :: wd.pendingQueue).length : Nat) + _ + _ = _
            rw [List.length_cons]
            push_cast at htotal ⊢
            omega
          · show 1 ≤ (t.p1 :: wd.pendingQueue).length + _
            rw [List.length_cons]
            omega
          · rw [held_add, held_cons (p := t.p1) (q := wd.pendingQueue) rfl]
            simp [WTask.operands, hp2, hty, held, WinSlot.pending]
          · simp [npend, hty, WinSlot.pending, WinDescr.incrementCompletedTask]
            omega

/-- A `WIN_UPDATE` task works on the results set of its window, and only such a task finalizes. -/
theorem Control.winUpdate {t : WTask} (h : Control c plan delivered k slot T) (ht : t ∈ T) :
    (t.type = .winUpdate → t.p1 = .win k) ∧ (t.finalize = true → t.type = .winUpdate) := by
  cases slot with
  | unopened => exact absurd ht (h.1 ▸ Multiset.notMem_zero t)
  | opened wd =>
      obtain ⟨hfin, hp1⟩ := Opened.running h t ht
      exact ⟨hp1, fun hf => absurd (hfin.symm.trans hf) Bool.false_ne_true⟩
  | finalized =>
      obtain ⟨-, hT | ⟨t', hT, hty, -, hp1⟩⟩ := h
      · exact absurd ht (hT ▸ Multiset.notMem_zero t)
      · have htt : t = t' := Multiset.mem_singleton.mp (hT ▸ ht)
        subst htt
        exact ⟨fun _ => hp1, fun _ => hty⟩

/-- A task of the window is executed. -/
theorem Control.exec {t t' : WTask} (h : Control c plan delivered k slot (T + {t}))
    (hty : t'.type = t.type) (hfin : t'.finalize = t.finalize)
    (hp1 : t.type = .winUpdate → t'.p1 = t.p1) :
    Control c plan delivered k slot (T + {t'}) ∧ npend slot (T + {t'}) = npend slot (T + {t}) := by
  have hmem : t ∈ T + {t} := Multiset.mem_add.mpr (Or.inr (Multiset.mem_singleton_self t))
  refine ⟨?_, by simp [npend, hty]⟩
  -- a finalized window has only its last task, an opened one any of its own
  cases slot with
  | unopened => exact absurd hmem (h.1 ▸ Multiset.notMem_zero t)
  | finalized =>
      obtain ⟨hcomplete, hT | ⟨t₀, hT, hty₀, hfin₀, hp₀⟩⟩ := h
      · exact absurd hmem (hT ▸ Multiset.notMem_zero t)
      · have htt : t = t₀ := Multiset.mem_singleton.mp (hT ▸ hmem)
        subst htt
        have hnil : T = 0 := by
          have := congrArg Multiset.card hT
          rw [Multiset.card_add, Multiset.card_singleton] at this
          exact Multiset.card_eq_zero.mp (by omega)
        rw [hnil, zero_add]
        exact ⟨hcomplete, Or.inr ⟨t', rfl, hty.trans hty₀, hfin.trans hfin₀,
          (hp1 hty₀).trans hp₀⟩⟩
  | opened wd =>
      have ho : Opened c plan delivered k wd (T + {t}) := h
      have hbusy := ho.busy
      have htotal := ho.total
      simp only [updates_add, merges_add, updates_singleton, merges_singleton] at hbusy htotal
      refine ⟨ho.id, ho.firstPaneId, ho.cntIns, ho.nonneg, ?_, ?_, ?_, fun hin => ?_⟩
      · rw [updates_add, updates_singleton, hty]
        exact hbusy
      · intro t₁ ht₁
        rcases Multiset.mem_add.mp ht₁ with ht₁ | ht₁
        · exact ho.running t₁ (Multiset.mem_add.mpr (Or.inl ht₁))
        · obtain ⟨hf, hp⟩ := ho.running t hmem
          rw [Multiset.mem_singleton.mp ht₁, hfin, hty]
          exact ⟨hf, fun h => (hp1 h).trans (hp h)⟩
      · simp only [updates_add, merges_add, updates_singleton, merges_singleton, hty]
        exact htotal
      · have hleft := ho.pursued hin
        rw [merges_add, merges_singleton] at hleft ⊢
        rw [hty]
        exact hleft

/-! ## Results sets arrive -/

/-- One more results set, as planned. -/
theorem Planned.concat (h : Planned plan delivered) {r : Rset R}
    (hlt : (delivered.map Rset.id).count r.id < plan.count r.id) :
    Planned plan (delivered ++ [r]) := by
  intro p
  rw [List.map_append, List.count_append, List.map_singleton, List.count_singleton]
  by_cases hp : r.id = p
  · subst hp
    rw [if_pos (by simp)]
    exact hlt
  · rw [if_neg (by simpa using hp)]
    exact h p

/-- Nothing is known of the panes of a window for which nothing has arrived. -/
theorem not_known_of_arrivals (harr : arrivals c (delivered.map Rset.id) k = []) {j : Nat}
    (hj : j < c.wp) : ¬ Known delivered (c.sp * k + j) := by
  rintro ⟨r, hr, hid, -⟩
  have hlen : (arrivals c (delivered.map Rset.id) k).length = 0 := by rw [harr]; rfl
  rw [length_arrivals, Finset.sum_eq_zero_iff] at hlen
  have hzero := hlen j (Finset.mem_range.mpr hj)
  exact List.count_eq_zero.mp hzero (List.mem_map.mpr ⟨r, hr, hid⟩)

/-- A window is opened. -/
theorem Control.open (hwp : 0 < c.wp) (h : Control c plan delivered k .unopened T) :
    Control c plan delivered k (.opened (.new k c.wp (c.sp * k))) T := by
  obtain ⟨rfl, harr⟩ := h
  refine ⟨rfl, rfl, ?_, le_rfl, rfl, fun _ ht => absurd ht (Multiset.notMem_zero _), ?_,
    fun hin => ?_⟩
  · refine List.ext_getElem (by simp [countTable, WinDescr.new]) fun j hj hj' => ?_
    have hjlt : j < c.wp := by simpa [WinDescr.new] using hj
    simp [countTable, WinDescr.new, not_known_of_arrivals harr hjlt]
  · rw [harr]
    rfl
  · exact absurd (hin _ ⟨le_rfl, by omega⟩).2 (not_known_of_arrivals harr hwp)

/-- A results set of a pane outside the window arrives. -/
theorem Control.receive_of_not (h : Control c plan delivered k slot T) {r : Rset R}
    (hout : ¬ InWindow c.wp c.sp k r.id) :
    Control c plan (delivered ++ [r]) k slot T := by
  have harr : arrivals c ((delivered ++ [r]).map Rset.id) k = arrivals c (delivered.map Rset.id) k := by
    rw [List.map_append, List.map_singleton, arrivals_concat, if_neg hout, List.append_nil]
  -- a pane outside the window changes none of its counts
  cases slot with
  | unopened => exact ⟨h.1, harr.trans h.2⟩
  | opened wd =>
      have ho : Opened c plan delivered k wd T := h
      refine ⟨ho.id, ho.firstPaneId, ?_, ho.nonneg, ho.busy, ho.running, harr ▸ ho.total,
        fun hin => ho.pursued (informed_concat hout hin)⟩
      rw [ho.cntIns]
      refine List.map_congr_left fun j hj => ?_
      have hno : r.id ≠ c.sp * k + j := by
        have := List.mem_range.mp hj
        rintro heq
        exact hout ⟨by omega, by omega⟩
      simp only [known_concat, hno, false_and, or_false]
  | finalized =>
      refine ⟨fun p hp => ?_, h.2⟩
      have hno : r.id ≠ p := fun heq => hout (heq ▸ hp)
      rw [List.map_append, List.count_append, List.map_singleton,
        List.count_eq_zero_of_not_mem fun h => hno (List.mem_singleton.mp h).symm, Nat.add_zero]
      exact h.1 p hp

/-- A results set of a pane of an open window arrives. -/
theorem Opened.receive (h : Opened c plan delivered k wd T) {r : Rset R}
    (hin : InWindow c.wp c.sp k r.id) (hn : r.noInstances = 0 ∨ r.noInstances = plan.count r.id)
    (p : Addr) :
    Opened c plan (delivered ++ [r]) k (wd.receive p r.id r.noInstances) T := by
  obtain ⟨hle, hlt⟩ := hin
  have hidx : c.sp * k + (r.id - c.sp * k) = r.id := Nat.add_sub_cancel' hle
  refine ⟨h.id, h.firstPaneId, ?_, h.nonneg, h.busy, h.running, ?_, fun _ => ?_⟩
  · have hget : wd.cntIns.getD (r.id - wd.firstPaneId) 0
        = if Known delivered r.id then (plan.count r.id : Int) else -1 := by
      rw [h.cntIns, h.firstPaneId, countTable, List.getD_eq_getElem _ _ (by simp; omega)]
      simp [hidx]
    show (if _ then wd.cntIns.set (r.id - wd.firstPaneId) r.noInstances else wd.cntIns) = _
    rw [hget]
    by_cases hk : Known delivered r.id
    · -- the number is known already, and it is the same
      rw [if_pos hk, if_neg (by omega), h.cntIns]
      refine List.map_congr_left fun j _ => ?_
      by_cases hj : r.id = c.sp * k + j
      · rw [← hj, if_pos hk, if_pos ((known_concat _ _ _).mpr (Or.inl hk))]
      · simp only [known_concat, hj, false_and, or_false]
    · rw [if_neg hk]
      rcases Nat.eq_zero_or_pos r.noInstances with hz | hpos
      · rw [hz, if_neg (by omega), h.cntIns]
        refine List.map_congr_left fun j _ => ?_
        simp only [known_concat, hz, lt_self_iff_false, and_false, or_false]
      · rw [if_pos ⟨rfl, hpos⟩, h.cntIns, h.firstPaneId]
        have hcount : r.noInstances = plan.count r.id := hn.resolve_left (by omega)
        refine List.ext_getElem (by simp [countTable]) fun j hj hj' => ?_
        rw [List.getElem_set]
        by_cases hjr : r.id - c.sp * k = j
        · subst hjr
          rw [if_pos rfl]
          simp only [countTable, List.getElem_map, List.getElem_range, hidx]
          rw [if_pos ((known_concat _ _ _).mpr (Or.inr ⟨rfl, hpos⟩)), hcount]
        · have hne : r.id ≠ c.sp * k + j := by omega
          simp only [countTable, List.getElem_map, List.getElem_range, if_neg hjr, known_concat, hne,
            false_and, or_false]
  · have htotal := h.total
    rw [List.map_append, List.map_singleton, arrivals_concat, if_pos ⟨hle, hlt⟩, List.length_append]
    show wd.cntTasksCom + ((p :: wd.pendingQueue).length : Nat) + _ + _ = _
    rw [List.length_cons, List.length_singleton]
    push_cast at htotal ⊢
    omega
  · show 1 ≤ (p :: wd.pendingQueue).length + _
    rw [List.length_cons]
    omega

/-- A window that still awaits a results set is not finalized. -/
theorem Control.ne_finalized (h : Control c plan delivered k slot T) {r : Rset R}
    (hin : InWindow c.wp c.sp k r.id)
    (hlt : (delivered.map Rset.id).count r.id < plan.count r.id) : slot ≠ .finalized := by
  rintro rfl
  have := (h.1 r.id hin).1
  omega

end Moves

end ElasticPPQ
