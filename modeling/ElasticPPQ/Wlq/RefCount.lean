import ElasticPPQ.Wlq.Finalization
import Mathlib.Data.UInt
import Mathlib.Order.Interval.Finset.Nat

/-! # Reference counting across the stages

A worker of the first stage stores in a results set the number of windows that contain its pane, and
the workers of the second stage decrement it. The number stored is `2 - n` modulo `2^64`, where `n` is
the number of windows that consume the results set: the quotients of the two bounds are subtracted the
wrong way round. It is right only if there is one window (modulo `2^63`). -/

namespace ElasticPPQ

open Channels

/-! ## The number stored -/

section Count

variable {wp sp : Nat}

/-- The windows that contain pane `p`. -/
def windowsOf (wp sp p : Nat) : Finset Nat :=
  (Finset.range (p + 1)).filter fun k => InWindow wp sp k p

/-- The windows of a pane are an interval. -/
theorem windowsOf_eq (hsp : 1 ≤ sp) (p : Nat) :
    windowsOf wp sp p = Finset.Icc (firstWin wp sp p) (lastWin sp p) := by
  ext k
  rw [windowsOf, Finset.mem_filter, Finset.mem_range, Finset.mem_Icc, InWindow, firstWin_le_iff hsp,
    le_lastWin_iff hsp]
  constructor
  · rintro ⟨-, hle, hlt⟩
    exact ⟨hlt, hle⟩
  · rintro ⟨hlt, hle⟩
    have hk : k ≤ sp * k := Nat.le_mul_of_pos_left k hsp
    exact ⟨by omega, hle, hlt⟩

/-- They are those that have the pane. -/
theorem mem_windowsOf (hsp : 1 ≤ sp) (p k : Nat) : k ∈ windowsOf wp sp p ↔ InWindow wp sp k p := by
  rw [windowsOf_eq hsp, Finset.mem_Icc, InWindow, firstWin_le_iff hsp, le_lastWin_iff hsp, and_comm]

/-- As many windows as the emitter of the second stage puts the results set into. -/
theorem card_windowsOf (hsp : 1 ≤ sp) (hle : sp ≤ wp) (p : Nat) :
    (windowsOf wp sp p).card = lastWin sp p - firstWin wp sp p + 1 := by
  have := firstWin_le_lastWin hsp hle p
  rw [windowsOf_eq hsp, Nat.card_Icc]
  omega

/-- A pane is in `wp` windows at most. -/
theorem card_windowsOf_le (hsp : 1 ≤ sp) (hle : sp ≤ wp) (p : Nat) :
    (windowsOf wp sp p).card ≤ wp := by
  have hfirst : p < sp * firstWin wp sp p + wp := (firstWin_le_iff hsp p _).mp le_rfl
  have hlast := (le_lastWin_iff hsp p (lastWin sp p)).mp le_rfl
  have hord := firstWin_le_lastWin hsp hle p
  rw [card_windowsOf hsp hle]
  obtain ⟨d, hd⟩ := Nat.exists_eq_add_of_le hord
  rw [hd, Nat.mul_add] at hlast
  have hdle : d ≤ sp * d := Nat.le_mul_of_pos_left d hsp
  omega

/-- **What `countWindows` computes**: the bounds of the range of windows, subtracted the wrong way
round. -/
theorem countWindows_eq (hsp : 1 ≤ sp) (p : Nat) (hp : p + 1 < 2 ^ 64) :
    countWindows wp sp p
      = UInt64.ofNat (firstWin wp sp p + 1) - UInt64.ofNat (lastWin sp p + 1) + 1 := by
  have hpos : (0 : ℚ) < sp := by exact_mod_cast hsp
  -- the windows are numbered from 0, the source counts them from 1
  have hlast : ⌈((p + 1 : Nat) : ℚ) / sp⌉.toNat = lastWin sp p + 1 := by
    have hone : 0 < ⌈((p + 1 : Nat) : ℚ) / sp⌉₊ := by
      rw [Nat.ceil_pos]
      positivity
    rw [Int.ceil_toNat, lastWin]
    omega
  have hfirst : (if ((p + 1 : Nat) : ℚ) < wp then (1 : UInt64)
      else UInt64.ofNat (⌈(((p + 1 : Nat) : ℚ) - wp) / sp⌉ + 1).toNat)
        = UInt64.ofNat (firstWin wp sp p + 1) := by
    -- a pane before the first full window, the last one of it, or a later one
    rcases Nat.lt_trichotomy (p + 1) wp with hlt | heq | hgt
    · rw [if_pos (by exact_mod_cast hlt), firstWin, if_pos (by omega)]
      rfl
    · rw [if_neg (by rw [heq]; exact lt_irrefl _), firstWin, if_pos (by omega), heq, sub_self, zero_div]
      rfl
    · have hge : 0 ≤ ⌈(((p + 1 : Nat) : ℚ) - wp) / sp⌉ := by
        refine Int.ceil_nonneg (div_nonneg (sub_nonneg.mpr ?_) hpos.le)
        exact_mod_cast hgt.le
      have hsub : ((p + 1 : Nat) : ℚ) - wp = ((p + 1 - wp : Nat) : ℚ) := by
        rw [Nat.cast_sub hgt.le]
      rw [if_neg (not_lt.mpr (by exact_mod_cast hgt.le)), firstWin, if_neg (by omega),
        Int.toNat_add hge Int.one_nonneg, hsub, Int.ceil_toNat]
      rfl
  -- the source reads the difference the other way round, in 64-bit arithmetic
  rw [countWindows]
  simp only [Nat.mod_eq_of_lt hp]
  rw [hfirst, hlast]

/-- The number stored is right if and only if the number of windows is one, modulo `2^63`. -/
theorem countWindows_toNat_eq_iff (hsp : 1 ≤ sp) (hle : sp ≤ wp) (hwp : wp < 2 ^ 64) (p : Nat)
    (hp : p + 1 < 2 ^ 64) :
    (countWindows wp sp p).toNat = (windowsOf wp sp p).card ↔
      (windowsOf wp sp p).card % 2 ^ 63 = 1 := by
  have hord := firstWin_le_lastWin hsp hle p
  have hcard := card_windowsOf hsp hle p
  have hbound := card_windowsOf_le hsp hle p
  rw [countWindows_eq hsp p hp, UInt64.toNat_add, UInt64.toNat_sub, UInt64.toNat_ofNat',
    UInt64.toNat_ofNat', UInt64.toNat_one]
  omega

end Count

/-! ## The counters of the results sets delivered -/

variable {N : Nat} {τ R : Type}

/-- How often the results set at `a` has been consumed. -/
def usesOf (a : Addr) (l : List Consumed) : Nat := l.countP fun e => e.addr = a

/-- **The reference counters**: of a results set delivered by the first stage the counter is the one it
came with, less the number of times it has been consumed; each call has returned the value before it. -/
structure Refs (delivered : List (Rset R)) (m : WlqMemory R) : Prop where
  counter : ∀ i r, delivered[i]? = some r →
    (m.heap (.pane i)).refCounter = r.refCounter - UInt64.ofNat (usesOf (.pane i) m.consumed)
  value : ∀ j e i r, m.consumed[j]? = some e → e.addr = .pane i → delivered[i]? = some r →
    e.value = r.refCounter - UInt64.ofNat (usesOf (.pane i) (m.consumed.take j))
  bound : ∀ e ∈ m.consumed, ∀ i, e.addr = .pane i → i < delivered.length

namespace Refs

variable {delivered : List (Rset R)} {m m' : WlqMemory R}

/-- The counters are read at the panes only, and in the log. -/
theorem congr (h : Refs delivered m) (hcons : m'.consumed = m.consumed)
    (hheap : ∀ i, (m'.heap (.pane i)).refCounter = (m.heap (.pane i)).refCounter) :
    Refs delivered m' where
  counter := fun i r hr => by rw [hheap, hcons, h.counter i r hr]
  value := fun j e i r he => by
    rw [hcons] at he ⊢
    exact h.value j e i r he
  bound := fun e he => by
    rw [hcons] at he
    exact h.bound e he

/-- A results set is consumed. -/
theorem decrease (h : Refs delivered m) {a : Addr} (k : Nat)
    (ha : ∀ i, a = .pane i → i < delivered.length) :
    Refs delivered (m.decreaseRefCounter a k) := by
  have hcons := m.consumed_decreaseRefCounter a k
  refine ⟨fun i r hr => ?_, fun j e i r he hea hr => ?_, fun e he i hea => ?_⟩
  · rw [hcons, usesOf, List.countP_append, List.countP_singleton]
    -- the counter of the set consumed falls by one, that of the others stays
    by_cases hai : a = .pane i
    · have hself : ((m.decreaseRefCounter a k).heap (.pane i)).refCounter
          = (m.heap (.pane i)).refCounter - 1 := by
        rw [← hai]
        exact congrArg Rset.refCounter (m.heap_write_self a _)
      have hc : r.refCounter - UInt64.ofNat (usesOf (.pane i) m.consumed) - 1
          = r.refCounter - UInt64.ofNat (usesOf (.pane i) m.consumed + 1) := by
        rw [UInt64.ofNat_add]
        exact sub_sub _ _ _
      rw [hself, h.counter i r hr, hc, if_pos (by simpa using hai)]
      rfl
    · have hother : (m.decreaseRefCounter a k).heap (.pane i) = m.heap (.pane i) :=
        m.heap_write_of_ne (Ne.symm hai) _
      rw [hother, h.counter i r hr, if_neg (by simpa using hai)]
      rfl
  · rw [hcons] at he ⊢
    -- a use before this one, this one, or one that has not happened yet
    rcases Nat.lt_trichotomy j m.consumed.length with hj | hj | hj
    · rw [List.getElem?_append_left hj] at he
      rw [List.take_append_of_le_length hj.le]
      exact h.value j e i r he hea hr
    · subst hj
      rw [List.getElem?_concat_length, Option.some.injEq] at he
      subst he
      have hai : a = .pane i := hea
      rw [List.take_left, ← h.counter i r hr, hai]
    · rw [List.getElem?_eq_none (by rw [List.length_append, List.length_singleton]; omega)] at he
      cases he
  · rw [hcons] at he
    rcases List.mem_append.mp he with he | he
    · exact h.bound e he i hea
    · rw [List.mem_singleton.mp he] at hea
      exact ha i hea

/-- A results set is delivered. -/
theorem receive (h : Refs delivered m) (r : Rset R) :
    Refs (delivered ++ [r]) (m.write (.pane delivered.length) r) := by
  refine ⟨fun i r' hr' => ?_, fun j e i r' he hea hr' => ?_, fun e he i hea => ?_⟩
  -- the set just delivered has not been used
  · by_cases hi : i = delivered.length
    · subst hi
      rw [List.getElem?_concat_length, Option.some.injEq] at hr'
      have hzero : usesOf (.pane delivered.length) m.consumed = 0 := by
        rw [usesOf, List.countP_eq_zero]
        intro e he hea
        exact absurd (h.bound e he _ (of_decide_eq_true hea)) (Nat.lt_irrefl _)
      rw [m.heap_write_self, ← hr', m.consumed_write, hzero]
      exact (UInt64.sub_zero _).symm
    · have hlt : i < delivered.length := by
        have := (List.getElem?_eq_some_iff.mp hr').1
        rw [List.length_append, List.length_singleton] at this
        omega
      rw [List.getElem?_append_left hlt] at hr'
      rw [m.heap_write_of_ne fun hc => hi (Addr.pane.inj hc)]
      exact h.counter i r' hr'
  · have hlt := h.bound e (List.mem_of_getElem? he) i hea
    rw [List.getElem?_append_left hlt] at hr'
    exact h.value j e i r' he hea hr'
  · rw [List.length_append]
    exact (h.bound e he i hea).trans_le (Nat.le_add_right _ _)

variable [PrefQuery τ R]

/-- Folding one results set into another leaves the counters alone. -/
theorem addComputeSet (h : Refs delivered m) (a b : Addr) : Refs delivered (m.addComputeSet a b) := by
  refine h.congr rfl fun i => ?_
  by_cases hai : Addr.pane i = a
  · subst hai
    rw [WlqMemory.addComputeSet, m.heap_write_self]
  · rw [m.heap_addComputeSet_of_ne hai]

/-- A worker executes a task whose operands have been delivered or created. -/
theorem svc (h : Refs delivered m) {t t' : WTask} (hsvc : m.svc t = .ok (m', t'))
    (hops : ∀ a ∈ t.operands, ∀ i, a = .pane i → i < delivered.length) : Refs delivered m' := by
  -- an update decrements the counter of one set, a merge those of both
  cases hp2 : t.p2 with
  | none =>
      rw [WlqMemory.svc, hp2] at hsvc
      cases hsvc
  | some p2 =>
      have hp2mem : p2 ∈ t.operands := by
        cases hty : t.type <;> simp [WTask.operands, hty, hp2]
      cases hty : t.type with
      | winUpdate =>
          rw [WlqMemory.svc, hp2, hty] at hsvc
          cases hsvc
          exact (h.addComputeSet _ _).decrease _ (hops p2 hp2mem)
      | merge =>
          rw [m.svc_merge hty hp2] at hsvc
          cases hsvc
          -- the set constructed for the merge is not a pane set
          have hnew : Refs delivered { m.write (.merged m.merges)
              (WlqMemory.construct (.merged m.merges)) with merges := m.merges + 1 } :=
            h.congr rfl fun i => by
              show ((m.write _ _).heap (.pane i)).refCounter = _
              rw [m.heap_write_of_ne Addr.noConfusion]
          refine (((hnew.addComputeSet _ _).addComputeSet _ _).decrease _ (hops t.p1 ?_)).decrease _
            (hops p2 hp2mem)
          simp [WTask.operands, hty, hp2]

end Refs

namespace WlqState

variable [PrefQuery τ R] {c : WlqParams} {plan : Multiset Nat} {σ σ' : WlqState N R}

variable (N R) in
/-- No reference has been counted yet. -/
theorem refs_init (nw : Nat) : Refs (init N R nw).delivered (init N R nw).mem where
  counter := fun i r hr => absurd hr (by simp [init])
  value := fun j e i r he => absurd he (by simp [init, WlqMemory.new])
  bound := fun e he => absurd he List.not_mem_nil

/-- **Every event keeps the account of the counters.** -/
theorem Inv.refs (h : σ.Inv c plan) (hr : Refs σ.delivered σ.mem) {e : WlqEvent N R}
    (hσ' : σ.exec c e = .ok σ') : Refs σ'.delivered σ'.mem := by
  cases effect_of_exec hσ' with
  | arrive r x hx => exact hr.receive r
  | exec w t ts m' t' q l hq hsvc hout =>
      have hmem : t ∈ σ.tasksOf t.winId := by
        refine Multiset.mem_filter.mpr ⟨Multiset.mem_add.mpr (Or.inl ?_), rfl⟩
        exact mem_contents.mpr ⟨w, by rw [hq]; exact List.mem_cons_self⟩
      refine hr.svc hsvc fun a ha i hai => ?_
      subst hai
      refine h.folded.allocated t.winId (.pane i) ?_
      exact Multiset.mem_add.mpr (Or.inr (Multiset.mem_bind.mpr ⟨t, hmem, ha⟩))
  | idle | feedback | eos | add | remove | collect => exact hr

/-- The windows whose tasks have consumed the results set at `a`, by the first `n` calls. -/
def consumersOf (a : Addr) (n : Nat) (l : List Consumed) : List Nat :=
  ((l.take n).filter fun e => e.addr = a).map Consumed.winId

omit [PrefQuery τ R] in
/-- The consumers of a results set are the windows of the first decrements of its counter. -/
theorem mem_consumersOf {a : Addr} {n k : Nat} {l : List Consumed} :
    k ∈ consumersOf a n l ↔ ∃ j < n, ∃ e, l[j]? = some e ∧ e.addr = a ∧ e.winId = k := by
  simp only [consumersOf, List.mem_map, List.mem_filter, decide_eq_true_eq, List.mem_take_iff_getElem]
  constructor
  · rintro ⟨e, ⟨⟨j, hj, rfl⟩, ha⟩, hk⟩
    exact ⟨j, by omega, l[j], List.getElem?_eq_getElem _, ha, hk⟩
  · rintro ⟨j, hj, e, he, ha, hk⟩
    obtain ⟨hlt, rfl⟩ := List.getElem?_eq_some_iff.mp he
    exact ⟨l[j], ⟨⟨j, by omega, rfl⟩, ha⟩, hk⟩

/-- **A results set delivered is consumed in each window of its pane at most once**, and in no other
window. -/
theorem Inv.consumersOf (h : σ.Inv c plan) (hsp : 1 ≤ c.sp) {i : Nat} {r : Rset R}
    (hr : σ.delivered[i]? = some r) (n : Nat) :
    (consumersOf (.pane i) n σ.mem.consumed).Nodup ∧
      ∀ k ∈ WlqState.consumersOf (.pane i) n σ.mem.consumed, k ∈ windowsOf c.wp c.sp r.id := by
  -- a window consumes the set at most as often as it has arrived there
  have hle : ∀ k, (WlqState.consumersOf (.pane i) n σ.mem.consumed).count k
      ≤ (arrivals c (σ.delivered.map Rset.id) k).count i := by
    intro k
    have hcount : (WlqState.consumersOf (.pane i) n σ.mem.consumed).count k
        ≤ timesConsumed σ.mem (.pane i) k := by
      rw [WlqState.consumersOf, List.count, List.countP_map, List.countP_filter, timesConsumed]
      refine le_trans (List.Sublist.countP_le (List.take_sublist n _)) (le_of_eq ?_)
      refine List.countP_congr fun e _ => ?_
      simp [and_comm]
    have := h.folded.consumed k i
    omega
  have hnodup : ∀ k, (arrivals c (σ.delivered.map Rset.id) k).Nodup :=
    fun k => List.nodup_range.filter _
  refine ⟨List.nodup_iff_count_le_one.mpr fun k =>
    (hle k).trans (List.nodup_iff_count_le_one.mp (hnodup k) i), fun k hk => ?_⟩
  -- a consumer is a window the set has arrived at, that is one that contains the pane
  have hmem : i ∈ arrivals c (σ.delivered.map Rset.id) k :=
    List.count_pos_iff.mp ((List.count_pos_iff.mpr hk).trans_le (hle k))
  obtain ⟨hi, rfl⟩ := List.getElem?_eq_some_iff.mp hr
  have hin := of_decide_eq_true (List.mem_filter.mp hmem).2
  rw [List.getD_eq_getElem _ _ (by rw [List.length_map]; exact hi), List.getElem_map] at hin
  exact (mem_windowsOf hsp _ k).mpr hin

/-- With each call one window more has consumed the results set; with as many calls as it has windows
all of them have. -/
theorem Inv.consumers_all_iff (h : σ.Inv c plan) (hsp : 1 ≤ c.sp) {i j : Nat} {r : Rset R}
    {e : Consumed} (hr : σ.delivered[i]? = some r) (he : σ.mem.consumed[j]? = some e)
    (hea : e.addr = .pane i) :
    usesOf (.pane i) (σ.mem.consumed.take j) + 1 ≤ (windowsOf c.wp c.sp r.id).card ∧
      ((∀ k ∈ windowsOf c.wp c.sp r.id,
          k ∈ WlqState.consumersOf (.pane i) (j + 1) σ.mem.consumed) ↔
        (windowsOf c.wp c.sp r.id).card = usesOf (.pane i) (σ.mem.consumed.take j) + 1) := by
  obtain ⟨hnodup, hsub⟩ := h.consumersOf hsp hr (j + 1)
  obtain ⟨l, hl⟩ : ∃ l, l = WlqState.consumersOf (.pane i) (j + 1) σ.mem.consumed := ⟨_, rfl⟩
  rw [← hl] at hnodup hsub ⊢
  -- the consumers so far are the uses before and this one
  have hlen : l.length = usesOf (.pane i) (σ.mem.consumed.take j) + 1 := by
    rw [hl, WlqState.consumersOf, List.length_map, ← List.countP_eq_length_filter, List.take_add_one,
      he, Option.toList_some, List.countP_append, List.countP_singleton, if_pos (by simpa using hea)]
    rfl
  have hsubset : l.toFinset ⊆ windowsOf c.wp c.sp r.id :=
    fun k hk => hsub k (List.mem_toFinset.mp hk)
  have hcard : l.toFinset.card = l.length := List.toFinset_card_of_nodup hnodup
  have hle := Finset.card_le_card hsubset
  rw [← hlen, ← hcard]
  -- distinct consumers, as many as windows, are all of them
  refine ⟨hle, fun hk => ?_, fun heq k hk => ?_⟩
  · exact (Finset.card_le_card fun k hkw => List.mem_toFinset.mpr (hk k hkw)).antisymm hle
  · rw [← Finset.eq_of_subset_of_card_le hsubset heq.le] at hk
    exact List.mem_toFinset.mp hk

/-- **When `decreaseRefCounter` returns 1**, for a results set whose counter started with the number of
its windows: at the call in the last of these windows, and at no earlier one. -/
theorem Inv.value_eq_one_iff (h : σ.Inv c plan) (hrefs : Refs σ.delivered σ.mem) (hsp : 1 ≤ c.sp)
    {i j : Nat} {r : Rset R} {e : Consumed} (hr : σ.delivered[i]? = some r)
    (hcount : r.refCounter.toNat = (windowsOf c.wp c.sp r.id).card)
    (he : σ.mem.consumed[j]? = some e) (hea : e.addr = .pane i) :
    e.value = 1 ↔
      ∀ k ∈ windowsOf c.wp c.sp r.id, k ∈ WlqState.consumersOf (.pane i) (j + 1) σ.mem.consumed := by
  obtain ⟨hle, hall⟩ := h.consumers_all_iff hsp hr he hea
  have hlt := r.refCounter.toNat_lt
  rw [hall, hrefs.value j e i r he hea hr, ← UInt64.toNat_inj, UInt64.toNat_sub,
    UInt64.toNat_ofNat', UInt64.toNat_one, hcount]
  rw [hcount] at hlt
  omega

/-- **Nothing is deleted too early**, for a results set with the number that `countWindows` stores:
as long as a pane has `2^63` windows at most, a call returns 1 only in the last of them. -/
theorem Inv.not_deleted_early (h : σ.Inv c plan) (hrefs : Refs σ.delivered σ.mem) (hsp : 1 ≤ c.sp)
    (hle : c.sp ≤ c.wp) (hwp : c.wp ≤ 2 ^ 63) {i j : Nat} {r : Rset R} {e : Consumed}
    (hr : σ.delivered[i]? = some r) (hid : r.id + 1 < 2 ^ 64)
    (hcount : r.refCounter = countWindows c.wp c.sp r.id) (he : σ.mem.consumed[j]? = some e)
    (hea : e.addr = .pane i) (hone : e.value = 1) :
    ∀ k ∈ windowsOf c.wp c.sp r.id, k ∈ WlqState.consumersOf (.pane i) (j + 1) σ.mem.consumed := by
  obtain ⟨huses, hall⟩ := h.consumers_all_iff hsp hr he hea
  have hcard := card_windowsOf hsp hle r.id
  have hbound := card_windowsOf_le hsp hle r.id
  have hord := firstWin_le_lastWin hsp hle r.id
  -- the counter read is the stored one less the uses before, modulo 2 ^ 64
  rw [hrefs.value j e i r he hea hr, hcount, countWindows_eq hsp r.id hid, ← UInt64.toNat_inj,
    UInt64.toNat_sub, UInt64.toNat_add, UInt64.toNat_sub, UInt64.toNat_ofNat', UInt64.toNat_ofNat',
    UInt64.toNat_ofNat', UInt64.toNat_one] at hone
  rw [hall]
  omega

/-- The reference counting of pane `p` agrees across the stages: the number stored is the number of
windows that the results set is put into, and in every run each call on such a results set returns 1
if and only if it is the one in the last of these windows. -/
def RefCountAgrees (wp sp p : Nat) : Prop :=
  (countWindows wp sp p).toNat = lastWin sp p - firstWin wp sp p + 1 ∧
    ∀ (N nw : Nat) (τ R : Type) [PrefQuery τ R] (plan : Multiset Nat) (es : List (WlqEvent N R))
      (σ : WlqState N R), 0 < nw → nw ≤ N →
      Run.Valid (WlqState.exec ⟨wp, sp⟩) (Enabled plan) es (init N R nw) →
      Run.run (WlqState.exec ⟨wp, sp⟩) es (init N R nw) = .ok σ →
      ∀ (i : Nat) (r : Rset R), σ.delivered[i]? = some r → r.id = p →
        r.refCounter = countWindows wp sp p →
        ∀ (j : Nat) (e : Consumed), σ.mem.consumed[j]? = some e → e.addr = .pane i →
          (e.value = 1 ↔ ∀ k, InWindow wp sp k p → ∃ j' ≤ j, ∃ e',
            σ.mem.consumed[j']? = some e' ∧ e'.addr = .pane i ∧ e'.winId = k)

/-- **When the reference counting agrees**: for the panes that are in one window only, modulo
`2^63`. -/
theorem refCount_agrees_iff (wp sp p : Nat) (hsp : 1 ≤ sp) (hle : sp ≤ wp) (hwp : wp < 2 ^ 64)
    (hp : p + 1 < 2 ^ 64) : RefCountAgrees wp sp p ↔ (windowsOf wp sp p).card % 2 ^ 63 = 1 := by
  have hcard := card_windowsOf hsp hle p
  -- the stored count alone forces the equation, which in turn gives both parts
  constructor
  · rintro ⟨hcount, -⟩
    rw [← countWindows_toNat_eq_iff hsp hle hwp p hp, hcount, hcard]
  · intro hmod
    have hcount := (countWindows_toNat_eq_iff hsp hle hwp p hp).mpr hmod
    refine ⟨by rw [hcount, hcard], ?_⟩
    intro N nw τ R _ plan es σ _ _ hes hrun i r hr hid href j e he hea
    -- the run keeps the invariant of the stage and that of the counters
    obtain ⟨σ', hrun', hinv, hrefs⟩ := Run.Valid.induction
      (P := fun σ => σ.Inv ⟨wp, sp⟩ plan ∧ Refs σ.delivered σ.mem)
      (fun σ e h hen => by
        obtain ⟨σ₁, hσ₁, hinv₁⟩ := h.1.step hsp hle hen.2
        exact ⟨σ₁, hσ₁, hinv₁, h.1.refs h.2 hσ₁⟩) hes
      ⟨inv_init _ plan nw, refs_init N R nw⟩
    obtain rfl : σ' = σ := by
      rw [hrun] at hrun'
      cases hrun'
      rfl
    rw [hinv.value_eq_one_iff hrefs hsp hr (by rw [href, hid]; exact hcount) he hea, hid]
    refine forall_congr' fun k => ?_
    rw [mem_windowsOf hsp, mem_consumersOf]
    simp only [Nat.lt_succ_iff]

/-- Windows of three panes that slide by two overlap; pane 0 is in the first one only. -/
theorem refCount_agrees_iff_witness :
    RefCountAgrees 3 2 0 ↔ (windowsOf 3 2 0).card % 2 ^ 63 = 1 :=
  refCount_agrees_iff 3 2 0 (by decide) (by decide) (by decide) (by decide)

/-- Pane 1 is in two windows of length two and slide one, and 0 is stored. -/
theorem refCount_agrees_fails : ¬ RefCountAgrees 2 1 1 := by
  rintro ⟨hcount, -⟩
  exact absurd hcount (by decide +kernel)

end WlqState

end ElasticPPQ
