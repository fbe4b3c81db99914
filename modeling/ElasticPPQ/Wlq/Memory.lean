import ElasticPPQ.Lib.FoldTree
import ElasticPPQ.Wlq.WindowInv

/-! # What the results sets of the second stage contain

Every results set of the second stage has been folded together from results sets delivered by the
first stage. The results sets that arrived for a window are spread, each once, over the results set
of the window and the ones the window holds (`Folded`); a task of a worker only moves them. -/

namespace ElasticPPQ

variable {τ R : Type} [PrefQuery τ R]

namespace WlqMemory

variable (m : WlqMemory R)

omit [PrefQuery τ R] in
/-- What has been written is read. -/
@[simp] theorem heap_write_self (a : Addr) (r : Rset R) : (m.write a r).heap a = r :=
  Function.update_self ..

omit [PrefQuery τ R] in
/-- A write leaves the rest of the heap alone. -/
theorem heap_write_of_ne {a b : Addr} (h : b ≠ a) (r : Rset R) :
    (m.write a r).heap b = m.heap b := Function.update_of_ne h ..

omit [PrefQuery τ R] in
/-- A write allocates nothing. -/
@[simp] theorem merges_write (a : Addr) (r : Rset R) : (m.write a r).merges = m.merges := rfl

omit [PrefQuery τ R] in
/-- A write consumes nothing. -/
@[simp] theorem consumed_write (a : Addr) (r : Rset R) : (m.write a r).consumed = m.consumed := rfl

omit [PrefQuery τ R] in
/-- A decrement allocates nothing. -/
@[simp] theorem merges_decreaseRefCounter (a : Addr) (k : Nat) :
    (m.decreaseRefCounter a k).merges = m.merges := rfl

omit [PrefQuery τ R] in
/-- A decrement is recorded with the value that it returns. -/
@[simp] theorem consumed_decreaseRefCounter (a : Addr) (k : Nat) :
    (m.decreaseRefCounter a k).consumed = m.consumed ++ [⟨a, k, (m.heap a).refCounter⟩] := rfl

omit [PrefQuery τ R] in
/-- The contents do not change with the reference counter. -/
@[simp] theorem set_decreaseRefCounter (a b : Addr) (k : Nat) :
    ((m.decreaseRefCounter a k).heap b).set = (m.heap b).set := by
  show ((m.write a _).heap b).set = _
  by_cases h : b = a
  · subst h
    rw [heap_write_self]
  · rw [heap_write_of_ne m h]

omit [PrefQuery τ R] in
/-- Nor does the identifier. -/
@[simp] theorem id_decreaseRefCounter (a b : Addr) (k : Nat) :
    ((m.decreaseRefCounter a k).heap b).id = (m.heap b).id := by
  show ((m.write a _).heap b).id = _
  by_cases h : b = a
  · subst h
    rw [heap_write_self]
  · rw [heap_write_of_ne m h]

/-- A merge into a set allocates nothing. -/
@[simp] theorem merges_addComputeSet (a b : Addr) : (m.addComputeSet a b).merges = m.merges := rfl

/-- A merge into a set consumes nothing. -/
@[simp] theorem consumed_addComputeSet (a b : Addr) :
    (m.addComputeSet a b).consumed = m.consumed := rfl

/-- The target of a merge. -/
theorem set_addComputeSet_self (a b : Addr) : ((m.addComputeSet a b).heap a).set
    = PrefQuery.addComputeSet (m.heap a).set (m.heap b).set :=
  congrArg Rset.set (m.heap_write_self a _)

/-- Nothing else is written. -/
theorem heap_addComputeSet_of_ne {a x : Addr} (h : x ≠ a) (b : Addr) :
    (m.addComputeSet a b).heap x = m.heap x := m.heap_write_of_ne h _

/-- The panes stay as they are. -/
@[simp] theorem id_addComputeSet (a b x : Addr) :
    ((m.addComputeSet a b).heap x).id = (m.heap x).id := by
  by_cases h : x = a
  · subst h
    rw [addComputeSet, heap_write_self]
  · rw [heap_addComputeSet_of_ne m h]

/-- The memory after a `WIN_UPDATE` task of window `k`. -/
def updated (k : Nat) (p2 : Addr) : WlqMemory R :=
  (m.addComputeSet (.win k) p2).decreaseRefCounter p2 k

/-- The memory after a `MERGE` task of window `k`. -/
def mergedInto (k : Nat) (p1 p2 : Addr) : WlqMemory R :=
  let p3 := .merged m.merges
  let m := { m.write p3 (construct p3) with merges := m.merges + 1 }
  (((m.addComputeSet p3 p1).addComputeSet p3 p2).decreaseRefCounter p1 k).decreaseRefCounter p2 k

/-- The window after an update. -/
theorem set_updated_self (k : Nat) (p2 : Addr) : ((m.updated k p2).heap (.win k)).set
    = PrefQuery.addComputeSet (m.heap (.win k)).set (m.heap p2).set := by
  rw [updated, set_decreaseRefCounter, set_addComputeSet_self]

/-- An update writes the window only. -/
theorem set_updated_of_ne {k : Nat} {a : Addr} (h : a ≠ .win k) (p2 : Addr) :
    ((m.updated k p2).heap a).set = (m.heap a).set := by
  rw [updated, set_decreaseRefCounter, heap_addComputeSet_of_ne m h]

/-- The results set created by a `MERGE` task. -/
theorem set_mergedInto_self {p1 p2 : Addr} (h1 : p1 ≠ .merged m.merges) (h2 : p2 ≠ .merged m.merges)
    (k : Nat) : ((m.mergedInto k p1 p2).heap (.merged m.merges)).set
      = PrefQuery.addComputeSet (PrefQuery.addComputeSet PrefQuery.new (m.heap p1).set)
          (m.heap p2).set := by
  -- the set constructed for the merge, before the two operands are added
  obtain ⟨m₁, hm₁⟩ : ∃ m₁ : WlqMemory R, m₁ = { m.write (.merged m.merges)
    (construct (.merged m.merges)) with merges := m.merges + 1 } := ⟨_, rfl⟩
  -- the address is new, so the operands are as they were
  have hheap : ∀ a, a ≠ .merged m.merges → m₁.heap a = m.heap a := by
    intro a ha
    rw [hm₁]
    exact m.heap_write_of_ne ha _
  have hnew : (m₁.heap (.merged m.merges)).set = PrefQuery.new := by
    rw [hm₁]
    exact congrArg Rset.set (m.heap_write_self (.merged m.merges) (construct (.merged m.merges)))
  rw [mergedInto, set_decreaseRefCounter, set_decreaseRefCounter, ← hm₁, set_addComputeSet_self,
    set_addComputeSet_self, heap_addComputeSet_of_ne m₁ h2, hnew, hheap p1 h1, hheap p2 h2]

/-- A merge of two results sets writes a new one only. -/
theorem set_mergedInto_of_ne {a : Addr} (h : a ≠ .merged m.merges) (k : Nat) (p1 p2 : Addr) :
    ((m.mergedInto k p1 p2).heap a).set = (m.heap a).set := by
  rw [mergedInto, set_decreaseRefCounter, set_decreaseRefCounter, heap_addComputeSet_of_ne _ h,
    heap_addComputeSet_of_ne _ h]
  exact congrArg Rset.set (m.heap_write_of_ne h _)

/-- A merge of two results sets changes no identifier. -/
theorem id_mergedInto {a : Addr} (h : a ≠ .merged m.merges) (k : Nat) (p1 p2 : Addr) :
    ((m.mergedInto k p1 p2).heap a).id = (m.heap a).id := by
  rw [mergedInto, id_decreaseRefCounter, id_decreaseRefCounter, id_addComputeSet, id_addComputeSet]
  exact congrArg Rset.id (m.heap_write_of_ne h _)

/-- A `WIN_UPDATE` task is executed. -/
theorem svc_winUpdate {t : WTask} (hty : t.type = .winUpdate) {k : Nat} (hp1 : t.p1 = .win k)
    (hk : t.winId = k) {p2 : Addr} (hp2 : t.p2 = some p2) :
    m.svc t = .ok (m.updated k p2, { t with p2 := none }) := by
  rw [svc, hp2, hty, hp1, hk]
  rfl

/-- A `MERGE` task is executed. -/
theorem svc_merge {t : WTask} (hty : t.type = .merge) {p2 : Addr} (hp2 : t.p2 = some p2) :
    m.svc t = .ok (m.mergedInto t.winId t.p1 p2,
      { t with p1 := .merged m.merges, p2 := none }) := by
  rw [svc, hp2, hty]
  rfl

end WlqMemory

/-- The contents of the results sets delivered, by order of arrival. -/
def deliveredSet (delivered : List (Rset R)) (i : Nat) : R :=
  ((delivered[i]?).map Rset.set).getD PrefQuery.new

/-- What has been delivered before stays as it is. -/
theorem deliveredSet_concat_of_lt {delivered : List (Rset R)} {i : Nat} (hi : i < delivered.length)
    (r : Rset R) : deliveredSet (delivered ++ [r]) i = deliveredSet delivered i := by
  rw [deliveredSet, deliveredSet, List.getElem?_append_left hi]

/-- What is delivered last. -/
theorem deliveredSet_concat_self (delivered : List (Rset R)) (r : Rset R) :
    deliveredSet (delivered ++ [r]) delivered.length = r.set := by
  rw [deliveredSet, List.getElem?_concat_length]
  rfl

/-- How the contents of each results set have been folded together, for windows that hold the
results sets `H`. -/
structure Trace (c : WlqParams) (delivered : List (Rset R)) (m : WlqMemory R)
    (H : Nat → Multiset Addr) (F : Addr → FoldTree Nat) : Prop where
  value : ∀ a, (m.heap a).set
    = (F a).eval PrefQuery.new PrefQuery.addComputeSet (deliveredSet delivered)
  pane : ∀ i, i < delivered.length → F (.pane i) = .leaf i
  bound : ∀ a, ∀ i ∈ (F a).leaves, i < delivered.length
  law : ∀ k, (F (.win k)).leaves + (H k).bind (fun a => (F a).leaves)
    = arrivals c (delivered.map Rset.id) k
  nonempty : ∀ k, ∀ a ∈ H k, (F a).leaves ≠ 0

/-- A results set that may be held: delivered, or created by a `MERGE` task. -/
def Allocated (delivered : List (Rset R)) (m : WlqMemory R) : Addr → Prop
  | .pane i => i < delivered.length
  | .merged j => j < m.merges
  | .win _ => False

/-- How often a task of window `k` has consumed the results set at `a`. -/
def timesConsumed (m : WlqMemory R) (a : Addr) (k : Nat) : Nat :=
  m.consumed.countP fun e => e.addr = a ∧ e.winId = k

/-- **The results sets, where the windows hold `H`.** What has arrived for a window is in its results
set or in those it holds; each results set delivered is either held by a window of its pane or has
been consumed there, once. -/
structure Folded (c : WlqParams) (delivered : List (Rset R)) (m : WlqMemory R)
    (H : Nat → Multiset Addr) : Prop where
  trace : ∃ F, Trace c delivered m H F
  allocated : ∀ k, ∀ a ∈ H k, Allocated delivered m a
  consumed : ∀ k i, timesConsumed m (.pane i) k + (H k).count (.pane i)
    = (arrivals c (delivered.map Rset.id) k).count i
  id : ∀ k, (m.heap (.win k)).id = k

/-- What is allocated stays so. -/
theorem Allocated.mono {delivered delivered' : List (Rset R)} {m m' : WlqMemory R}
    (hd : delivered.length ≤ delivered'.length) (hm : m.merges ≤ m'.merges) {a : Addr}
    (h : Allocated delivered m a) : Allocated delivered' m' a := by
  cases a with
  | pane i => exact Nat.lt_of_lt_of_le h hd
  | merged j => exact Nat.lt_of_lt_of_le h hm
  | win j => exact h

variable {c : WlqParams} {delivered : List (Rset R)} {m : WlqMemory R} {H : Nat → Multiset Addr}

namespace Trace

variable {F : Addr → FoldTree Nat}

omit [PrefQuery τ R] in
/-- The bind over the results sets held only depends on their contents. -/
theorem bind_leaves_congr {F F' : Addr → FoldTree Nat} {X : Multiset Addr}
    (h : ∀ a ∈ X, F' a = F a) :
    (X.bind fun a => (F' a).leaves) = X.bind fun a => (F a).leaves :=
  Multiset.bind_congr fun a ha => by rw [h a ha]

/-- The contents of one results set are replaced. -/
theorem bound_update (h : Trace c delivered m H F) {n : Nat} (hn : delivered.length ≤ n) {x : Addr}
    {T : FoldTree Nat} (hT : ∀ i ∈ T.leaves, i < n) (a : Addr) :
    ∀ i ∈ (Function.update F x T a).leaves, i < n := by
  intro i hi
  by_cases ha : a = x
  · rw [ha, Function.update_self] at hi
    exact hT i hi
  · rw [Function.update_of_ne ha] at hi
    exact (h.bound a i hi).trans_le hn

/-- A results set is delivered: the windows of its pane hold it from now on. -/
theorem receive (h : Trace c delivered m H F)
    (hne : ∀ k, ∀ a ∈ H k, a ≠ .pane delivered.length) (r : Rset R) :
    Trace c (delivered ++ [r]) (m.write (.pane delivered.length) r)
      (fun k => H k + if InWindow c.wp c.sp k r.id then {.pane delivered.length} else 0)
      (Function.update F (.pane delivered.length) (.leaf delivered.length)) := by
  obtain ⟨n, hn⟩ : ∃ n, n = delivered.length := ⟨_, rfl⟩
  have hlen : (delivered ++ [r]).length = n + 1 := by rw [List.length_append, hn]; rfl
  rw [← hn] at hne ⊢
  refine ⟨fun a => ?_, fun i hi => ?_, fun a => ?_, fun k => ?_, fun k a ha => ?_⟩
  -- the set delivered is a leaf of its own, the other values do not see it
  · by_cases ha : a = .pane n
    · subst ha
      rw [m.heap_write_self, Function.update_self, FoldTree.eval, hn, deliveredSet_concat_self]
    · rw [m.heap_write_of_ne ha, Function.update_of_ne ha, h.value]
      exact FoldTree.eval_congr _ _ fun i hi => (deliveredSet_concat_of_lt (h.bound a i hi) r).symm
  · rw [hlen] at hi
    by_cases hin : i = n
    · rw [hin, Function.update_self]
    · rw [Function.update_of_ne fun heq => hin (Addr.pane.inj heq)]
      exact h.pane i (by omega)
  · refine h.bound_update (by omega) (fun i hi => ?_) a
    rw [Multiset.mem_singleton.mp hi, hlen]
    exact Nat.lt_succ_self n
  -- the address joins the windows of its pane, with one arrival more each
  · rw [Function.update_of_ne Addr.noConfusion, List.map_append, List.map_singleton,
      arrivals_concat, List.length_map, ← Multiset.coe_add, ← h.law k, Multiset.add_bind, ← add_assoc,
      bind_leaves_congr fun a ha => Function.update_of_ne (hne k a ha) .., ← hn]
    congr 1
    split
    · rw [Multiset.singleton_bind, Function.update_self]
      rfl
    · rfl
  · rcases Multiset.mem_add.mp ha with ha | ha
    · rw [Function.update_of_ne (hne k a ha)]
      exact h.nonempty k a ha
    · split at ha
      · rw [Multiset.mem_singleton.mp ha, Function.update_self]
        exact Multiset.singleton_ne_zero n
      · exact absurd ha (Multiset.notMem_zero a)

/-- A held results set is folded into the one of window `k`. -/
theorem updated {k : Nat} {p2 : Addr} (h : Trace c delivered m
      (fun j => H j + if k = j then {p2} else 0) F) (hne : ∀ j, ∀ a ∈ H j, a ≠ .win k) :
    Trace c delivered (m.updated k p2) H
      (Function.update F (.win k) (.add (F (.win k)) (F p2))) := by
  refine ⟨fun a => ?_, fun i hi => ?_, h.bound_update le_rfl fun i hi => ?_, fun j => ?_,
    fun j a ha => ?_⟩
  -- only the window's own value changes
  · by_cases ha : a = .win k
    · subst ha
      rw [m.set_updated_self, Function.update_self, FoldTree.eval, h.value, h.value]
    · rw [m.set_updated_of_ne ha, Function.update_of_ne ha, h.value]
  · rw [Function.update_of_ne Addr.noConfusion]
    exact h.pane i hi
  · rcases Multiset.mem_add.mp hi with hi | hi
    · exact h.bound _ i hi
    · exact h.bound _ i hi
  · have hlaw := h.law j
    rw [bind_leaves_congr fun a ha => Function.update_of_ne (hne j a ha) ..]
    rw [Multiset.add_bind] at hlaw
    -- the arrivals of the pane set are those of the window now
    by_cases hj : k = j
    · subst hj
      rw [if_pos rfl, Multiset.singleton_bind] at hlaw
      rw [Function.update_self, ← hlaw, FoldTree.leaves]
      rw [add_assoc, add_comm (F p2).leaves]
    · rw [if_neg hj, Multiset.zero_bind, add_zero] at hlaw
      rw [Function.update_of_ne (fun heq => hj (Addr.win.inj heq).symm), hlaw]
  · rw [Function.update_of_ne (hne j a ha)]
    exact h.nonempty j a (Multiset.mem_add.mpr (Or.inl ha))

/-- Two held results sets of window `k` are folded into a new one. -/
theorem mergedInto {k : Nat} {p1 p2 : Addr} (h : Trace c delivered m
      (fun j => H j + if k = j then {p1} + {p2} else 0) F)
    (hne : ∀ j, ∀ a ∈ H j, a ≠ .merged m.merges)
    (h1 : p1 ≠ .merged m.merges) (h2 : p2 ≠ .merged m.merges) :
    Trace c delivered (m.mergedInto k p1 p2)
      (fun j => H j + if k = j then {.merged m.merges} else 0)
      (Function.update F (.merged m.merges) (.add (.add .new (F p1)) (F p2))) := by
  refine ⟨fun a => ?_, fun i hi => ?_, h.bound_update le_rfl fun i hi => ?_, fun j => ?_,
    fun j a ha => ?_⟩
  -- only the new address gets a value
  · by_cases ha : a = .merged m.merges
    · subst ha
      rw [m.set_mergedInto_self h1 h2, Function.update_self, h.value, h.value]
      rfl
    · rw [m.set_mergedInto_of_ne ha, Function.update_of_ne ha, h.value]
  · rw [Function.update_of_ne Addr.noConfusion]
    exact h.pane i hi
  · simp only [FoldTree.leaves, zero_add] at hi
    rcases Multiset.mem_add.mp hi with hi | hi
    · exact h.bound _ i hi
    · exact h.bound _ i hi
  -- the arrivals of the two operands are those of the merged set
  · have hlaw := h.law j
    rw [Multiset.add_bind] at hlaw
    rw [Function.update_of_ne Addr.noConfusion, Multiset.add_bind,
      bind_leaves_congr fun a ha => Function.update_of_ne (hne j a ha) .., ← hlaw]
    congr 2
    split
    · rw [Multiset.singleton_bind, Function.update_self, Multiset.add_bind, Multiset.singleton_bind,
        Multiset.singleton_bind]
      simp only [FoldTree.leaves, zero_add]
    · rfl
  · rcases Multiset.mem_add.mp ha with ha | ha
    · rw [Function.update_of_ne (hne j a ha)]
      exact h.nonempty j a (Multiset.mem_add.mpr (Or.inl ha))
    -- the merged set is not empty, as its first operand is not
    · split at ha
      · have hp1 : p1 ∈ H k + if k = k then ({p1} + {p2} : Multiset Addr) else 0 := by
          rw [if_pos rfl]
          exact Multiset.mem_add.mpr (Or.inr (Multiset.mem_add.mpr
            (Or.inl (Multiset.mem_singleton_self p1))))
        have hleaves := h.nonempty k p1 hp1
        rw [Multiset.mem_singleton.mp ha, Function.update_self]
        simp only [FoldTree.leaves, zero_add, ne_eq, add_eq_zero, not_and_or]
        exact Or.inl hleaves
      · exact absurd ha (Multiset.notMem_zero a)

end Trace

namespace Folded

/-- A results set is delivered, and put into the queues of the windows of its pane. -/
theorem receive (h : Folded c delivered m H) (r : Rset R) :
    Folded c (delivered ++ [r]) (m.write (.pane delivered.length) r)
      (fun k => H k + if InWindow c.wp c.sp k r.id then {.pane delivered.length} else 0) := by
  obtain ⟨F, hF⟩ := h.trace
  -- the addresses held belong to sets delivered before
  have hne : ∀ k, ∀ a ∈ H k, a ≠ .pane delivered.length := by
    rintro k a ha rfl
    exact Nat.lt_irrefl _ (h.allocated k _ ha)
  have hlen : (delivered ++ [r]).length = delivered.length + 1 := List.length_append
  refine ⟨⟨_, hF.receive hne r⟩, fun k a ha => ?_, fun k i => ?_, fun k => ?_⟩
  · rcases Multiset.mem_add.mp ha with ha | ha
    · exact (h.allocated k a ha).mono (by omega) le_rfl
    · split at ha
      · rw [Multiset.mem_singleton.mp ha]
        show delivered.length < (delivered ++ [r]).length
        omega
      · exact absurd ha (Multiset.notMem_zero a)
  · rw [List.map_append, List.map_singleton, arrivals_concat, List.length_map, List.count_append,
      Multiset.count_add, ← h.consumed k i, Nat.add_assoc]
    show timesConsumed m (.pane i) k + _ = timesConsumed m (.pane i) k + _
    congr 2
    -- the new set has not been consumed yet
    split
    · by_cases hin : i = delivered.length
      · subst hin
        simp
      · rw [Multiset.count_singleton, if_neg fun h => hin (Addr.pane.inj h), List.count_singleton,
          if_neg (by simpa using Ne.symm hin)]
    · rfl
  · rw [m.heap_write_of_ne Addr.noConfusion]
    exact h.id k

omit [PrefQuery τ R] in
/-- One more decrement. -/
theorem timesConsumed_append {m m' : WlqMemory R} {a : Addr} {k : Nat} {v : UInt64}
    (h : m'.consumed = m.consumed ++ [⟨a, k, v⟩]) (b : Addr) (j : Nat) :
    timesConsumed m' b j = timesConsumed m b j + if k = j then Multiset.count b {a} else 0 := by
  rw [timesConsumed, h, List.countP_append, timesConsumed]
  congr 1
  rw [List.countP_singleton, Multiset.count_singleton]
  by_cases hk : k = j
  · by_cases hb : b = a
    · simp [hk, hb]
    · simp [hk, hb, Ne.symm hb]
  · simp [hk]

/-- No window holds a results set of a window. -/
theorem ne_win (h : Folded c delivered m H) {k : Nat} {a : Addr} (ha : a ∈ H k) (j : Nat) :
    a ≠ .win j := by
  rintro rfl
  exact h.allocated k _ ha

/-- A `WIN_UPDATE` task of window `k` is executed: what it holds goes into the results set of the
window. -/
theorem updated {k : Nat} {p2 : Addr}
    (h : Folded c delivered m fun j => H j + if k = j then {p2} else 0) :
    Folded c delivered (m.updated k p2) H := by
  obtain ⟨F, hF⟩ := h.trace
  have hX : ∀ j, ∀ a ∈ H j, a ∈ H j + if k = j then {p2} else 0 :=
    fun j a ha => Multiset.mem_add.mpr (Or.inl ha)
  -- the pane set is consumed by this window
  have hcons : (m.updated k p2).consumed = m.consumed ++ [⟨p2, k, ((m.addComputeSet (.win k) p2).heap
      p2).refCounter⟩] := rfl
  refine ⟨⟨_, hF.updated fun j a ha => h.ne_win (hX j a ha) k⟩,
    fun j a ha => h.allocated j a (hX j a ha), fun j i => ?_, fun j => ?_⟩
  · have hc := h.consumed j i
    rw [Multiset.count_add] at hc
    rw [timesConsumed_append hcons, ← hc]
    -- in the window the set is no longer held but consumed, elsewhere nothing changes
    split
    · omega
    · rw [Multiset.count_zero, Nat.add_zero, Nat.add_zero]
  · rw [WlqMemory.updated, WlqMemory.id_decreaseRefCounter, WlqMemory.id_addComputeSet]
    exact h.id j

/-- A `MERGE` task of window `k` is executed: what it holds goes into a new results set. -/
theorem mergedInto {k : Nat} {p1 p2 : Addr}
    (h : Folded c delivered m fun j => H j + if k = j then {p1} + {p2} else 0) :
    Folded c delivered (m.mergedInto k p1 p2)
      (fun j => H j + if k = j then {.merged m.merges} else 0) := by
  obtain ⟨F, hF⟩ := h.trace
  have hX : ∀ j, ∀ a ∈ H j, a ∈ H j + if k = j then {p1} + {p2} else 0 :=
    fun j a ha => Multiset.mem_add.mpr (Or.inl ha)
  have hfresh : ∀ j, ∀ a ∈ H j + (if k = j then {p1} + {p2} else 0), a ≠ .merged m.merges := by
    rintro j a ha rfl
    exact Nat.lt_irrefl _ (h.allocated j _ ha)
  have hown : ∀ a, a = p1 ∨ a = p2 → a ∈ H k + if k = k then ({p1} + {p2} : Multiset Addr) else 0 := by
    intro a ha
    rw [if_pos rfl]
    refine Multiset.mem_add.mpr (Or.inr (Multiset.mem_add.mpr ?_))
    rcases ha with rfl | rfl
    · exact Or.inl (Multiset.mem_singleton_self a)
    · exact Or.inr (Multiset.mem_singleton_self a)
  have hp1 := hfresh k p1 (hown p1 (Or.inl rfl))
  have hp2 := hfresh k p2 (hown p2 (Or.inr rfl))
  have hmerges : (m.mergedInto k p1 p2).merges = m.merges + 1 := rfl
  refine ⟨⟨_, hF.mergedInto (fun j a ha => hfresh j a (hX j a ha)) hp1 hp2⟩, fun j a ha => ?_,
    fun j i => ?_, fun j => ?_⟩
  · rcases Multiset.mem_add.mp ha with ha | ha
    · exact (h.allocated j a (hX j a ha)).mono le_rfl (by omega)
    · split at ha
      · rw [Multiset.mem_singleton.mp ha]
        show m.merges < (m.mergedInto k p1 p2).merges
        omega
      · exact absurd ha (Multiset.notMem_zero a)
  · -- the two results sets are consumed one after the other
    have hc := h.consumed j i
    rw [Multiset.count_add] at hc
    obtain ⟨v1, v2, hcons⟩ : ∃ v1 v2, (m.mergedInto k p1 p2).consumed
        = (m.consumed ++ [⟨p1, k, v1⟩]) ++ [⟨p2, k, v2⟩] := ⟨_, _, rfl⟩
    obtain ⟨m', hm'⟩ : ∃ m' : WlqMemory R, m' = { m with
      consumed := m.consumed ++ [⟨p1, k, v1⟩] } := ⟨_, rfl⟩
    rw [timesConsumed_append (m := m') (by rw [hm']; exact hcons),
      timesConsumed_append (m := m) (by rw [hm']), ← hc, Multiset.count_add]
    split
    · rw [Multiset.count_add, Multiset.count_singleton (Addr.pane i) (Addr.merged m.merges),
        if_neg Addr.noConfusion]
      omega
    · simp only [Multiset.count_zero, Nat.add_zero]
  · rw [m.id_mergedInto Addr.noConfusion]
    exact h.id j

end Folded

end ElasticPPQ
