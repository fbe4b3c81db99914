import ElasticPPQ.Control.ResourcePool
import ElasticPPQ.Wlq.Emitter

/-! # The construction of the resource pool

The constructor of `ResourcePool` (`controller.hpp`) for any machine (`general.hpp`): it goes over the
cores of the workers once for each SMT context of a core, with a running count of the resources.

* **`Machine.create_eq`** — the nested loops produce one resource for each worker thread.
* **`Machine.create_matches_iff`** — the owners agree with the workers that the emitters activate
  exactly if there are as many threads as cores, or no thread is idle and the WLQ fits the cores. -/

namespace ElasticPPQ

/-- The constants of the machine. -/
structure Machine where
  /-- Number of cores for the workers (`NUM_WORKER_CORES`). -/
  numWorkerCores : Nat
  /-- Number of worker threads (`NUM_WORKER_THREADS`). -/
  numWorkerThreads : Nat
  /-- Identifier of the first core of the workers (`start_idx`). -/
  startIdx : Nat
  /-- Distance of two cores (`CORE_OFFSET`). -/
  coreOffset : Nat
  /-- Distance of two contexts of one core (`CONTEXT_OFFSET`). -/
  contextOffset : Nat

/-- A resource models a SMT context (`Resource_t`). -/
structure Resource where
  /-- Identifier of the SMT context. -/
  contextId : Nat
  /-- Owner of the resource. -/
  owner : Owner
  deriving DecidableEq

/-- The difference of two numbers of type `size_t`. -/
def sizeSub (a b : Nat) : Nat := (a + (2 ^ 64 - b)) % 2 ^ 64

/-- A subtraction of `size_t` that does not wrap around. -/
theorem sizeSub_of_le {a b : Nat} (h : b ≤ a) (ha : a < 2 ^ 64) : sizeSub a b = a - b := by
  unfold sizeSub
  omega

/-- A difference below zero wraps. -/
theorem sizeSub_of_lt {a b : Nat} (h : a < b) (hb : b < 2 ^ 64) :
    sizeSub a b = 2 ^ 64 - (b - a) := by
  unfold sizeSub
  omega

namespace Machine

variable (M : Machine) (nwPlq nwWlq : Nat)

/-- The resource that is created for context `i` of core `j`, as number `count`. -/
def resource (i j count : Nat) : Resource where
  contextId := M.startIdx + i * M.contextOffset + j * M.coreOffset
  owner :=
    if count < nwPlq then .plq
    else if sizeSub M.numWorkerCores nwWlq ≤ count then .wlq
    else .none

/-- The inner loop, with `n` rounds left. -/
def createRow (i : Nat) : Nat → Nat → Nat → List Resource
  | 0, _, _ => []
  | n + 1, j, count => M.resource nwPlq nwWlq i j count :: createRow i n (j + 1) (count + 1)

/-- The outer loop, with `n` rounds left. -/
def createRows : Nat → Nat → Nat → Nat → List Resource
  | 0, _, _, _ => []
  | n + 1, i, totW, count =>
      let num := min totW M.numWorkerCores
      M.createRow nwPlq nwWlq i num 0 count ++ createRows n (i + 1) (totW - num) (count + num)

/-- The constructor: the outer loop runs while `i <= NUM_WORKER_THREADS/NUM_WORKER_CORES`. -/
def create : List Resource :=
  M.createRows nwPlq nwWlq (M.numWorkerThreads / M.numWorkerCores + 1) 0 M.numWorkerThreads 0

/-! ## The loops -/

/-- The resource with a given number. -/
def resourceAt (count : Nat) : Resource :=
  M.resource nwPlq nwWlq (count / M.numWorkerCores) (count % M.numWorkerCores) count

variable {M nwPlq nwWlq}

/-- The inner loop creates the resources of the next indices. -/
theorem createRow_eq {i j n : Nat} (h : j + n ≤ M.numWorkerCores) :
    M.createRow nwPlq nwWlq i n j (M.numWorkerCores * i + j) =
      (List.range' (M.numWorkerCores * i + j) n).map (M.resourceAt nwPlq nwWlq) := by
  induction n generalizing j with
  | zero => rfl
  | succ n ih =>
      have hj : j < M.numWorkerCores := by omega
      rw [createRow, List.range'_succ, List.map_cons, resourceAt, Nat.mul_add_mod,
        Nat.mod_eq_of_lt hj, Nat.mul_add_div (Nat.zero_lt_of_lt hj), Nat.div_eq_of_lt hj,
        Nat.add_zero i, Nat.add_assoc, ih (by omega)]

/-- No resource is left to create. -/
theorem createRows_zero (n i count : Nat) : M.createRows nwPlq nwWlq n i 0 count = [] := by
  induction n generalizing i count with
  | zero => rfl
  | succ n ih =>
      rw [createRows, Nat.zero_min]
      exact ih (i + 1) (count + 0)

/-- As many rounds as needed. -/
theorem createRows_eq {n i totW : Nat} (h : totW ≤ M.numWorkerCores * n) :
    M.createRows nwPlq nwWlq n i totW (M.numWorkerCores * i) =
      (List.range' (M.numWorkerCores * i) totW).map (M.resourceAt nwPlq nwWlq) := by
  induction n generalizing i totW with
  | zero =>
      obtain rfl : totW = 0 := Nat.le_zero.mp h
      rfl
  | succ n ih =>
      rw [createRows]
      rcases Nat.le_total totW M.numWorkerCores with hle | hle
      · -- the last row
        rw [Nat.min_eq_left hle, Nat.sub_self, createRows_zero, List.append_nil]
        exact createRow_eq (by omega)
      · have hrow := @createRow_eq M nwPlq nwWlq i 0 M.numWorkerCores (by omega)
        have hrest := @ih (i + 1) (totW - M.numWorkerCores) (by
          rw [Nat.mul_succ] at h
          omega)
        rw [Nat.mul_succ] at hrest
        rw [Nat.min_eq_right hle, hrest, ← Nat.add_zero (M.numWorkerCores * i), hrow,
          ← List.map_append, Nat.add_zero, List.range'_append_1, Nat.add_sub_of_le hle]

/-- **The nested loops create one resource for each worker thread.** -/
theorem create_eq (hcores : 1 ≤ M.numWorkerCores) :
    M.create nwPlq nwWlq = (List.range M.numWorkerThreads).map (M.resourceAt nwPlq nwWlq) := by
  have hle : M.numWorkerThreads ≤
      M.numWorkerCores * (M.numWorkerThreads / M.numWorkerCores + 1) :=
    (Nat.lt_mul_div_succ M.numWorkerThreads hcores).le
  rw [List.range_eq_range']
  exact createRows_eq hle

/-- There are as many resources as worker threads. -/
theorem length_create (hcores : 1 ≤ M.numWorkerCores) :
    (M.create nwPlq nwWlq).length = M.numWorkerThreads := by
  rw [create_eq hcores, List.length_map, List.length_range]

/-- The owner of a resource. -/
theorem getElem?_create (hcores : 1 ≤ M.numWorkerCores) {k : Nat} (hk : k < M.numWorkerThreads) :
    ((M.create nwPlq nwWlq)[k]?.map Resource.owner) =
      some (M.resourceAt nwPlq nwWlq k).owner := by
  rw [create_eq hcores, List.getElem?_map, List.getElem?_range hk]
  rfl

/-! ## The owners -/

/-- The resources of the PLQ are those of the workers that it activates. -/
theorem create_plq (hcores : 1 ≤ M.numWorkerCores) (w : Fin M.numWorkerThreads) :
    (M.create nwPlq nwWlq)[w.val]?.map Resource.owner = some .plq ↔
      (Sched.new M.numWorkerThreads nwPlq).activatedWorker w = true := by
  rw [getElem?_create hcores w.isLt]
  show some (if w.val < nwPlq then Owner.plq else _) = some .plq ↔ decide (w.val < nwPlq) = true
  by_cases hw : w.val < nwPlq
  · simp [hw]
  · rw [if_neg hw]
    split_ifs <;> simp [hw]

/-- The resources of the WLQ. -/
theorem create_wlq (hcores : 1 ≤ M.numWorkerCores) {k : Nat} (hk : k < M.numWorkerThreads) :
    (M.create nwPlq nwWlq)[k]?.map Resource.owner = some .wlq ↔
      nwPlq ≤ k ∧ sizeSub M.numWorkerCores nwWlq ≤ k := by
  rw [getElem?_create hcores hk]
  show some (if k < nwPlq then Owner.plq else if sizeSub M.numWorkerCores nwWlq ≤ k then .wlq
    else .none) = some .wlq ↔ _
  split_ifs with hp hw
  · simp [hp]
  · simp [Nat.not_lt.mp hp, hw]
  · simp [hw]

/-- The pool and the workers that the emitters activate agree. -/
structure Matches (M : Machine) (nwPlq nwWlq : Nat) : Prop where
  length : (M.create nwPlq nwWlq).length = M.numWorkerThreads
  plq : ∀ w : Fin M.numWorkerThreads, (M.create nwPlq nwWlq)[w.val]?.map Resource.owner = some .plq ↔
    (Sched.new M.numWorkerThreads nwPlq).activatedWorker w = true
  wlq : ∀ w : Fin M.numWorkerThreads, (M.create nwPlq nwWlq)[w.val]?.map Resource.owner = some .wlq ↔
    (WlqEmitter.new M.numWorkerThreads nwWlq).activatedWorker w = true

/-- **When the pool matches the active workers.** The constructor subtracts from the number of cores
where `WLQ_Emitter` subtracts from the number of threads. -/
theorem create_matches_iff (hcores : 1 ≤ M.numWorkerCores)
    (hthreads : M.numWorkerCores ≤ M.numWorkerThreads) (hint : M.numWorkerThreads < 2 ^ 31)
    (hplq : 1 ≤ nwPlq) (hwlq : 1 ≤ nwWlq) (hle : nwPlq + nwWlq ≤ M.numWorkerThreads) :
    M.Matches nwPlq nwWlq ↔ M.numWorkerThreads = M.numWorkerCores ∨
      nwPlq + nwWlq = M.numWorkerThreads ∧ nwWlq ≤ M.numWorkerCores := by
  -- the two thresholds for the WLQ
  have hwanted : ∀ w : Fin M.numWorkerThreads,
      (WlqEmitter.new M.numWorkerThreads nwWlq).activatedWorker w = true ↔
        M.numWorkerThreads - nwWlq ≤ w.val := fun w => decide_eq_true_iff
  constructor
  · intro h
    have hsame : ∀ k < M.numWorkerThreads, (nwPlq ≤ k ∧ sizeSub M.numWorkerCores nwWlq ≤ k) ↔
        M.numWorkerThreads - nwWlq ≤ k := fun k hk =>
      (create_wlq hcores hk).symm.trans ((h.wlq ⟨k, hk⟩).trans (hwanted ⟨k, hk⟩))
    by_cases hfit : nwWlq ≤ M.numWorkerCores
    · -- the first worker of the WLQ, and the one before
      rw [sizeSub_of_le hfit (by omega)] at hsame
      have hfirst := hsame (M.numWorkerThreads - nwWlq) (by omega)
      have hbefore := hsame (M.numWorkerThreads - nwWlq - 1) (by omega)
      omega
    · -- the threshold wraps, so the WLQ owns nothing
      rw [sizeSub_of_lt (by omega) (by omega)] at hsame
      have hlast := hsame (M.numWorkerThreads - 1) (by omega)
      omega
  · intro h
    refine ⟨length_create hcores, create_plq hcores, fun w => ?_⟩
    have hw := w.isLt
    rw [create_wlq hcores hw, hwanted, sizeSub_of_le (by omega) (by omega)]
    omega

/-- Two contexts for each of eleven cores, as many workers of each stage as there are cores: the two stages
take all the resources, and the pool matches the active workers. -/
theorem create_matches_iff_witness : (⟨11, 22, 5, 1, 16⟩ : Machine).Matches 11 11 :=
  (create_matches_iff (M := ⟨11, 22, 5, 1, 16⟩) (by decide) (by decide) (by decide) (by decide)
    (by decide) (by decide)).mpr (Or.inr (by decide))

/-- Two contexts for each of eleven cores: the twelve last resources are reserved for the only worker
of the WLQ. -/
theorem create_mismatch :
    ¬ (⟨11, 22, 5, 1, 16⟩ : Machine).Matches 1 1 := by
  intro h
  exact absurd ((h.wlq 10).mp (by decide)) (by decide)

end Machine

end ElasticPPQ
