import ElasticPPQ.Lib.Quota
import ElasticPPQ.Query.TopdSet

/-! # The top-δ tuples of a results set

The method `TopdSet::toVector` (`queries.hpp`): a histogram of the dominance factors, a budget for
each factor, and a second pass over the container that uses the budgets up. An access to an index that
a vector or an array does not have is `none`.

* **`TopdSet.toVector_selects_iff`** — the best tuples are selected from every container that is not
  empty; the index of the first loop has type `size_t`, so that this loop does not stop at once for
  an empty one. -/

namespace ElasticPPQ

open Quota

variable {α : Type} {k : Nat}

/-- The conversion of an `int` to `size_t`. -/
def sizeOfInt : Int → Nat
  | .ofNat n => n
  | .negSucc n => 2 ^ 64 - (n + 1)

namespace TopdSet

/-- The first loop, with `n` rounds left from index `i`: the number of tuples per dominance factor. -/
def tally (domFactors : List Nat) : Nat → Nat → List Nat → Option (List Nat)
  | 0, _, nTuples => some nTuples
  | n + 1, i, nTuples => do
      let d ← domFactors[i]?
      let v ← nTuples[d]?
      tally domFactors n (i + 1) (nTuples.set d (v + 1))

/-- The second loop, with `m` factors left from `kdom`: how many tuples of each factor are needed. -/
def budget (nTuples : List Nat) : Nat → Nat → Nat → List Nat → Option (List Nat)
  | 0, _, _, counters => some counters
  | m + 1, kdom, needed, counters =>
      if needed = 0 then some counters
      else do
        let v ← nTuples[kdom]?
        -- the last class is taken in part
        if needed ≤ v then budget nTuples m kdom 0 (counters.set kdom needed)
        else budget nTuples m (kdom + 1) (needed - v) (counters.set kdom v)

/-- The last loop, with `n` rounds left from index `i`: the tuples whose factor has a counter left. -/
def collect (x : TopdSet α k) (delta : Nat) :
    Nat → Nat → Nat → List Nat → Option (List (Row α (k + 2)))
  | 0, _, _, _ => some []
  | n + 1, i, needed, counters => do
      let d ← x.domFactors[i]?
      let c ← counters[d]?
      if 0 < c then
        let t ← x.s.rows[i]?
        -- as many tuples as wanted have been found
        if delta ≤ needed + 1 then some [t]
        else
          let ts ← collect x delta n (i + 1) (needed + 1) (counters.set d (c - 1))
          some (t :: ts)
      else collect x delta n (i + 1) needed counters

/-- `toVector`, for `TOPD_NUMBER = delta`. The first loop runs while `i <= s->last_idx` for an index
of type `size_t`, the last one for an index of type `int`. -/
def toVector (x : TopdSet α k) (delta : Nat) : Option (List (Row α (k + 2))) := do
  let nTuples ← tally x.domFactors (sizeOfInt x.s.lastIdx + 1) 0 (List.replicate (k + 3) 0)
  -- one entry less than the classes that `tally` counts
  let counters ← budget nTuples (k + 2) 0 delta (List.replicate (k + 2) 0)
  collect x delta (x.s.lastIdx + 1).toNat 0 0 counters

/-- The tuples `ts` are the best `delta` ones of the container, or all of them: they stand at
increasing indices, and no tuple left out has a smaller dominance factor than one of them. -/
def Selects (x : TopdSet α k) (delta : Nat) (ts : List (Row α (k + 2))) : Prop :=
  ∃ idx : List Nat, idx.Sublist (List.range x.s.size) ∧
    idx.map (fun i => x.s.rows[i]?) = ts.map some ∧ idx.length = min delta x.s.size ∧
    ∀ i ∈ idx, ∀ j < x.s.size, j ∉ idx → x.domFactors.getD i 0 ≤ x.domFactors.getD j 0

/-! ## The loops -/

/-- What has been written into a table is read. -/
theorem getD_set {l : List Nat} {d e v : Nat} (hd : d < l.length) :
    (l.set d v).getD e 0 = if e = d then v else l.getD e 0 := by
  rw [List.getD_eq_getElem?_getD, List.getD_eq_getElem?_getD, List.getElem?_set]
  by_cases h : d = e
  · subst h
    simp [hd]
  · simp [h, Ne.symm h]

/-- The histogram. -/
theorem tally_spec {f : List Nat} {n i : Nat} (h : i + n = f.length) {a : List Nat}
    (hf : ∀ d ∈ f, d < a.length) :
    ∃ b, tally f n i a = some b ∧ b.length = a.length ∧
      ∀ d, b.getD d 0 = a.getD d 0 +
        (List.range' i n).countP fun j => decide (f.getD j 0 = d) := by
  induction n generalizing i a with
  | zero => exact ⟨a, rfl, rfl, fun d => rfl⟩
  | succ n ih =>
      -- the counter of the factor of tuple `i` is increased, the others stay
      have hi : i < f.length := by omega
      obtain ⟨d, hfd⟩ : ∃ d, f[i]? = some d := ⟨f[i], List.getElem?_eq_getElem hi⟩
      have hd : d < a.length := hf d (List.mem_of_getElem? hfd)
      have hv : a[d]? = some (a.getD d 0) := by
        rw [List.getElem?_eq_getElem hd, List.getD_eq_getElem a 0 hd]
      obtain ⟨b, hb, hlen, hcount⟩ := ih (i := i + 1) (a := a.set d (a.getD d 0 + 1)) (by omega)
        (by rw [List.length_set]; exact hf)
      refine ⟨b, ?_, hlen.trans List.length_set, fun e => ?_⟩
      · rw [tally, hfd]
        simp only [Option.bind_eq_bind, Option.bind_some, hv, hb]
      · have hfi : f.getD i 0 = d := by rw [List.getD_eq_getElem?_getD, hfd, Option.getD_some]
        rw [hcount, getD_set hd, List.range'_succ, List.countP_cons, hfi]
        by_cases hde : e = d
        · subst hde
          simp only [decide_true, if_true]
          omega
        · simp [hde, Ne.symm hde]

/-- The budgets are the quotas of the factors. -/
theorem budget_spec {key : Nat → Nat} {l : List Nat} {delta D : Nat} {nTuples : List Nat}
    (hlen : D ≤ nTuples.length)
    (hn : ∀ d, nTuples.getD d 0 = l.countP fun j => decide (key j = d)) {m kdom needed : Nat}
    (hm : kdom + m = D) (hneeded : needed = delta - below key l kdom) {c : List Nat}
    (hc : c.length = D) (hdone : ∀ d < kdom, c.getD d 0 = levelQuota key l delta d)
    (hleft : ∀ d, kdom ≤ d → c.getD d 0 = 0) :
    ∃ c', budget nTuples m kdom needed c = some c' ∧ c'.length = D ∧
      ∀ d < D, c'.getD d 0 = levelQuota key l delta d := by
  -- nothing is needed any more
  have hstop : ∀ {c : List Nat} {b : Nat}, delta - below key l b = 0 → c.length = D →
      (∀ d < b, c.getD d 0 = levelQuota key l delta d) → (∀ d, b ≤ d → c.getD d 0 = 0) →
      ∀ d < D, c.getD d 0 = levelQuota key l delta d := by
    intro c b hzero _ hdone hleft d _
    rcases Nat.lt_or_ge d b with hlt | hge
    · exact hdone d hlt
    · have hmono := below_mono key l hge
      rw [hleft d hge, levelQuota]
      omega
  induction m generalizing kdom needed c with
  | zero =>
      refine ⟨c, rfl, hc, fun d hd => hdone d ?_⟩
      omega
  | succ m ih =>
      rw [budget]
      by_cases hz : needed = 0
      · rw [if_pos hz]
        exact ⟨c, rfl, hc, hstop (hneeded ▸ hz) hc hdone hleft⟩
      · have hk : kdom < nTuples.length := by omega
        have hkc : kdom < c.length := by omega
        have hv : nTuples[kdom] = l.countP fun j => decide (key j = kdom) := by
          rw [← hn, List.getD_eq_getElem nTuples 0 hk]
        rw [if_neg hz, List.getElem?_eq_getElem hk]
        simp only [Option.bind_eq_bind, Option.bind_some]
        have hsucc := below_succ key l kdom
        -- the counter of this factor, if it gets `v`
        have hset : ∀ {v : Nat}, v = levelQuota key l delta kdom →
            (∀ d < kdom + 1, (c.set kdom v).getD d 0 = levelQuota key l delta d) ∧
              ∀ d, kdom + 1 ≤ d → (c.set kdom v).getD d 0 = 0 := by
          intro v hv
          refine ⟨fun d hd => ?_, fun d hd => ?_⟩
          · rw [getD_set hkc]
            by_cases hdk : d = kdom
            · rw [if_pos hdk, hdk, hv]
            · rw [if_neg hdk]
              exact hdone d (by omega)
          · rw [getD_set hkc, if_neg (by omega)]
            exact hleft d (by omega)
        by_cases hle : needed ≤ nTuples[kdom]
        · rw [if_pos hle]
          obtain ⟨hdone', hleft'⟩ := hset (v := needed) (by rw [levelQuota]; omega)
          have hlen' : (c.set kdom needed).length = D := List.length_set.trans hc
          refine ⟨c.set kdom needed, ?_, hlen', hstop (by omega) hlen' hdone' hleft'⟩
          cases m with
          | zero => rfl
          | succ m => rw [budget, if_pos rfl]
        · rw [if_neg hle]
          obtain ⟨hdone', hleft'⟩ := hset (v := nTuples[kdom]) (by rw [levelQuota]; omega)
          exact ih (by omega) (by omega) (List.length_set.trans hc) hdone' hleft'

/-- The tuples that have a counter left are collected; the loop is left early only if no counter is. -/
theorem collect_spec {x : TopdSet α k} {delta : Nat} (hlen : x.domFactors.length = x.s.size)
    (hf : ∀ d ∈ x.domFactors, d < k + 2) {n i needed : Nat} (h : i + n = x.s.size) {a : List Nat}
    (ha : a.length = k + 2)
    (hle : needed + (takeQuota (fun j => x.domFactors.getD j 0) (fun d => a.getD d 0)
      (List.range' i n)).length ≤ delta) :
    ∃ ts, collect x delta n i needed a = some ts ∧
      (takeQuota (fun j => x.domFactors.getD j 0) (fun d => a.getD d 0)
        (List.range' i n)).map (fun j => x.s.rows[j]?) = ts.map some := by
  induction n generalizing i needed a with
  | zero => exact ⟨[], rfl, rfl⟩
  | succ n ih =>
      have hi : i < x.domFactors.length := by omega
      obtain ⟨d, hfd⟩ : ∃ d, x.domFactors[i]? = some d := ⟨_, List.getElem?_eq_getElem hi⟩
      have hfi : x.domFactors.getD i 0 = d := by
        rw [List.getD_eq_getElem?_getD, hfd, Option.getD_some]
      have hd : d < a.length := by
        rw [ha]
        exact hf d (List.mem_of_getElem? hfd)
      have hv : a[d]? = some (a.getD d 0) := by
        rw [List.getElem?_eq_getElem hd, List.getD_eq_getElem a 0 hd]
      obtain ⟨t, ht⟩ : ∃ t, x.s.rows[i]? = some t :=
        ⟨_, List.getElem?_eq_getElem (by rw [TData.length_rows]; omega)⟩
      rw [collect, hfd]
      simp only [Option.bind_eq_bind, Option.bind_some, hv, ht]
      rw [List.range'_succ, takeQuota, hfi] at hle ⊢
      by_cases hpos : 0 < a.getD d 0
      · have hset : Function.update (fun e => a.getD e 0) d (a.getD d 0 - 1) =
            fun e => (a.set d (a.getD d 0 - 1)).getD e 0 := by
          funext e
          rw [getD_set hd, Function.update_apply]
        rw [if_pos hpos, hset] at hle ⊢
        rw [if_pos hpos]
        rw [List.length_cons] at hle
        by_cases hlast : delta ≤ needed + 1
        · -- all the wanted tuples are collected
          have hnil := List.length_eq_zero_iff.mp (show (takeQuota (fun j => x.domFactors.getD j 0)
            (fun e => (a.set d (a.getD d 0 - 1)).getD e 0) (List.range' (i + 1) n)).length = 0
            by omega)
          rw [if_pos hlast, hnil]
          exact ⟨[t], rfl, by rw [List.map_singleton, List.map_singleton, ht]⟩
        · obtain ⟨ts, hts, hmap⟩ := @ih (i + 1) (needed + 1) (by omega)
            (a.set d (a.getD d 0 - 1)) (List.length_set.trans ha) (by omega)
          rw [if_neg hlast, hts, List.map_cons, hmap, ht]
          exact ⟨t :: ts, rfl, rfl⟩
      · rw [if_neg hpos] at hle ⊢
        rw [if_neg hpos]
        exact ih (by omega) ha hle

/-! ## The method -/

/-- The container is not empty: the best tuples are selected. -/
theorem toVector_selects {x : TopdSet α k} (hlen : x.domFactors.length = x.s.size)
    (hf : ∀ d ∈ x.domFactors, d < k + 2) (hne : x.s.size ≠ 0) (delta : Nat) :
    ∃ ts, x.toVector delta = some ts ∧ x.Selects delta ts := by
  obtain ⟨n, hn⟩ := Nat.exists_eq_succ_of_ne_zero hne
  have hlast : x.s.lastIdx = (n : Int) := by
    rw [TData.lastIdx, hn]
    omega
  have hrounds : sizeOfInt x.s.lastIdx + 1 = x.s.size := by
    rw [hlast, hn]
    rfl
  have hint : (x.s.lastIdx + 1).toNat = x.s.size := by
    rw [hlast, hn]
    rfl
  obtain ⟨key, hkey⟩ : ∃ key : Nat → Nat, key = fun j => x.domFactors.getD j 0 := ⟨_, rfl⟩
  have hkeys : ∀ i ∈ List.range' 0 x.s.size, key i < k + 2 := by
    intro i hi
    rw [List.mem_range'_1] at hi
    have hi' : i < x.domFactors.length := by omega
    rw [hkey]
    show x.domFactors.getD i 0 < k + 2
    rw [List.getD_eq_getElem _ 0 hi']
    exact hf _ (List.getElem_mem hi')
  obtain ⟨nTuples, htally, hlenN, hcount⟩ := tally_spec (f := x.domFactors) (n := x.s.size) (i := 0)
    (a := List.replicate (k + 3) 0) (by omega) (fun d hd => by
      rw [List.length_replicate]
      exact Nat.lt_succ_of_lt (hf d hd))
  have hzero : ∀ m d, (List.replicate m 0).getD d 0 = 0 := by
    intro m d
    rw [List.getD_eq_getElem?_getD, List.getElem?_replicate]
    split <;> rfl
  obtain ⟨counters, hbudget, hlenB, hquota⟩ := @budget_spec key
    (List.range' 0 x.s.size) delta (k + 2) _ (by rw [hlenN, List.length_replicate]; omega)
    (fun d => by rw [hcount, hzero, Nat.zero_add, hkey]) (k + 2) 0 _ (Nat.zero_add _)
    (by rw [below_zero, Nat.sub_zero]) _ (List.length_replicate)
    (fun d hd => absurd hd (Nat.not_lt_zero d)) fun d _ => hzero (k + 2) d
  -- the second pass keeps what the quotas say
  have htake : takeQuota key (fun d => counters.getD d 0) (List.range' 0 x.s.size) =
      takeQuota key (levelQuota key (List.range' 0 x.s.size) delta) (List.range' 0 x.s.size) :=
    takeQuota_congr fun i hi => hquota _ (hkeys i hi)
  have hnum := @length_takeLevels Nat key (List.range' 0 x.s.size) delta _ hkeys
  rw [List.length_range'] at hnum
  obtain ⟨ts, hcollect, hmap⟩ := @collect_spec α k x delta hlen hf _ 0 0
    (Nat.zero_add x.s.size) _ hlenB (by
      rw [← hkey, htake, hnum, Nat.zero_add]
      exact Nat.min_le_left _ _)
  rw [← hkey, htake] at hmap
  refine ⟨ts, ?_, takeQuota key (levelQuota key (List.range' 0 x.s.size) delta)
    (List.range' 0 x.s.size), ?_, hmap, hnum, ?_⟩
  · rw [toVector, hrounds, htally, hint]
    simp only [Option.bind_eq_bind, Option.bind_some, hbudget, hcollect]
  · rw [List.range_eq_range']
    exact takeQuota_sublist _ _
  · intro i hi j hj hno
    have hle := takeLevels_le hi (List.mem_range'_1.mpr ⟨Nat.zero_le j, by omega⟩) hno
    rwa [hkey] at hle

/-- The container is empty: the first loop reads a factor that does not exist. -/
theorem toVector_empty {x : TopdSet α k} (hlen : x.domFactors.length = x.s.size)
    (hempty : x.s.size = 0) (delta : Nat) : x.toVector delta = none := by
  have hnil : x.domFactors = [] := List.length_eq_zero_iff.mp (hlen.trans hempty)
  have hlast : x.s.lastIdx = -1 := by
    rw [TData.lastIdx, hempty]
    rfl
  rw [toVector, hlast, hnil]
  rfl

/-- **When `toVector` selects the best tuples**: if and only if the container is not empty. -/
theorem toVector_selects_iff {x : TopdSet α k} (hlen : x.domFactors.length = x.s.size)
    (hf : ∀ d ∈ x.domFactors, d < k + 2) (delta : Nat) :
    (∃ ts, x.toVector delta = some ts ∧ x.Selects delta ts) ↔ x.s.size ≠ 0 := by
  refine ⟨?_, fun hne => toVector_selects hlen hf hne delta⟩
  rintro ⟨ts, hts, -⟩ hempty
  rw [toVector_empty hlen hempty] at hts
  cases hts

/-- Two factors, a tie at the cut. -/
def threeTuples : TopdSet ℤ 0 :=
  ⟨((TData.new ℤ 2).append ⟨![5, 1], 0, 0⟩ |>.append ⟨![3, 2], 0, 0⟩).append ⟨![1, 4], 0, 0⟩,
    [1, 0, 1]⟩

/-- Three tuples, of which two are selected. -/
theorem toVector_selects_iff_witness :
    (∃ ts, threeTuples.toVector 2 = some ts ∧ threeTuples.Selects 2 ts) ↔ threeTuples.s.size ≠ 0 :=
  toVector_selects_iff rfl (by decide) 2

/-- The constructor makes an empty container, and its tuples cannot be returned. -/
theorem toVector_fails : ¬ ∀ x : TopdSet ℤ 0, x.domFactors.length = x.s.size →
    (∀ d ∈ x.domFactors, d < 2) → ∃ ts, x.toVector 1 = some ts ∧ x.Selects 1 ts := by
  intro h
  obtain ⟨ts, hts, -⟩ := h PrefQuery.new rfl fun d hd => absurd hd List.not_mem_nil
  rw [toVector_empty rfl rfl] at hts
  cases hts

end TopdSet

end ElasticPPQ
