import ElasticPPQ.Lib.Resize
import ElasticPPQ.Query.Dominance
import ElasticPPQ.Query.TData
import Mathlib.Algebra.BigOperators.Fin

/-! # Top-δ dominant skyline queries

The class `TopdSet` (`queries.hpp`). Next to the stored tuples their dominance factors are kept; a
new tuple raises the factors of the stored ones, and those that reach `DIM` are removed. The number
of dimensions is `DIM = k + 2`.

Whether the new tuple is less than a stored one in some dimension is read off the last dimension only
(`TnoBetter` is assigned, not multiplied, after the first one), so that the stored tuples and their
factors are right exactly if that never matters (`TopdSet.exactAlong_iff`). -/

namespace ElasticPPQ

variable {α : Type} [LinearOrder α] {k : Nat}

/-- The results set of a top-δ dominant skyline query. -/
structure TopdSet (α : Type) (k : Nat) where
  /-- The container. -/
  s : TData α (k + 2)
  /-- The dominance factors of the tuples in the container. -/
  domFactors : List Nat

namespace TopdSet

/-- The entries of the four arrays of `updateTopd` for one stored tuple. -/
structure Counts where
  /-- In how many dimensions the stored tuple is equal or better. -/
  domT : Nat
  /-- `1` if the stored tuple is better in no dimension. -/
  noBetterT : Nat
  /-- In how many dimensions the new tuple is equal or better. -/
  Tdom : Nat
  /-- `1` if the new tuple is better in no dimension. -/
  TnoBetter : Nat

/-- A truth value as a number. -/
def ind (P : Prop) [Decidable P] : Nat := if P then 1 else 0

/-- The first dimension, for the values `y` of the new tuple and `x` of the stored one. -/
def Counts.first (y x : α) : Counts where
  domT := ind (x ≤ y)
  noBetterT := ind (¬ x ≤ y ∨ x = y)
  Tdom := ind (y ≤ x)
  TnoBetter := ind (¬ y ≤ x ∨ y = x)

/-- A dimension between the first and the last one; `TnoBetter` is assigned. -/
def Counts.middle (y x : α) (c : Counts) : Counts where
  domT := c.domT + ind (x ≤ y)
  noBetterT := c.noBetterT * ind (¬ x ≤ y ∨ x = y)
  Tdom := c.Tdom + ind (y ≤ x)
  -- an assignment, where `noBetterT` is multiplied
  TnoBetter := ind (¬ y ≤ x ∨ y = x)

/-- The last dimension; `TnoBetter` is assigned. -/
def Counts.last (y x : α) (c : Counts) : Counts :=
  let noBetterT := c.noBetterT * ind (¬ x ≤ y ∨ x = y)
  let TnoBetter := ind (¬ y ≤ x ∨ y = x)
  { domT := (c.domT + ind (x ≤ y)) * (1 - noBetterT)
    noBetterT := noBetterT
    Tdom := (c.Tdom + ind (y ≤ x)) * (1 - TnoBetter)
    TnoBetter := TnoBetter }

/-- The loops over the dimensions, for the stored tuple `p`. -/
def counts (t p : Row α (k + 2)) : Counts :=
  let c : Counts := (List.finRange k).foldl
    (fun c d => c.middle (t.d d.succ.castSucc) (p.d d.succ.castSucc)) (.first (t.d 0) (p.d 0))
  c.last (t.d (Fin.last (k + 1))) (p.d (Fin.last (k + 1)))

/-- The scan that shifts the tuples with factor `DIM` to the end of the container, with `n` tuples
left to examine, from index `i` to `idx = i + n - 1`. Returned are `idx + 1`, the container and the
factors. -/
def compact : (n i : Nat) → TData α (k + 2) → List Nat → Nat × TData α (k + 2) × List Nat
  | 0, i, s, f => (i, s, f)
  | n + 1, i, s, f =>
      if f.getD i 0 = k + 2 then
        -- the last tuple is examined next, in the place of the dominated one
        compact n i (s.copyRow i (i + n)) (f.set i (f.getD (i + n) 0))
      else compact n (i + 1) s f

/-- `updateTopd`: the dominance factor of `t`, then `pos + 1` and the results set. -/
def updateTopd (t : Row α (k + 2)) (x : TopdSet α k) : Nat × Nat × TopdSet α k :=
  let cs := x.s.rows.map (counts t)
  let domFactor := cs.foldl (fun m c => if m < c.domT then c.domT else m) 0
  let domFactors := cs.zipWith (fun c f => if f < c.Tdom then c.Tdom else f) x.domFactors
  -- the tuples with the greatest factor are shifted out
  let (len, s, domFactors) := compact x.s.size 0 x.s domFactors
  (domFactor, len, ⟨s, domFactors⟩)

/-- What both methods do with one tuple: `updateTopd`, then the tuples dominated by it are removed
and the new one, if it is a skyline point, is appended. Its factor `dom` is stored as `factor dom`. -/
def update (t : Row α (k + 2)) (factor : Nat → Nat) (x : TopdSet α k) : TopdSet α k :=
  let (dom, len, x) := updateTopd t x
  let x := if len < x.s.size then ⟨x.s.removeFromIndex len, x.domFactors.take len⟩ else x
  -- the new tuple is dominated in all the dimensions otherwise
  if dom < k + 2 then ⟨x.s.append t, x.domFactors ++ [factor dom]⟩ else x

/-- `addComputeTuple`. -/
def addComputeTuple (x : TopdSet α k) (t : Row α (k + 2)) : TopdSet α k := update t id x

/-- `addComputeSet`. -/
def addComputeSet (x B : TopdSet α k) : TopdSet α k :=
  if x.s.size = 0 then ⟨B.s, B.domFactors⟩
  else (B.s.rows.zip B.domFactors).foldl (fun x e => update e.1 (max · e.2) x) x

instance prefQuery : PrefQuery (Row α (k + 2)) (TopdSet α k) where
  new := ⟨TData.new α (k + 2), []⟩
  addComputeTuple := addComputeTuple
  addComputeSet := addComputeSet

/-! ## What the loops over the dimensions compute -/

/-- The dominance that `updateTopd` attributes to a new tuple over a stored one: only the last
dimension counts for being less. -/
def lastDominance (q p : Row α (k + 2)) : Nat :=
  if q.d (Fin.last (k + 1)) < p.d (Fin.last (k + 1)) then
    (Finset.univ.filter fun i => q.d i ≤ p.d i).card
  else 0

/-- What is better in the last dimension has the factor that the code computes. -/
theorem lastDominance_of_lt {q p : Row α (k + 2)}
    (h : q.d (Fin.last (k + 1)) < p.d (Fin.last (k + 1))) : lastDominance q p = q.dominance p := by
  rw [lastDominance, if_pos h, Row.dominance, if_pos ⟨_, h⟩]

/-- The factor of the last dimension is not above the true one. -/
theorem lastDominance_le (q p : Row α (k + 2)) : lastDominance q p ≤ q.dominance p := by
  by_cases h : q.d (Fin.last (k + 1)) < p.d (Fin.last (k + 1))
  · rw [lastDominance_of_lt h]
  · rw [lastDominance, if_neg h]
    exact Nat.zero_le _

/-- A coordinate is better or not. -/
theorem ind_noBetter (y x : α) : ind (¬ x ≤ y ∨ x = y) = 1 - ind (x < y) := by
  unfold ind
  rcases lt_trichotomy x y with h | rfl | h
  · rw [if_neg (by simp [h.le, h.ne]), if_pos h]
  · rw [if_pos (Or.inr rfl), if_neg (lt_irrefl x)]
  · rw [if_pos (Or.inl (not_le.mpr h)), if_neg h.le.not_gt]

/-- The middle dimensions. -/
theorem foldl_middle (y x : Fin k → α) (l : List (Fin k)) (c : Counts) :
    (l.foldl (fun c d => c.middle (y d) (x d)) c).domT
        = c.domT + (l.map fun d => ind (x d ≤ y d)).sum ∧
      (l.foldl (fun c d => c.middle (y d) (x d)) c).noBetterT
        = (if (l.any fun d => decide (x d < y d)) = true then 0 else c.noBetterT) ∧
      (l.foldl (fun c d => c.middle (y d) (x d)) c).Tdom
        = c.Tdom + (l.map fun d => ind (y d ≤ x d)).sum := by
  induction l generalizing c with
  | nil => simp
  | cons d l ih =>
      obtain ⟨h₁, h₂, h₃⟩ := ih (c.middle (y d) (x d))
      rw [List.foldl_cons, h₁, h₂, h₃]
      -- the middle dimensions are accumulated, except that `noBetterT` is overwritten
      refine ⟨?_, ?_, ?_⟩
      · simp [Counts.middle, add_assoc]
      · simp only [Counts.middle, ind_noBetter]
        by_cases hd : x d < y d
        · simp [ind, hd]
        · simp [ind, hd]
      · simp [Counts.middle, add_assoc]

/-- The number of dimensions, as the loops count it. -/
theorem card_eq (P : Fin (k + 2) → Prop) [DecidablePred P] :
    (Finset.univ.filter P).card
      = ind (P 0) + ((List.finRange k).map fun d => ind (P d.succ.castSucc)).sum
        + ind (P (Fin.last (k + 1))) := by
  rw [Finset.card_filter, Fin.sum_univ_castSucc, Fin.sum_univ_succ,
    Fin.sum_univ_def fun d : Fin k => if P d.succ.castSucc then 1 else 0]
  rfl

/-- The dimensions are the first one, those between, and the last one. -/
theorem exists_iff (P : Fin (k + 2) → Prop) :
    (∃ i, P i) ↔ (P 0 ∨ ∃ d ∈ List.finRange k, P d.succ.castSucc) ∨ P (Fin.last (k + 1)) := by
  rw [Fin.exists_fin_succ', Fin.exists_fin_succ]
  simp

/-- **Against the new tuple a stored one scores its dominance**, and the new one over it what the
last dimension lets through. -/
theorem counts_spec (t p : Row α (k + 2)) :
    (counts t p).domT = p.dominance t ∧ (counts t p).Tdom = lastDominance t p := by
  obtain ⟨h₁, h₂, h₃⟩ := foldl_middle (fun d => t.d d.succ.castSucc) (fun d => p.d d.succ.castSucc)
    (List.finRange k) (.first (t.d 0) (p.d 0))
  constructor
  · simp only [counts, Counts.last]
    rw [h₁, h₂, Row.dominance, card_eq, ind_noBetter]
    simp only [Counts.first, ind_noBetter]
    -- some dimension in which the stored tuple is smaller: the last, a middle one, or the first
    by_cases hlast : p.d (Fin.last (k + 1)) < t.d (Fin.last (k + 1))
    · rw [if_pos (c := ∃ i, p.d i < t.d i) ⟨_, hlast⟩]
      simp [ind, hlast]
    · have hany : ((List.finRange k).any fun d =>
            decide (p.d d.succ.castSucc < t.d d.succ.castSucc)) = true ↔
          ∃ d ∈ List.finRange k, p.d d.succ.castSucc < t.d d.succ.castSucc := by
        simp only [List.any_eq_true, decide_eq_true_eq]
      by_cases hmid : ∃ d ∈ List.finRange k, p.d d.succ.castSucc < t.d d.succ.castSucc
      · rw [if_pos (hany.mpr hmid),
          if_pos (c := ∃ i, p.d i < t.d i) ((exists_iff _).mpr (Or.inl (Or.inr hmid)))]
        simp
      · rw [if_neg fun h => hmid (hany.mp h)]
        by_cases hfirst : p.d 0 < t.d 0
        · rw [if_pos (c := ∃ i, p.d i < t.d i) ⟨_, hfirst⟩]
          simp [ind, hfirst]
        · have hnone : ¬ ∃ i, p.d i < t.d i := by
            rw [exists_iff]
            rintro ((h | h) | h)
            · exact hfirst h
            · exact hmid h
            · exact hlast h
          rw [if_neg hnone]
          simp [ind, hfirst, hlast]
  · simp only [counts, Counts.last]
    rw [h₃, lastDominance, card_eq, ind_noBetter]
    -- `TnoBetter` holds the comparison of the last dimension only
    by_cases hlast : t.d (Fin.last (k + 1)) < p.d (Fin.last (k + 1))
    · simp [ind, hlast, Counts.first]
    · simp [ind, hlast]

/-! ## The methods -/

/-- The tuples and factors of a results set, side by side. -/
structure Holds (x : TopdSet α k) (E : List (Row α (k + 2) × Nat)) : Prop where
  rows : x.s.rows = E.map Prod.fst
  domFactors : x.domFactors = E.map Prod.snd

omit [LinearOrder α] in
/-- **The scan keeps the tuples with factors other than `DIM`.** -/
theorem compact_spec {n i : Nat} {s : TData α (k + 2)} {f : List Nat}
    {A O : List (Row α (k + 2) × Nat)} {J : List (Row α (k + 2))} {J' : List Nat}
    (hs : s.rows = (A ++ O).map Prod.fst ++ J) (hf : f = (A ++ O).map Prod.snd ++ J')
    (hJ : J.length = J'.length) (hi : A.length = i) (hn : O.length = n) :
    ∃ (A' : List (Row α (k + 2) × Nat)) (K : List (Row α (k + 2))) (K' : List Nat),
      K.length = K'.length ∧ (compact n i s f).2.1.rows = A'.map Prod.fst ++ K ∧
      (compact n i s f).2.2 = A'.map Prod.snd ++ K' ∧ (compact n i s f).1 = A'.length ∧
      A'.Perm (A ++ O.filter fun e => e.2 ≠ k + 2) := by
  induction n generalizing i s f A O J J' with
  | zero =>
      obtain rfl := List.length_eq_zero_iff.mp hn
      rw [List.append_nil] at hs hf
      refine ⟨A, J, J', hJ, hs, hf, hi.symm, ?_⟩
      rw [List.filter_nil, List.append_nil]
  | succ n ih =>
      obtain ⟨o, O, rfl⟩ := List.exists_cons_of_length_eq_add_one hn
      rw [List.length_cons, Nat.add_right_cancel_iff] at hn
      have ho : f.getD i 0 = o.2 := by
        rw [hf, ← hi]
        simp
      by_cases hdom : o.2 = k + 2
      · -- the tuple is dominated: the last one takes its place
        rw [compact, if_pos (ho.trans hdom)]
        have hfilter : (o :: O).filter (fun e => e.2 ≠ k + 2) = O.filter fun e => e.2 ≠ k + 2 :=
          List.filter_cons_of_neg (by simpa using hdom)
        have hfst : (A.map Prod.fst).length = i := by rw [List.length_map, hi]
        have hsnd : (A.map Prod.snd).length = i := by rw [List.length_map, hi]
        rw [hfilter]
        rcases List.eq_nil_or_concat O with rfl | ⟨D, e, rfl⟩
        · -- the dominated tuple is the last one to examine
          obtain rfl : 0 = n := hn
          have hs' : s.rows = A.map Prod.fst ++ o.1 :: J := by rw [hs]; simp
          have hf' : f = A.map Prod.snd ++ o.2 :: J' := by rw [hf]; simp
          have hcopy := TData.rows_copyRow_of_eq hs' hs'
          have hset := set_getD_of_eq hf' hf' 0
          rw [hfst] at hcopy
          rw [hsnd] at hset
          exact ⟨A, o.1 :: J, o.2 :: J', by simp [hJ], hcopy, hset, hi.symm, by simp⟩
        · -- otherwise the last one is copied over it
          rw [List.concat_eq_append] at hs hf hn ⊢
          have hs₁ : s.rows = A.map Prod.fst ++ o.1 :: ((D ++ [e]).map Prod.fst ++ J) := by
            rw [hs]; simp
          have hs₂ : s.rows = (A ++ o :: D).map Prod.fst ++ e.1 :: J := by rw [hs]; simp
          have hf₁ : f = A.map Prod.snd ++ o.2 :: ((D ++ [e]).map Prod.snd ++ J') := by
            rw [hf]; simp
          have hf₂ : f = (A ++ o :: D).map Prod.snd ++ e.2 :: J' := by rw [hf]; simp
          have hpos : i + n = (A ++ o :: D).length := by
            rw [List.length_append, List.length_cons, ← hn, hi, List.length_append]
            rfl
          have hcopy := TData.rows_copyRow_of_eq hs₁ hs₂
          have hset := set_getD_of_eq hf₁ hf₂ 0
          rw [hfst, List.length_map, ← hpos] at hcopy
          rw [hsnd, List.length_map, ← hpos] at hset
          have hcopy' : (s.copyRow i (i + n)).rows = (A ++ e :: D).map Prod.fst ++ e.1 :: J := by
            rw [hcopy]
            simp
          have hset' : f.set i (f.getD (i + n) 0) = (A ++ e :: D).map Prod.snd ++ e.2 :: J' := by
            rw [hset]
            simp
          obtain ⟨A', K, K', hK, h₁, h₂, h₃, hperm⟩ := ih hcopy' hset' (by simp [hJ]) hi
            (by rw [← hn, List.length_append]; rfl)
          refine ⟨A', K, K', hK, h₁, h₂, h₃, hperm.trans (List.Perm.append_left A ?_)⟩
          exact (List.perm_append_singleton e D).symm.filter _
      · -- the tuple is kept
        rw [compact, if_neg fun hc => hdom (ho.symm.trans hc)]
        have hfilter : (o :: O).filter (fun e => e.2 ≠ k + 2) = o :: O.filter fun e => e.2 ≠ k + 2 :=
          List.filter_cons_of_pos (by simpa using hdom)
        rw [List.append_cons] at hs hf
        obtain ⟨A', K, K', hK, h₁, h₂, h₃, hperm⟩ := ih (i := i + 1) hs hf hJ (by simp [hi]) hn
        refine ⟨A', K, K', hK, h₁, h₂, h₃, ?_⟩
        rw [hfilter, List.append_cons]
        exact hperm

/-- The factor of a stored tuple after the comparison with `t`. -/
def bump (t : Row α (k + 2)) (e : Row α (k + 2) × Nat) : Row α (k + 2) × Nat :=
  (e.1, max e.2 (lastDominance t e.1))

open Pareto

/-- The dominance factor of the new tuple. -/
theorem foldl_domT (t : Row α (k + 2)) (l : List (Row α (k + 2))) (n : Nat) :
    (l.map (counts t)).foldl (fun m c => if m < c.domT then c.domT else m) n
      = max n (best Row.dominance (l : Multiset (Row α (k + 2))) t) := by
  induction l generalizing n with
  | nil => simp
  | cons p l ih =>
      rw [List.map_cons, List.foldl_cons, ih, (counts_spec t p).1, ← Multiset.cons_coe, best_cons,
        ← max_assoc]
      congr 1
      split <;> omega

/-- The factors of the stored tuples. -/
theorem zipWith_Tdom (t : Row α (k + 2)) (E : List (Row α (k + 2) × Nat)) :
    ((E.map Prod.fst).map (counts t)).zipWith (fun c f => if f < c.Tdom then c.Tdom else f)
      (E.map Prod.snd) = (E.map (bump t)).map Prod.snd := by
  induction E with
  | nil => rfl
  | cons e E ih =>
      simp only [List.map_cons, List.zipWith_cons_cons, ih, (counts_spec t e.1).2, bump]
      congr 1
      split <;> omega

/-- What a results set holds after one more tuple: the factors are raised, the stored tuples with
factor `DIM` are dropped, and the new one is added if its own factor is less. -/
def stepEntries (t : Row α (k + 2)) (factor : Nat → Nat) (E : Multiset (Row α (k + 2) × Nat)) :
    Multiset (Row α (k + 2) × Nat) :=
  (E.map (bump t)).filter (fun e => e.2 ≠ k + 2) +
    if best Row.dominance (E.map Prod.fst) t < k + 2 then
      {(t, factor (best Row.dominance (E.map Prod.fst) t))}
    else 0

/-- **One tuple.** -/
theorem update_spec (t : Row α (k + 2)) (factor : Nat → Nat) {x : TopdSet α k}
    {E : List (Row α (k + 2) × Nat)} (h : Holds x E) :
    ∃ E' : List (Row α (k + 2) × Nat), Holds (update t factor x) E' ∧
      (E' : Multiset (Row α (k + 2) × Nat)) = stepEntries t factor E := by
  obtain ⟨d, hd⟩ : ∃ d, d = best Row.dominance ((E.map Prod.fst : List (Row α (k + 2))) :
    Multiset (Row α (k + 2))) t := ⟨_, rfl⟩
  obtain ⟨f, hf⟩ : ∃ f, f = (E.map (bump t)).map Prod.snd := ⟨_, rfl⟩
  have hupdate : updateTopd t x = (d, (compact x.s.size 0 x.s f).1,
      ⟨(compact x.s.size 0 x.s f).2.1, (compact x.s.size 0 x.s f).2.2⟩) := by
    simp only [updateTopd, h.rows, h.domFactors, foldl_domT, zipWith_Tdom, hd, hf, Nat.zero_max]
  have hrows : x.s.rows = ([] ++ E.map (bump t)).map Prod.fst ++ [] := by
    rw [h.rows, List.nil_append, List.append_nil, List.map_map]
    rfl
  have hfactors : f = ([] ++ E.map (bump t)).map Prod.snd ++ [] := by
    rw [List.nil_append, List.append_nil, hf]
  have hsize : (E.map (bump t)).length = x.s.size := by
    rw [List.length_map, ← TData.length_rows, h.rows, List.length_map]
  obtain ⟨A, K, K', hK, hA, hA', hlen, hperm⟩ := compact_spec hrows hfactors rfl rfl hsize
  rw [List.length_nil] at hA hA' hlen
  rw [List.nil_append] at hperm
  obtain ⟨r, hr⟩ : ∃ r, r = compact x.s.size 0 x.s f := ⟨_, rfl⟩
  rw [← hr] at hA hA' hlen hupdate
  -- the tuples with factor `DIM` are cut off
  obtain ⟨x', hx'⟩ : ∃ x' : TopdSet α k, x' = if r.1 < r.2.1.size then
    ⟨r.2.1.removeFromIndex r.1, r.2.2.take r.1⟩ else ⟨r.2.1, r.2.2⟩ := ⟨_, rfl⟩
  have hholds : Holds x' A := by
    rw [hx']
    split
    · refine ⟨?_, ?_⟩
      · rw [TData.rows_removeFromIndex, hA, hlen, ← List.length_map Prod.fst, List.take_left]
      · show r.2.2.take r.1 = _
        rw [hA', hlen, ← List.length_map Prod.snd, List.take_left]
    · rename_i hge
      have hall := congrArg List.length hA
      rw [TData.length_rows, List.length_append, List.length_map, ← hlen] at hall
      obtain rfl := List.length_eq_zero_iff.mp (by omega : K.length = 0)
      obtain rfl := List.length_eq_zero_iff.mp hK.symm
      exact ⟨by rw [hA, List.append_nil], by show r.2.2 = _; rw [hA', List.append_nil]⟩
  have hrun : update t factor x =
      if d < k + 2 then ⟨x'.s.append t, x'.domFactors ++ [factor d]⟩ else x' := by
    rw [update, hupdate, hx']
  have hkept : (A : Multiset (Row α (k + 2) × Nat)) = Multiset.filter (fun e => e.2 ≠ k + 2)
      (Multiset.map (bump t) (E : Multiset (Row α (k + 2) × Nat))) := by
    rw [Multiset.map_coe, Multiset.filter_coe]
    exact Multiset.coe_eq_coe.mpr hperm
  rw [hrun, stepEntries, ← hkept, Multiset.map_coe, ← hd]
  by_cases hlt : d < k + 2
  · rw [if_pos hlt, if_pos hlt]
    refine ⟨A ++ [(t, factor d)], ⟨?_, ?_⟩, ?_⟩
    · rw [TData.rows_append, hholds.rows, List.map_append]
      rfl
    · show x'.domFactors ++ [factor d] = _
      rw [hholds.domFactors, List.map_append]
      rfl
    · rw [← Multiset.coe_add]
      rfl
  · rw [if_neg hlt, if_neg hlt]
    exact ⟨A, hholds, (add_zero _).symm⟩

/-! ## Exact results sets -/

/-- **An exact results set** for the tuples `m`: it holds the tuples that none dominates, and for each
of them the greatest dominance of a tuple of `m` over it. -/
structure Exact (x : TopdSet α k) (m : Multiset (Row α (k + 2))) : Prop where
  rows : (x.s.rows : Multiset (Row α (k + 2))) = nondominated Row.Dominates m
  domFactors : x.domFactors = x.s.rows.map (best Row.dominance m)

/-- A dominance factor is at most `DIM`. -/
theorem best_dominance_le (m : Multiset (Row α (k + 2))) (p : Row α (k + 2)) :
    best Row.dominance m p ≤ k + 2 :=
  best_le_iff.mpr fun q _ => q.dominance_le p

/-- It is `DIM` for the dominated tuples only. -/
theorem best_dominance_lt_iff {m : Multiset (Row α (k + 2))} {p : Row α (k + 2)} :
    best Row.dominance m p < k + 2 ↔ ∀ q ∈ m, ¬ q.Dominates p := by
  constructor
  · intro h q hq hqp
    have := le_best (k := Row.dominance) (p := p) hq
    rw [(Row.dominance_eq_iff (Nat.succ_pos _)).mpr hqp] at this
    omega
  · intro h
    refine lt_of_le_of_ne (best_dominance_le m p) fun heq => ?_
    obtain ⟨q, hq, hqp⟩ := exists_best (k := Row.dominance) (m := m) (p := p) (by omega)
    exact h q hq ((Row.dominance_eq_iff (Nat.succ_pos _)).mp (hqp.trans heq))

/-- The entries of an exact results set. -/
theorem exact_iff {x : TopdSet α k} {E : List (Row α (k + 2) × Nat)} (h : Holds x E)
    (m : Multiset (Row α (k + 2))) :
    x.Exact m ↔ (E : Multiset (Row α (k + 2) × Nat)) =
      (nondominated Row.Dominates m).map fun p => (p, best Row.dominance m p) := by
  constructor
  · rintro ⟨hrows, hfac⟩
    rw [h.rows] at hrows hfac
    rw [h.domFactors, List.map_map] at hfac
    -- the columns of tuples and factors determine the entries
    have hE : E = (E.map Prod.fst).map fun p => (p, best Row.dominance m p) := by
      rw [List.map_map]
      refine (List.map_id E).symm.trans (List.map_congr_left fun e he => ?_)
      exact Prod.ext rfl (List.map_inj_left.mp hfac e he)
    rw [← hrows, Multiset.map_coe, ← hE]
  · intro hE
    constructor
    · have := congrArg (Multiset.map Prod.fst) hE
      rw [Multiset.map_map, Multiset.map_coe, ← h.rows] at this
      simpa using this
    · rw [h.domFactors, h.rows, List.map_map]
      refine List.map_congr_left fun e he => ?_
      have hmem : e ∈ (E : Multiset (Row α (k + 2) × Nat)) := he
      rw [hE] at hmem
      obtain ⟨p, -, rfl⟩ := Multiset.mem_map.mp hmem
      rfl

/-- An exact results set holds its tuples with their factors. -/
theorem Exact.holds {x : TopdSet α k} {m : Multiset (Row α (k + 2))} (h : x.Exact m) :
    Holds x (x.s.rows.map fun p => (p, best Row.dominance m p)) where
  rows := by
    rw [List.map_map]
    exact (List.map_id _).symm
  domFactors := by
    rw [h.domFactors, List.map_map]
    rfl

/-! ## A list of tuples added one by one -/

section Fold

variable (m m' : Multiset (Row α (k + 2)))

/-- The factor of a tuple stored at the beginning, after the tuples `pre`. -/
def factorAfter (pre : Multiset (Row α (k + 2))) (p : Row α (k + 2)) : Nat :=
  max (best Row.dominance m p) (best lastDominance pre p)

/-- What the results set, exact for `m` at the beginning, holds after the tuples `pre` of one that is
exact for `m'`. -/
def entriesAfter (pre : Multiset (Row α (k + 2))) : Multiset (Row α (k + 2) × Nat) :=
  ((nondominated Row.Dominates m).filter fun p => factorAfter m pre p ≠ k + 2).map
      (fun p => (p, factorAfter m pre p)) +
    (pre.filter fun b => ∀ p ∈ nondominated Row.Dominates m, ¬ p.Dominates b).map
      fun b => (b, best Row.dominance (m + m') b)

variable {m m'}

/-- One tuple more has been compared. -/
theorem factorAfter_cons (b : Row α (k + 2)) (pre : Multiset (Row α (k + 2))) (p : Row α (k + 2)) :
    factorAfter m (b ::ₘ pre) p = max (factorAfter m pre p) (lastDominance b p) := by
  rw [factorAfter, best_cons, factorAfter, max_assoc, max_comm (lastDominance b p)]

/-- The factor stays within the number of dimensions. -/
theorem factorAfter_le (pre : Multiset (Row α (k + 2))) (p : Row α (k + 2)) :
    factorAfter m pre p ≤ k + 2 :=
  max_le (best_dominance_le m p)
    (best_le_iff.mpr fun q _ => (lastDominance_le q p).trans (q.dominance_le p))

/-- A stored tuple is dropped only if a tuple of the list dominates it. -/
theorem exists_dominates_of_dropped {pre : Multiset (Row α (k + 2))} {p : Row α (k + 2)}
    (hp : p ∈ nondominated Row.Dominates m) (h : factorAfter m pre p = k + 2) :
    ∃ c ∈ pre, c.Dominates p := by
  have hlt := best_dominance_lt_iff.mpr (mem_nondominated.mp hp).2
  have hlast : best lastDominance pre p = k + 2 := by
    rw [factorAfter] at h
    omega
  obtain ⟨c, hc, hcp⟩ := exists_best (k := lastDominance) (m := pre) (p := p) (by omega)
  refine ⟨c, hc, (Row.dominance_eq_iff (Nat.succ_pos _)).mp ?_⟩
  exact le_antisymm (c.dominance_le p) ((hcp.trans hlast).symm.le.trans (lastDominance_le c p))

/-- The stored tuples against one more tuple of the list. -/
theorem bump_stored (b : Row α (k + 2)) (pre : Multiset (Row α (k + 2))) :
    ((((nondominated Row.Dominates m).filter fun p => factorAfter m pre p ≠ k + 2).map
      fun p => (p, factorAfter m pre p)).map (bump b)).filter (fun e => e.2 ≠ k + 2) =
    ((nondominated Row.Dominates m).filter fun p => factorAfter m (b ::ₘ pre) p ≠ k + 2).map
      fun p => (p, factorAfter m (b ::ₘ pre) p) := by
  rw [Multiset.map_map, Multiset.filter_map, Multiset.filter_filter]
  -- bumping the stored factors takes one more tuple into account
  have hmap : (bump b ∘ fun p => (p, factorAfter m pre p))
      = fun p => (p, factorAfter m (b ::ₘ pre) p) := by
    funext p
    simp only [Function.comp, bump, factorAfter_cons]
  rw [hmap]
  congr 1
  refine Multiset.filter_congr fun p _ => ?_
  have hle := factorAfter_le (m := m) (b ::ₘ pre) p
  have hcons := factorAfter_cons (m := m) b pre p
  show factorAfter m (b ::ₘ pre) p ≠ k + 2 ∧ factorAfter m pre p ≠ k + 2 ↔ _
  omega

/-- The tuples of the list added before, against one more: nothing changes. -/
theorem bump_added {b : Row α (k + 2)} {pre : Multiset (Row α (k + 2))}
    (hb : b ∈ nondominated Row.Dominates m')
    (hpre : ∀ c ∈ pre, c ∈ nondominated Row.Dominates m') :
    (((pre.filter fun c => ∀ p ∈ nondominated Row.Dominates m, ¬ p.Dominates c).map
      fun c => (c, best Row.dominance (m + m') c)).map (bump b)).filter (fun e => e.2 ≠ k + 2) =
    (pre.filter fun c => ∀ p ∈ nondominated Row.Dominates m, ¬ p.Dominates c).map
      fun c => (c, best Row.dominance (m + m') c) := by
  have hbump : (((pre.filter fun c => ∀ p ∈ nondominated Row.Dominates m, ¬ p.Dominates c).map
      fun c => (c, best Row.dominance (m + m') c)).map (bump b)) =
      (pre.filter fun c => ∀ p ∈ nondominated Row.Dominates m, ¬ p.Dominates c).map
        fun c => (c, best Row.dominance (m + m') c) := by
    -- a tuple just added has its final factor, so a bump does not raise it
    rw [Multiset.map_map]
    refine Multiset.map_congr rfl fun c _ => ?_
    have hle := (lastDominance_le b c).trans
      (le_best (k := Row.dominance) (p := c) (mem_of_mem_nondominated hb))
    refine Prod.ext rfl ?_
    show max (best Row.dominance (m + m') c) (lastDominance b c) = best Row.dominance (m + m') c
    rw [best_add]
    omega
  rw [hbump, Multiset.filter_eq_self]
  intro e he
  obtain ⟨c, hc, rfl⟩ := Multiset.mem_map.mp he
  obtain ⟨hc, hnone⟩ := Multiset.mem_filter.mp hc
  -- neither the old set nor the new one dominates it, so it is not removed
  have hm := best_dominance_lt_iff.mpr (forall_nondominated_iff.mp hnone)
  have hm' := best_dominance_lt_iff.mpr (mem_nondominated.mp (hpre c hc)).2
  show best Row.dominance (m + m') c ≠ k + 2
  rw [best_add]
  omega

/-- The factor of the new tuple: a stored tuple dropped before is not missed. -/
theorem best_entriesAfter {b : Row α (k + 2)} {pre : Multiset (Row α (k + 2))}
    (hb : b ∈ nondominated Row.Dominates m')
    (hpre : ∀ c ∈ pre, c ∈ nondominated Row.Dominates m') :
    (best Row.dominance ((entriesAfter m m' pre).map Prod.fst) b < k + 2 ↔
        ∀ p ∈ nondominated Row.Dominates m, ¬ p.Dominates b) ∧
      max (best Row.dominance ((entriesAfter m m' pre).map Prod.fst) b) (best Row.dominance m' b)
        = best Row.dominance (m + m') b := by
  have hfst : (entriesAfter m m' pre).map Prod.fst =
      (nondominated Row.Dominates m).filter (fun p => factorAfter m pre p ≠ k + 2) +
        pre.filter fun c => ∀ p ∈ nondominated Row.Dominates m, ¬ p.Dominates c := by
    rw [entriesAfter, Multiset.map_add, Multiset.map_map, Multiset.map_map]
    simp
  rw [hfst]
  constructor
  · rw [best_dominance_lt_iff]
    constructor
    · intro h p hp hpb
      -- the tuple that dominates `b` is stored, or another one has pushed it out
      by_cases hdrop : factorAfter m pre p = k + 2
      · obtain ⟨c, hc, hcp⟩ := exists_dominates_of_dropped hp hdrop
        exact not_dom_of_mem hb (hpre c hc) (IsTrans.trans _ _ _ hcp hpb)
      · exact h p (Multiset.mem_add.mpr (Or.inl (Multiset.mem_filter.mpr ⟨hp, hdrop⟩))) hpb
    · intro h q hq
      rcases Multiset.mem_add.mp hq with hq | hq
      · exact h q (Multiset.mem_filter.mp hq).1
      · exact not_dom_of_mem hb (hpre q (Multiset.mem_filter.mp hq).1)
  · rw [best_add m m']
    refine le_antisymm (max_le (best_le_iff.mpr fun q hq => ?_) (le_max_right _ _))
      (max_le ?_ (le_max_right _ _))
    · rcases Multiset.mem_add.mp hq with hq | hq
      · exact le_max_of_le_left
          (le_best (mem_of_mem_nondominated (Multiset.mem_filter.mp hq).1))
      · exact le_max_of_le_right
          (le_best (mem_of_mem_nondominated (hpre q (Multiset.mem_filter.mp hq).1)))
    · rw [← best_nondominated Row.Dominates (fun q q' p h => Row.dominance_mono h p) m b]
      refine best_le_iff.mpr fun p hp => ?_
      -- what has been dropped is dominated by a tuple that is still there, which scores as much
      by_cases hdrop : factorAfter m pre p = k + 2
      · obtain ⟨c, hc, hcp⟩ := exists_dominates_of_dropped hp hdrop
        exact le_max_of_le_right ((Row.dominance_mono hcp b).trans
          (le_best (mem_of_mem_nondominated (hpre c hc))))
      · exact le_max_of_le_left
          (le_best (Multiset.mem_add.mpr (Or.inl (Multiset.mem_filter.mpr ⟨hp, hdrop⟩))))

/-- **One tuple of the list.** -/
theorem stepEntries_entriesAfter {b : Row α (k + 2)} {pre : Multiset (Row α (k + 2))}
    (hb : b ∈ nondominated Row.Dominates m')
    (hpre : ∀ c ∈ pre, c ∈ nondominated Row.Dominates m') :
    stepEntries b (max · (best Row.dominance m' b)) (entriesAfter m m' pre)
      = entriesAfter m m' (b ::ₘ pre) := by
  obtain ⟨hlt, hmax⟩ := best_entriesAfter hb hpre
  rw [stepEntries, hmax]
  simp only [hlt]
  have hsplit : ((entriesAfter m m' pre).map (bump b)).filter (fun e => e.2 ≠ k + 2) =
      ((nondominated Row.Dominates m).filter fun p => factorAfter m (b ::ₘ pre) p ≠ k + 2).map
          (fun p => (p, factorAfter m (b ::ₘ pre) p)) +
        (pre.filter fun c => ∀ p ∈ nondominated Row.Dominates m, ¬ p.Dominates c).map
          fun c => (c, best Row.dominance (m + m') c) := by
    rw [entriesAfter, Multiset.map_add, Multiset.filter_add, bump_stored, bump_added hb hpre]
  rw [hsplit, entriesAfter, add_assoc]
  congr 1
  -- the tuple is added unless a tuple of the old set dominates it
  by_cases hnone : ∀ p ∈ nondominated Row.Dominates m, ¬ p.Dominates b
  · rw [if_pos hnone, Multiset.filter_cons_of_pos _ hnone, Multiset.map_cons,
      ← Multiset.singleton_add]
    exact add_comm _ _
  · rw [if_neg hnone, Multiset.filter_cons_of_neg _ hnone, add_zero]

/-- **All the tuples of the list.** -/
theorem foldl_update_spec {l : List (Row α (k + 2) × Nat)} {pre : Multiset (Row α (k + 2))}
    {x : TopdSet α k} {E : List (Row α (k + 2) × Nat)} (h : Holds x E)
    (hE : (E : Multiset (Row α (k + 2) × Nat)) = entriesAfter m m' pre)
    (hl : ∀ e ∈ l, e.1 ∈ nondominated Row.Dominates m' ∧ e.2 = best Row.dominance m' e.1)
    (hpre : ∀ c ∈ pre, c ∈ nondominated Row.Dominates m') :
    ∃ E' : List (Row α (k + 2) × Nat),
      Holds (l.foldl (fun x e => update e.1 (max · e.2) x) x) E' ∧
      (E' : Multiset (Row α (k + 2) × Nat)) = entriesAfter m m' ((l.map Prod.fst : List _) + pre) := by
  -- induction on the tuples merged, those before them being `pre`
  induction l generalizing pre x E with
  | nil => exact ⟨E, h, by rw [hE]; simp⟩
  | cons e l ih =>
      obtain ⟨hmem, hfac⟩ := hl e List.mem_cons_self
      obtain ⟨E₁, h₁, hE₁⟩ := update_spec e.1 (max · e.2) h
      rw [hE, hfac, stepEntries_entriesAfter hmem hpre] at hE₁
      obtain ⟨E', h', hE'⟩ := ih h₁ hE₁ (fun e he => hl e (List.mem_cons_of_mem _ he)) fun c hc => by
        rcases Multiset.mem_cons.mp hc with rfl | hc
        · exact hmem
        · exact hpre c hc
      refine ⟨E', h', ?_⟩
      rw [hE', List.map_cons, ← Multiset.cons_coe, Multiset.add_cons, Multiset.cons_add]

end Fold

/-! ## When a results set stays exact -/

/-- What keeps a results set that is exact for `m` exact when another one, exact for `m'`, is added:
the dominance of a new tuple `b` over a stored tuple `p` is no news, or another new tuple has at least
as much of it and is less than `p` in the last dimension. -/
def Visible (m m' : Multiset (Row α (k + 2))) : Prop :=
  ∀ p ∈ nondominated Row.Dominates m, ∀ b ∈ nondominated Row.Dominates m',
    b.dominance p ≤ best Row.dominance m p ∨
      ∃ c ∈ nondominated Row.Dominates m',
        c.d (Fin.last (k + 1)) < p.d (Fin.last (k + 1)) ∧ b.dominance p ≤ c.dominance p

/-- In terms of the factors: those computed are the true ones. -/
theorem visible_iff {m m' : Multiset (Row α (k + 2))} :
    Visible m m' ↔ ∀ p ∈ nondominated Row.Dominates m,
      factorAfter m (nondominated Row.Dominates m') p = best Row.dominance (m + m') p := by
  refine forall₂_congr fun p hp => ?_
  have hle : best lastDominance (nondominated Row.Dominates m') p ≤ best Row.dominance m' p :=
    best_le_iff.mpr fun q hq => (lastDominance_le q p).trans (le_best (mem_of_mem_nondominated hq))
  have hbest := best_nondominated Row.Dominates
    (fun q q' p h => Row.dominance_mono h p) m' p
  rw [factorAfter, best_add]
  constructor
  -- no stored factor is larger than the best one; that it is reached is the condition
  · intro h
    refine le_antisymm (max_le_max le_rfl hle) (max_le (le_max_left _ _) ?_)
    rw [← hbest]
    refine best_le_iff.mpr fun b hb => ?_
    rcases h b hb with hold | ⟨c, hc, hlt, hbc⟩
    · exact le_max_of_le_left hold
    · rw [← lastDominance_of_lt hlt] at hbc
      exact le_max_of_le_right (hbc.trans (le_best hc))
  · intro h b hb
    -- the factor comes from the old tuples, or from one that is better in the last dimension
    by_cases hold : b.dominance p ≤ best Row.dominance m p
    · exact Or.inl hold
    · have hb' := le_best (k := Row.dominance) (p := p) (mem_of_mem_nondominated hb)
      have hne : best lastDominance (nondominated Row.Dominates m') p ≠ 0 := by omega
      obtain ⟨c, hc, hcp⟩ := exists_best hne
      have hlt : c.d (Fin.last (k + 1)) < p.d (Fin.last (k + 1)) := by
        by_contra hge
        rw [lastDominance, if_neg hge] at hcp
        exact hne hcp.symm
      refine Or.inr ⟨c, hc, hlt, ?_⟩
      rw [← lastDominance_of_lt hlt, hcp]
      omega

/-- **The entries after a list of tuples are the right ones if and only if nothing is missed.** -/
theorem entriesAfter_eq_iff {m m' : Multiset (Row α (k + 2))} :
    entriesAfter m m' (nondominated Row.Dominates m') =
        (nondominated Row.Dominates (m + m')).map (fun p => (p, best Row.dominance (m + m') p)) ↔
      Visible m m' := by
  -- a tuple of the old set stays in both if its best factor is below `DIM`
  have hdom : ∀ p ∈ nondominated Row.Dominates m, best Row.dominance (m + m') p ≠ k + 2 ↔
      ∀ q ∈ nondominated Row.Dominates m', ¬ q.Dominates p := by
    intro p hp
    have hlt := best_dominance_lt_iff.mpr (mem_nondominated.mp hp).2
    have hle := best_dominance_le m' p
    rw [forall_nondominated_iff, ← best_dominance_lt_iff, best_add]
    omega
  rw [entriesAfter, nondominated_add, Multiset.map_add, add_left_inj, visible_iff]
  constructor
  · intro heq p hp
    by_contra hne
    have hle : factorAfter m (nondominated Row.Dominates m') p ≤ best Row.dominance (m + m') p := by
      rw [factorAfter, best_add]
      refine max_le_max le_rfl (best_le_iff.mpr fun q hq => ?_)
      exact (lastDominance_le q p).trans (le_best (mem_of_mem_nondominated hq))
    have hall := best_dominance_le (m + m') p
    -- otherwise the set stores the pair with the smaller factor, which is not a pair of the result
    have hmem : (p, factorAfter m (nondominated Row.Dominates m') p) ∈
        ((nondominated Row.Dominates m).filter fun p =>
          factorAfter m (nondominated Row.Dominates m') p ≠ k + 2).map
            fun p => (p, factorAfter m (nondominated Row.Dominates m') p) :=
      Multiset.mem_map_of_mem _ (Multiset.mem_filter.mpr ⟨hp, by omega⟩)
    rw [heq] at hmem
    obtain ⟨q, -, hq⟩ := Multiset.mem_map.mp hmem
    obtain ⟨rfl, hfac⟩ := Prod.ext_iff.mp hq
    exact hne hfac.symm
  · intro h
    have hfilter : (nondominated Row.Dominates m).filter
          (fun p => factorAfter m (nondominated Row.Dominates m') p ≠ k + 2) =
        (nondominated Row.Dominates m).filter
          fun p => ∀ q ∈ nondominated Row.Dominates m', ¬ q.Dominates p := by
      refine Multiset.filter_congr fun p hp => ?_
      rw [h p hp]
      exact hdom p hp
    rw [hfilter]
    refine Multiset.map_congr rfl fun p hp => ?_
    rw [h p (Multiset.mem_filter.mp hp).1]

/-- A list of tuples with their factors, added to an exact results set. -/
theorem exact_foldl_iff {x : TopdSet α k} {m m' : Multiset (Row α (k + 2))} (hx : x.Exact m)
    {l : List (Row α (k + 2) × Nat)}
    (hl : (l.map Prod.fst : Multiset (Row α (k + 2))) = nondominated Row.Dominates m')
    (hfac : ∀ e ∈ l, e.2 = best Row.dominance m' e.1) :
    (l.foldl (fun x e => update e.1 (max · e.2) x) x).Exact (m + m') ↔ Visible m m' := by
  -- before the merge the stored pairs are those of the old tuples alone
  have hstart : ((x.s.rows.map fun p => (p, best Row.dominance m p) : List (Row α (k + 2) × Nat)) :
      Multiset (Row α (k + 2) × Nat)) = entriesAfter m m' 0 := by
    have hkeep : (nondominated Row.Dominates m).filter (fun p => factorAfter m 0 p ≠ k + 2)
        = nondominated Row.Dominates m := by
      refine Multiset.filter_eq_self.mpr fun p hp => ?_
      have := best_dominance_lt_iff.mpr (mem_nondominated.mp hp).2
      rw [factorAfter, best_zero]
      omega
    rw [entriesAfter, hkeep, ← hx.rows, Multiset.map_coe]
    simp [factorAfter]
  have hmem : ∀ e ∈ l, e.1 ∈ nondominated Row.Dominates m' ∧ e.2 = best Row.dominance m' e.1 := by
    intro e he
    refine ⟨?_, hfac e he⟩
    rw [← hl]
    exact List.mem_map_of_mem he
  obtain ⟨E, hE, hentries⟩ := foldl_update_spec hx.holds hstart hmem
    fun c hc => absurd hc (Multiset.notMem_zero c)
  rw [add_zero, hl] at hentries
  rw [exact_iff hE, hentries, entriesAfter_eq_iff]

/-- A tuple is added to an exact results set. -/
theorem exact_addComputeTuple_iff {x : TopdSet α k} {m : Multiset (Row α (k + 2))}
    (hx : x.Exact m) (t : Row α (k + 2)) :
    (x.addComputeTuple t).Exact (m + {t}) ↔ Visible m {t} := by
  have hself : best Row.dominance {t} t = 0 := by
    refine Nat.le_zero.mp (best_le_iff.mpr fun q hq => ?_)
    rw [Multiset.mem_singleton.mp hq, Row.dominance, if_neg (by simp)]
  -- a single tuple is merged with factor zero
  have hfactor : (id : Nat → Nat) = fun d => max d 0 := by
    funext d
    exact (Nat.max_zero d).symm
  have hl : (([(t, 0)] : List (Row α (k + 2) × Nat)).map Prod.fst : Multiset (Row α (k + 2)))
      = nondominated Row.Dominates {t} := by
    rw [nondominated_singleton]
    rfl
  rw [addComputeTuple, hfactor]
  refine exact_foldl_iff hx hl fun e he => ?_
  rw [List.mem_singleton.mp he, hself]

/-- An exact results set is added to another one. -/
theorem exact_addComputeSet_iff {x B : TopdSet α k} {m m' : Multiset (Row α (k + 2))}
    (hx : x.Exact m) (hB : B.Exact m') :
    (x.addComputeSet B).Exact (m + m') ↔ Visible m m' := by
  by_cases hempty : x.s.size = 0
  · -- the results set is empty: everything is copied, and there is nothing to miss
    have hzero : nondominated Row.Dominates m = 0 := by
      rw [← hx.rows, List.length_eq_zero_iff.mp ((TData.length_rows x.s).trans hempty)]
      rfl
    rw [addComputeSet, if_pos hempty, nondominated_eq_zero.mp hzero, zero_add]
    refine ⟨fun _ p hp => absurd hp (Multiset.notMem_zero p), fun _ => hB⟩
  · have hzip : B.s.rows.zip B.domFactors
        = B.s.rows.map fun p => (p, best Row.dominance m' p) := by
      rw [hB.domFactors]
      simpa using List.zip_map' (f := id) (g := best Row.dominance m') (l := B.s.rows)
    rw [addComputeSet, if_neg hempty, hzip]
    refine exact_foldl_iff hx ?_ fun e he => ?_
    · rw [List.map_map, ← hB.rows]
      exact congrArg _ (List.map_id _)
    · obtain ⟨p, -, rfl⟩ := List.mem_map.mp he
      rfl

/-- All the results sets met on the way are exact. -/
def ExactAlong : Build (Row α (k + 2)) → Prop
  | .empty => True
  | .addTuple b t => ExactAlong b ∧ ((b.addTuple t).eval (TopdSet α k)).Exact (b.addTuple t).tuples
  | .addSet b b' => ExactAlong b ∧ ExactAlong b' ∧
      ((b.addSet b').eval (TopdSet α k)).Exact (b.addSet b').tuples

/-- Nothing is missed in any step on the way. -/
def VisibleAlong : Build (Row α (k + 2)) → Prop
  | .empty => True
  | .addTuple b t => VisibleAlong b ∧ Visible b.tuples {t}
  | .addSet b b' => VisibleAlong b ∧ VisibleAlong b' ∧ Visible b.tuples b'.tuples

/-- The empty set is exact. -/
theorem exact_empty : (PrefQuery.new : TopdSet α k).Exact 0 := ⟨rfl, rfl⟩

/-- The last results set of an exact build is exact. -/
theorem ExactAlong.exact {b : Build (Row α (k + 2))} (h : ExactAlong b) :
    (b.eval (TopdSet α k)).Exact b.tuples := by
  cases b with
  | empty => exact exact_empty
  | addTuple b t => exact h.2
  | addSet b b' => exact h.2.2

/-- **When the results sets of a build are exact**: if and only if nothing is missed in any step. -/
theorem exactAlong_iff (b : Build (Row α (k + 2))) : ExactAlong b ↔ VisibleAlong b := by
  induction b with
  | empty => exact Iff.rfl
  | addTuple b t ih =>
      rw [ExactAlong, VisibleAlong, ← ih]
      exact and_congr_right fun h => exact_addComputeTuple_iff h.exact t
  | addSet b b' ih ih' =>
      rw [ExactAlong, VisibleAlong, ← ih, ← ih']
      exact and_congr_right fun h => and_congr_right fun h' =>
        exact_addComputeSet_iff h.exact h'.exact

/-- The second point is at most as great in both dimensions and less in the first one, but the first
point stays. -/
theorem exact_fails : ¬ ∀ b : Build (Row ℤ 2), (b.eval (TopdSet ℤ 0)).Exact b.tuples := by
  intro h
  have hrows := (h ((Build.empty.addTuple ⟨![5, 1], 0, 0⟩).addTuple ⟨![3, 1], 0, 0⟩)).rows
  exact absurd (congrArg Multiset.card hrows) (by decide)

end TopdSet

end ElasticPPQ
