import ElasticPPQ.Lib.Resize
import ElasticPPQ.Query.Dominance
import ElasticPPQ.Query.TData
import Mathlib.Algebra.BigOperators.Fin
import Mathlib.Algebra.Order.BigOperators.Group.Finset

/-! # Skyline queries

The class `SkySet` (`queries.hpp`). A tuple is compared with the stored ones column by column; the
dominated ones are shifted to the end of the container and cut off. When two results sets are merged
the tuples of the second one are only compared with those that the first one had before
(`endpoint`). The number of dimensions is `DIM = k + 2`, so that there is a first and a last one.

However a results set is built, it contains the tuples that no tuple fed to it dominates. -/

namespace ElasticPPQ

variable {α : Type} [LinearOrder α] {k : Nat}

/-- The results set of a skyline query. -/
structure SkySet (α : Type) (k : Nat) where
  /-- The container. -/
  s : TData α (k + 2)

namespace SkySet

/-- The values of one dimension: `(x > y) - (DIM + 1) * (x < y)`. -/
def compare (DIM : Nat) (x y : α) : Int :=
  (if y < x then 1 else 0) - (DIM + 1) * (if x < y then 1 else 0)

/-- An entry of the arrays after the loops over the dimensions: the first one, those from `1` to
`DIM - 2`, and the last one. -/
def accumulate (f : Fin (k + 2) → Int) : Int :=
  (List.finRange k).foldl (fun x d => x + f d.succ.castSucc) (f 0) + f (Fin.last (k + 1))

/-- The entry of `Tdom` for the stored tuple `p`: it is dominated by `t` if the entry is at least
`1`. -/
def Tdom (t p : Row α (k + 2)) : Int := accumulate fun d => compare (k + 2) (p.d d) (t.d d)

/-- The entry of `domT` for the stored tuple `p`: it dominates `t` if the entry is at least `1`. The
last assignment, `domT[i] += domT[i] += e`, adds the entry to itself. -/
def domT (t p : Row α (k + 2)) : Int :=
  let x := accumulate fun d => compare (k + 2) (t.d d) (p.d d)
  x + x

/-- The scan that shifts the dominated tuples to the end of the container, with `n` tuples left to
examine, from index `i` to `endpoint = i + n - 1`; `len` is `pos + 1`. Returned are `endpoint + 1`,
`pos + 1` and the container. The entries of `domT` move along in the source, but are not read any
more. -/
def shift : (n i len : Nat) → List Int → TData α (k + 2) → Nat × Nat × TData α (k + 2)
  | 0, i, len, _, s => (i, len, s)
  | n + 1, i, len, Tdom, s =>
      if 1 ≤ Tdom.getD i 0 then
        -- the tuple at `endpoint` is copied to `i`, and the one at `pos` to `endpoint`
        shift n i (len - 1) (Tdom.set i (Tdom.getD (i + n) 0))
          ((s.copyRow i (i + n)).copyRow (i + n) (len - 1))
      else shift n (i + 1) len Tdom s

/-- `updateSkyline`: whether the point is dominated, then `endpoint + 1`, `pos + 1` and the
container; `ends` is `endpoint + 1` at the call. -/
def updateSkyline (t : Row α (k + 2)) (ends : Nat) (s : TData α (k + 2)) :
    Bool × Nat × Nat × TData α (k + 2) :=
  let stored := s.rows.take ends
  ((stored.map (domT t)).any fun x => decide (1 ≤ x), shift ends 0 s.size (stored.map (Tdom t)) s)

/-- What both methods do with one tuple: `updateSkyline`, then the dominated points are removed and
the new one, if it is not dominated, is appended. -/
def update (t : Row α (k + 2)) (ends : Nat) (s : TData α (k + 2)) : Nat × TData α (k + 2) :=
  let (isDominated, ends, len, s) := updateSkyline t ends s
  -- the dominated tuples are at the end
  let s := if len < s.size then s.removeFromIndex len else s
  (ends, if len = s.size ∧ isDominated = false then s.append t else s)

/-- `addComputeTuple`. -/
def addComputeTuple (x : SkySet α k) (t : Row α (k + 2)) : SkySet α k :=
  ⟨(update t x.s.size x.s).2⟩

/-- `addComputeSet`. -/
def addComputeSet (x B : SkySet α k) : SkySet α k :=
  if x.s.size = 0 then ⟨B.s⟩
  else ⟨(B.s.rows.foldl (fun (y : Nat × TData α (k + 2)) t => update t y.1 y.2)
    (x.s.size, x.s)).2⟩

instance prefQuery : PrefQuery (Row α (k + 2)) (SkySet α k) where
  new := ⟨TData.new α (k + 2)⟩
  addComputeTuple := addComputeTuple
  addComputeSet := addComputeSet

/-! ## The counting encoding of dominance -/

/-- The unrolled loop over the dimensions is a sum. -/
theorem accumulate_eq_sum (f : Fin (k + 2) → Int) : accumulate f = ∑ d, f d := by
  have hfold : ∀ (l : List (Fin k)) (x : Int),
      l.foldl (fun x d => x + f d.succ.castSucc) x
        = x + (l.map fun d => f d.succ.castSucc).sum := by
    intro l
    induction l with
    | nil => intro x; simp
    | cons d l ih => intro x; rw [List.foldl_cons, ih, List.map_cons, List.sum_cons, add_assoc]
  rw [accumulate, hfold, Fin.sum_univ_castSucc, Fin.sum_univ_succ,
    Fin.sum_univ_def fun d : Fin k => f d.succ.castSucc]
  rfl

/-- **A positive entry is dominance.** One dimension in which `x` is less outweighs all the others. -/
theorem one_le_accumulate_iff (x y : Fin (k + 2) → α) :
    1 ≤ accumulate (fun d => compare (k + 2) (x d) (y d)) ↔
      (∀ d, y d ≤ x d) ∧ ∃ d, y d < x d := by
  rw [accumulate_eq_sum]
  have hle : ∀ d, compare (k + 2) (x d) (y d) ≤ 1 := by
    intro d
    unfold compare
    split <;> split <;> omega
  have hnonneg : ∀ d, y d ≤ x d → 0 ≤ compare (k + 2) (x d) (y d) := by
    intro d hd
    unfold compare
    rw [if_neg (not_lt.mpr hd)]
    split <;> omega
  constructor
  -- one greater coordinate costs more than all the others can gain
  · intro hsum
    have hall : ∀ d, y d ≤ x d := by
      intro d
      by_contra hd
      have hd := not_le.mp hd
      have hneg : compare (k + 2) (x d) (y d) = -((k : Int) + 3) := by
        unfold compare
        rw [if_neg (not_lt.mpr hd.le), if_pos hd]
        push_cast
        ring
      have hrest : ∑ e ∈ Finset.univ.erase d, compare (k + 2) (x e) (y e) ≤ (k + 1 : Nat) := by
        refine (Finset.sum_le_card_nsmul _ _ 1 fun e _ => hle e).trans ?_
        rw [Finset.card_erase_of_mem (Finset.mem_univ d), Finset.card_univ, Fintype.card_fin]
        simp
      rw [← Finset.add_sum_erase _ _ (Finset.mem_univ d), hneg] at hsum
      push_cast at hrest
      omega
    refine ⟨hall, ?_⟩
    by_contra hnone
    push Not at hnone
    -- without a smaller coordinate all the terms are zero
    have hzero : ∑ d, compare (k + 2) (x d) (y d) = 0 := by
      refine Finset.sum_eq_zero fun d _ => ?_
      unfold compare
      rw [if_neg (not_lt.mpr (hnone d)), if_neg (not_lt.mpr (hall d))]
      ring
    omega
  -- no term is negative, and the one of the smaller coordinate is positive
  · rintro ⟨hall, d, hd⟩
    have hone : 1 ≤ compare (k + 2) (x d) (y d) := by
      unfold compare
      rw [if_pos hd, if_neg (not_lt.mpr hd.le)]
      omega
    exact hone.trans (Finset.single_le_sum (fun e _ => hnonneg e (hall e)) (Finset.mem_univ d))

/-- The first counter is positive where the new tuple dominates. -/
theorem one_le_Tdom_iff (t p : Row α (k + 2)) : 1 ≤ Tdom t p ↔ t.Dominates p :=
  one_le_accumulate_iff p.d t.d

/-- The second counter is positive where the new tuple is dominated. -/
theorem one_le_domT_iff (t p : Row α (k + 2)) : 1 ≤ domT t p ↔ p.Dominates t := by
  refine Iff.trans ?_ (one_le_accumulate_iff t.d p.d)
  show 1 ≤ (_ : Int) + _ ↔ _
  omega

/-! ## The scan -/

/-- What the scan leaves of a container whose tuples are `A` (kept so far), `O` (to be examined), `W`
(not to be examined) and others already shifted out, where `P` says which ones are dominated. -/
structure Shifted (P : Row α (k + 2) → Prop) [DecidablePred P] (A O W : List (Row α (k + 2)))
    (r : Nat × Nat × TData α (k + 2)) (A' W' J' : List (Row α (k + 2))) : Prop where
  rows : r.2.2.rows = A' ++ W' ++ J'
  ends : r.1 = A'.length
  len : r.2.1 = A'.length + W'.length
  kept : A'.Perm (A ++ O.filter fun p => ¬ P p)
  rest : W'.Perm W

omit [LinearOrder α] in
/-- The first copy of a step: the last tuple to be examined takes the place of the first one, and its
entry in the array that of the first one. -/
theorem copyRow_examined (P : Row α (k + 2) → Prop) {Tdom : List Int} {s : TData α (k + 2)}
    {A O B : List (Row α (k + 2))} {o : Row α (k + 2)} (h : s.rows = A ++ o :: (O ++ B))
    (hT : A.length < Tdom.length)
    (hP : ∀ j (hj : j < (o :: O).length), 1 ≤ Tdom.getD (A.length + j) 0 ↔ P (o :: O)[j]) :
    ∃ O' e, O'.Perm O ∧
      (s.copyRow A.length (A.length + O.length)).rows = A ++ O' ++ e :: B ∧
      ∀ j (hj : j < O'.length), 1 ≤ (Tdom.set A.length (Tdom.getD (A.length + O.length) 0)).getD
        (A.length + j) 0 ↔ P O'[j] := by
  -- the removed row is the last of those to examine, or that one takes its place
  rcases List.eq_nil_or_concat O with rfl | ⟨D, e, rfl⟩
  · refine ⟨[], o, List.Perm.refl _, ?_, fun j hj => absurd hj (Nat.not_lt_zero j)⟩
    show (s.copyRow A.length A.length).rows = _
    rw [TData.rows_copyRow_of_eq h h, List.append_nil]
    rfl
  · rw [List.concat_eq_append] at h hP ⊢
    refine ⟨e :: D, e, (List.perm_append_singleton e D).symm, ?_, fun j hj => ?_⟩
    · have he : s.rows = (A ++ o :: D) ++ e :: B := by rw [h]; simp
      have hcopy := TData.rows_copyRow_of_eq h he
      have hlen : (A ++ o :: D).length = A.length + (D ++ [e]).length := by simp
      rw [hlen] at hcopy
      rw [hcopy]
      simp
    · rw [getD_set_of_lt hT]
      -- the row moved brings its counter along
      cases j with
      | zero =>
          have := hP (D.length + 1) (by simp)
          simpa using this
      | succ j =>
          have hjD : j < D.length := by simpa using hj
          have := hP (j + 1) (by simp; omega)
          rw [if_neg (by omega)]
          simpa [List.getElem_append, hjD] using this

omit [LinearOrder α] in
/-- **The scan keeps the tuples that are not dominated, and those it does not examine.** -/
theorem shift_spec (P : Row α (k + 2) → Prop) [DecidablePred P] {n i len : Nat} {Tdom : List Int}
    {s : TData α (k + 2)} {A O W J : List (Row α (k + 2))} (h : s.rows = A ++ O ++ W ++ J)
    (hi : A.length = i) (hn : O.length = n) (hlen : len = i + n + W.length)
    (hT : i + n ≤ Tdom.length) (hP : ∀ j (hj : j < O.length), 1 ≤ Tdom.getD (i + j) 0 ↔ P O[j]) :
    ∃ A' W' J', Shifted P A O W (shift n i len Tdom s) A' W' J' := by
  induction n generalizing i len Tdom s A O W J with
  | zero =>
      obtain rfl := List.length_eq_zero_iff.mp hn
      rw [List.append_nil] at h
      refine ⟨A, W, J, h, hi.symm, by rw [hlen, hi]; rfl, ?_, List.Perm.refl _⟩
      rw [List.filter_nil, List.append_nil]
  | succ n ih =>
      obtain ⟨o, O, rfl⟩ := List.exists_cons_of_length_eq_add_one hn
      rw [List.length_cons, Nat.add_right_cancel_iff] at hn
      have ho := hP 0 (Nat.succ_pos _)
      rw [Nat.add_zero, List.getElem_cons_zero] at ho
      by_cases hdom : P o
      · -- the tuple is dominated: `O'` are those left to examine after the first copy
        rw [shift, if_pos (ho.mpr hdom)]
        have hfilter : (o :: O).filter (fun p => ¬ P p) = O.filter fun p => ¬ P p :=
          List.filter_cons_of_neg (by simpa using hdom)
        have h' : s.rows = A ++ o :: (O ++ (W ++ J)) := by rw [h]; simp
        subst hi hn
        obtain ⟨O', e, hO', hfirst, hP'⟩ := copyRow_examined P h' (by omega) hP
        obtain ⟨W', J', hW', hsecond⟩ := TData.rows_copyLast hfirst
        have hpos : len - 1 = (A ++ O').length + W.length := by
          rw [List.length_append, hO'.length_eq]
          omega
        have hends : A.length + O.length = (A ++ O').length := by
          rw [List.length_append, hO'.length_eq]
        have hlen' : (A ++ O').length + W.length = A.length + O.length + W'.length := by
          rw [hends, hW'.length_eq]
        have hT' : A.length + O.length
            ≤ (Tdom.set A.length (Tdom.getD (A.length + O.length) 0)).length := by
          rw [List.length_set]
          omega
        rw [← hends] at hsecond
        rw [hpos, ← hends]
        rw [← hends] at hlen'
        obtain ⟨A'', W'', J'', hsh⟩ := ih hsecond rfl hO'.length_eq hlen' hT' hP'
        refine ⟨A'', W'', J'', hsh.rows, hsh.ends, hsh.len, ?_, hsh.rest.trans hW'⟩
        rw [hfilter]
        exact hsh.kept.trans ((hO'.filter _).append_left A)
      · -- the tuple is kept
        rw [shift, if_neg fun hle => hdom (ho.mp hle)]
        have hfilter : (o :: O).filter (fun p => ¬ P p) = o :: O.filter fun p => ¬ P p :=
          List.filter_cons_of_pos (by simpa using hdom)
        have hP' : ∀ j (hj : j < O.length), 1 ≤ Tdom.getD (i + 1 + j) 0 ↔ P O[j] := by
          intro j hj
          have := hP (j + 1) (Nat.succ_lt_succ hj)
          rwa [List.getElem_cons_succ, ← Nat.add_assoc, Nat.add_right_comm] at this
        have hlen' : len = i + 1 + n + W.length := by omega
        have hT' : i + 1 + n ≤ Tdom.length := by omega
        obtain ⟨A', W', J', hsh⟩ := ih (by rw [h, List.append_cons A]) (by simp [hi]) hn hlen' hT' hP'
        refine ⟨A', W', J', hsh.rows, hsh.ends, hsh.len, ?_, hsh.rest⟩
        rw [hfilter, List.append_cons]
        exact hsh.kept

/-! ## The methods -/

/-- The flag of `updateSkyline`. -/
theorem any_domT_iff (t : Row α (k + 2)) (O : List (Row α (k + 2))) :
    ((O.map (domT t)).any fun x => decide (1 ≤ x)) = true ↔ ∃ p ∈ O, p.Dominates t := by
  simp [one_le_domT_iff]

/-- **`updateSkyline`** shifts the tuples of `O` that `t` dominates to the end of the container, and
tells whether one of `O` dominates `t`. -/
theorem updateSkyline_spec (t : Row α (k + 2)) {s : TData α (k + 2)} {O W : List (Row α (k + 2))}
    (h : s.rows = O ++ W) :
    ∃ O' W' J',
      Shifted (fun p => t.Dominates p) [] O W (updateSkyline t O.length s).2 O' W' J' ∧
      ((updateSkyline t O.length s).1 = true ↔ ∃ p ∈ O, p.Dominates t) := by
  have hstored : s.rows.take O.length = O := by rw [h, List.take_left]
  have hsize : s.size = 0 + O.length + W.length := by
    rw [← TData.length_rows, h, List.length_append, Nat.zero_add]
  have hP : ∀ j (hj : j < O.length),
      1 ≤ (O.map (Tdom t)).getD (0 + j) 0 ↔ t.Dominates O[j] := by
    intro j hj
    rw [Nat.zero_add, List.getD_eq_getElem _ _ (by rwa [List.length_map]), List.getElem_map,
      one_le_Tdom_iff]
  have hT : 0 + O.length ≤ (O.map (Tdom t)).length := by rw [List.length_map, Nat.zero_add]
  -- the `while` loop over the stored rows, with nothing examined and nothing removed yet
  obtain ⟨O', W', J', hsh⟩ := shift_spec (fun p => t.Dominates p) (A := []) (J := [])
    (by rw [h, List.nil_append, List.append_nil]) rfl rfl hsize hT hP
  rw [List.length_nil] at hsh
  refine ⟨O', W', J', ?_, ?_⟩
  · simpa only [updateSkyline, hstored] using hsh
  · simpa only [updateSkyline, hstored] using any_domT_iff t O

/-- **One tuple.** Of the tuples `O` that it is compared with those that it dominates are removed; it
is added, if none of them dominates it, to the other ones. -/
theorem update_spec (t : Row α (k + 2)) {s : TData α (k + 2)} {O W : List (Row α (k + 2))}
    (h : s.rows = O ++ W) :
    ∃ O' W', (update t O.length s).2.rows = O' ++ W' ∧ (update t O.length s).1 = O'.length ∧
      O'.Perm (O.filter fun p => ¬ t.Dominates p) ∧
      W'.Perm (W ++ if ∃ p ∈ O, p.Dominates t then [] else [t]) := by
  obtain ⟨O', W', J', hsh, hflag⟩ := updateSkyline_spec t h
  obtain ⟨isDominated, r, hr⟩ : ∃ f r, updateSkyline t O.length s = (f, r) := ⟨_, _, rfl⟩
  rw [hr] at hsh hflag
  dsimp only at hsh hflag
  -- the dominated tuples are cut off
  obtain ⟨s', hs'⟩ : ∃ s', s' = if r.2.1 < r.2.2.size then r.2.2.removeFromIndex r.2.1 else r.2.2 :=
    ⟨_, rfl⟩
  have hrows : s'.rows = O' ++ W' := by
    have hlen : (O' ++ W').length = r.2.1 := by rw [hsh.len, List.length_append]
    rw [hs']
    split
    · rw [TData.rows_removeFromIndex, hsh.rows, ← hlen, List.take_left]
    · rename_i hge
      have hall := congrArg List.length hsh.rows
      rw [TData.length_rows, List.length_append, hlen] at hall
      obtain rfl := List.length_eq_zero_iff.mp (by omega : J'.length = 0)
      rw [hsh.rows, List.append_nil]
  have hfull : r.2.1 = s'.size := by
    rw [← TData.length_rows, hrows, List.length_append, hsh.len]
  have hupdate : update t O.length s =
      (r.1, if r.2.1 = s'.size ∧ isDominated = false then s'.append t else s') := by
    rw [hs']
    simp only [update, hr]
  rw [hupdate]
  by_cases hdom : ∃ p ∈ O, p.Dominates t
  · refine ⟨O', W', ?_, hsh.ends, hsh.kept, ?_⟩
    · rw [if_neg fun hc => absurd (hflag.mpr hdom) (by simp [hc.2])]
      exact hrows
    · rw [if_pos hdom, List.append_nil]
      exact hsh.rest
  · refine ⟨O', W' ++ [t], ?_, hsh.ends, hsh.kept, ?_⟩
    · rw [if_pos ⟨hfull, Bool.eq_false_iff.mpr fun hany => hdom (hflag.mp hany)⟩,
        TData.rows_append, hrows, List.append_assoc]
    · rw [if_neg hdom]
      exact hsh.rest.append_right [t]

/-- **A list of tuples that do not dominate each other**, added one by one. A tuple removed on the
way is not missed as a dominator: what it dominates, its own dominator dominates. -/
theorem foldl_update_spec {s : TData α (k + 2)} {ts O W : List (Row α (k + 2))}
    (h : s.rows = O ++ W) (hts : ∀ t ∈ ts, ∀ u ∈ ts, ¬ t.Dominates u) :
    ∃ O' W', (ts.foldl (fun (y : Nat × TData α (k + 2)) t => update t y.1 y.2)
        (O.length, s)).2.rows = O' ++ W' ∧
      O'.Perm (O.filter fun p => ∀ t ∈ ts, ¬ t.Dominates p) ∧
      W'.Perm (W ++ ts.filter fun t => ∀ p ∈ O, ¬ p.Dominates t) := by
  induction ts generalizing s O W with
  | nil =>
      refine ⟨O, W, h, ?_, ?_⟩
      · rw [List.filter_eq_self.mpr fun p _ => by simp]
      · rw [List.filter_nil, List.append_nil]
  | cons t ts ih =>
      obtain ⟨O₁, W₁, hrows, hends, hO, hW⟩ := update_spec t h
      obtain ⟨O', W', hrows', hO', hW'⟩ := ih hrows
        fun u hu v hv => hts u (List.mem_cons_of_mem _ hu) v (List.mem_cons_of_mem _ hv)
      refine ⟨O', W', ?_, hO'.trans ?_, hW'.trans ?_⟩
      · rw [List.foldl_cons, ← hrows', ← hends]
      · refine (hO.filter _).trans ?_
        rw [List.filter_filter]
        refine List.Perm.of_eq (List.filter_congr fun p _ => ?_)
        simp [Bool.and_comm]
      · -- a tuple of the list that is compared with fewer stored ones fares the same
        have hsame : ∀ u ∈ ts, (∀ p ∈ O₁, ¬ p.Dominates u) ↔ ∀ p ∈ O, ¬ p.Dominates u := by
          intro u hu
          refine ⟨fun hn p hp hpu => ?_, fun hn p hp => ?_⟩
          · by_cases htp : t.Dominates p
            · exact hts t List.mem_cons_self u (List.mem_cons_of_mem _ hu)
                (IsTrans.trans _ _ _ htp hpu)
            · exact hn p (hO.mem_iff.mpr (List.mem_filter.mpr ⟨hp, by simpa using htp⟩)) hpu
          · exact hn p (List.mem_filter.mp (hO.mem_iff.mp hp)).1
        have hfilter : ts.filter (fun u => ∀ p ∈ O₁, ¬ p.Dominates u)
            = ts.filter fun u => ∀ p ∈ O, ¬ p.Dominates u := by
          refine List.filter_congr fun u hu => ?_
          rw [decide_eq_decide]
          exact hsame u hu
        rw [hfilter]
        refine (hW.append_right _).trans ?_
        rw [List.append_assoc]
        refine List.Perm.append_left W (List.Perm.of_eq ?_)
        by_cases hdom : ∃ p ∈ O, p.Dominates t
        · rw [if_pos hdom, List.nil_append, List.filter_cons_of_neg]
          simpa using hdom
        · rw [if_neg hdom, List.filter_cons_of_pos]
          · rfl
          · push Not at hdom
            simpa using hdom

/-! ## Independence of the way a results set is built -/

open Pareto

/-- The tuples of a results set. -/
def toMultiset (x : SkySet α k) : Multiset (Row α (k + 2)) := x.s.rows

/-- A tuple is added to a skyline. -/
theorem toMultiset_addComputeTuple {x : SkySet α k} {m : Multiset (Row α (k + 2))}
    (hx : x.toMultiset = nondominated Row.Dominates m) (t : Row α (k + 2)) :
    (x.addComputeTuple t).toMultiset = nondominated Row.Dominates (m + {t}) := by
  -- the stored rows without those dominated, and the new tuple unless it is dominated
  obtain ⟨O', W', hrows, -, hO, hW⟩ := update_spec t (s := x.s) (O := x.s.rows) (W := [])
    (List.append_nil _).symm
  rw [TData.length_rows] at hrows
  have hmul : (x.addComputeTuple t).toMultiset = (O' : Multiset (Row α (k + 2))) + ↑W' := by
    show ((update t x.s.size x.s).2.rows : Multiset (Row α (k + 2))) = _
    rw [hrows, Multiset.coe_add]
  rw [hmul, nondominated_add, nondominated_singleton, ← hx, Multiset.coe_eq_coe.mpr hO,
    Multiset.coe_eq_coe.mpr hW, List.nil_append]
  congr 1
  · show _ = Multiset.filter _ (x.s.rows : Multiset (Row α (k + 2)))
    rw [Multiset.filter_coe]
    simp
  · by_cases hdom : ∃ p ∈ x.s.rows, p.Dominates t
    · rw [if_pos hdom, Multiset.filter_singleton, if_neg]
      · rfl
      · push Not
        exact hdom
    · rw [if_neg hdom, Multiset.filter_singleton, if_pos]
      · rfl
      · push Not at hdom
        exact hdom

/-- Two skylines are merged. -/
theorem toMultiset_addComputeSet {x B : SkySet α k} {m m' : Multiset (Row α (k + 2))}
    (hx : x.toMultiset = nondominated Row.Dominates m)
    (hB : B.toMultiset = nondominated Row.Dominates m') :
    (x.addComputeSet B).toMultiset = nondominated Row.Dominates (m + m') := by
  by_cases hempty : x.s.size = 0
  · -- the results set is empty: everything is copied
    have hzero : x.toMultiset = 0 := by
      rw [toMultiset, List.length_eq_zero_iff.mp ((TData.length_rows x.s).trans hempty)]
      rfl
    have hm : m = 0 := nondominated_eq_zero.mp (hx.symm.trans hzero)
    rw [addComputeSet, if_pos hempty, hm, zero_add]
    exact hB
  · have hanti : ∀ t ∈ B.s.rows, ∀ u ∈ B.s.rows, ¬ t.Dominates u := by
      intro t ht u hu
      have hmem : ∀ {r}, r ∈ B.s.rows → r ∈ nondominated Row.Dominates m' := by
        intro r hr
        rw [← hB]
        exact hr
      exact not_dom_of_mem (hmem hu) (hmem ht)
    obtain ⟨O', W', hrows, hO, hW⟩ := foldl_update_spec (s := x.s) (O := x.s.rows) (W := [])
      (List.append_nil _).symm hanti
    rw [TData.length_rows] at hrows
    have hmul : (x.addComputeSet B).toMultiset = (O' : Multiset (Row α (k + 2))) + ↑W' := by
      rw [addComputeSet, if_neg hempty, toMultiset, hrows, Multiset.coe_add]
    rw [hmul, nondominated_add, ← hx, ← hB, Multiset.coe_eq_coe.mpr hO, Multiset.coe_eq_coe.mpr hW,
      List.nil_append]
    simp only [toMultiset, Multiset.mem_coe, Multiset.filter_coe]

/-- **A results set contains the tuples that no tuple fed to it dominates**, however it is built. -/
theorem toMultiset_eval (b : Build (Row α (k + 2))) :
    (b.eval (SkySet α k)).toMultiset = nondominated Row.Dominates b.tuples := by
  induction b with
  | empty => rfl
  | addTuple b t ih => exact toMultiset_addComputeTuple ih t
  | addSet b b' ih ih' => exact toMultiset_addComputeSet ih ih'

/-- **Split/merge independence of skylines.** The tuples `ts` are distributed into blocks in any way and
order; each block is fed to a results set of its own, and the results sets are merged along any tree.
The outcome holds the tuples of `ts` that no tuple of `ts` dominates, equal ones all kept. -/
theorem split_merge (ts : List (Row α (k + 2))) (b : Build (Row α (k + 2)))
    (hb : b.tuples = (ts : Multiset (Row α (k + 2)))) :
    ((b.eval (SkySet α k)).s.rows : Multiset (Row α (k + 2))) =
      (ts : Multiset (Row α (k + 2))).filter fun p => ∀ q ∈ ts, ¬ q.Dominates p := by
  have h := toMultiset_eval b
  rw [hb] at h
  simpa only [toMultiset, nondominated, Multiset.mem_coe] using h

/-- A tuple on two dimensions, for runs on fixed inputs. -/
def point (x y : ℤ) : Row ℤ 2 := ⟨![x, y], 0, 0⟩

/-- Two blocks with a point in common are merged into a fresh results set. -/
theorem split_merge_witness :
    (((Build.addSet (.addSet .empty (.block [point 1 3, point 3 1, point 4 4]))
        (.block [point 3 3, point 1 3])).eval (SkySet ℤ 0)).s.rows : Multiset (Row ℤ 2)) =
      ([point 1 3, point 3 1, point 4 4, point 3 3, point 1 3] : Multiset (Row ℤ 2)).filter
        fun p => ∀ q ∈ [point 1 3, point 3 1, point 4 4, point 3 3, point 1 3],
          ¬ q.Dominates p :=
  split_merge _ _ rfl

end SkySet

end ElasticPPQ
