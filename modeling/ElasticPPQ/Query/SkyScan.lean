import ElasticPPQ.Lib.Checked
import ElasticPPQ.Lib.Loops
import ElasticPPQ.Query.SkySet

/-! # The loops of `updateSkyline`

`SkySet.updateSkyline` says by rows what the method does. Here are its loops (`queries.hpp`): the
columns are read and written one value at a time, the two arrays of counters keep whatever is in
memory until the loop over the first dimension, and every index is checked. The loops never go wrong
and end, and what they compute is `SkySet.updateSkyline`; so the container is partitioned in place,
and no column is moved without the others. -/

namespace ElasticPPQ

variable {α : Type} {k DIM : Nat}

/-- The members of `TData`, the columns being of any number and lengths. -/
structure Columns (α : Type) where
  /-- Index of the last valid tuple. -/
  lastIdx : Int
  /-- The columns. -/
  vDim : List (List α)

/-- The columns of a container. -/
def TData.columns (s : TData α DIM) : Columns α := ⟨s.lastIdx, List.ofFn s.vDim⟩

/-- The local variables of the first loops. -/
structure Counters where
  /-- `Tdom[i] ≥ 1` if the `i`th tuple is dominated. -/
  Tdom : List Int
  /-- `domT[i] ≥ 1` if the `i`th tuple dominates. -/
  domT : List Int
  /-- Whether some tuple dominates. -/
  isDominated : Bool

namespace Columns

/-! ## The accesses to the columns -/

/-- `v_dim[d][i]`, read. -/
def cell (s : Columns α) (d : Nat) (i : Int) : Option α := do
  let col ← readAt s.vDim d
  readAt col i

/-- `v_dim[d][i] = v_dim[d][j]`. -/
def copyCell (i j : Int) (d : Nat) (s : Columns α) : Option (Columns α) := do
  let col ← readAt s.vDim d
  let x ← readAt col j
  let col ← writeAt col i x
  let vDim ← writeAt s.vDim d col
  some { s with vDim := vDim }

/-- The loop that copies the tuple in position `j` in the position `i`. -/
def copyRow (DIM : Nat) (i j : Int) (s : Columns α) : Option (Columns α) :=
  forUpTo (DIM + 2) (copyCell i j) s

/-! ## The loops over the dimensions -/

variable [LinearOrder α]

/-- The values that dimension `d` contributes to `Tdom[i]` and `domT[i]`. -/
def terms (t : Row α DIM) (s : Columns α) (d i : Nat) : Option (Int × Int) := do
  let x ← s.cell d i
  let y ← if h : d < DIM then some (t.d ⟨d, h⟩) else none
  some (SkySet.compare DIM x y, SkySet.compare DIM y x)

/-- The body of the loop over the tuples for the first dimension. -/
def firstDim (t : Row α DIM) (s : Columns α) (d i : Nat) (c : Counters) : Option Counters := do
  let (a, b) ← s.terms t d i
  let Tdom ← writeAt c.Tdom i a
  let domT ← writeAt c.domT i b
  some { c with Tdom := Tdom, domT := domT }

/-- The body for the dimensions from `1` to `DIM - 2`. -/
def nextDim (t : Row α DIM) (s : Columns α) (d i : Nat) (c : Counters) : Option Counters := do
  let (a, b) ← s.terms t d i
  let x ← readAt c.Tdom i
  let Tdom ← writeAt c.Tdom i (x + a)
  let y ← readAt c.domT i
  let domT ← writeAt c.domT i (y + b)
  some { c with Tdom := Tdom, domT := domT }

/-- The body for the last dimension. The right operand of `domT[i] += domT[i] += b` comes first. -/
def lastDim (t : Row α DIM) (s : Columns α) (d i : Nat) (c : Counters) : Option Counters := do
  let (a, b) ← s.terms t d i
  let x ← readAt c.Tdom i
  let Tdom ← writeAt c.Tdom i (x + a)
  let y ← readAt c.domT i
  let domT ← writeAt c.domT i (y + b)
  let z ← readAt domT i
  let domT ← writeAt domT i (z + z)
  let r ← readAt domT i
  some ⟨Tdom, domT, c.isDominated || decide (1 ≤ r)⟩

/-- The loops over the dimensions; `ends` is `endpoint + 1`. -/
def count (t : Row α DIM) (ends : Nat) (s : Columns α) (c : Counters) : Option Counters := do
  let c ← forUpTo ends (s.firstDim t 0) c
  let c ← forUpTo (DIM - 2) (fun e => forUpTo ends (s.nextDim t (e + 1))) c
  -- the counter of the second loop has ended at `DIM - 1`
  forUpTo ends (s.lastDim t (DIM - 1)) c

end Columns

/-! ## The scan -/

/-- The variables of the scan. -/
structure Scan (α : Type) where
  /-- Index of the tuple to examine. -/
  i : Int
  /-- Index of the last tuple that is not shifted out. -/
  pos : Int
  /-- Index of the last tuple to examine. -/
  endpoint : Int
  /-- The counters of the dominated tuples. -/
  Tdom : List Int
  /-- The counters of the dominating tuples. -/
  domT : List Int
  /-- The container. -/
  s : Columns α

namespace Scan

/-- `while(i <= endpoint)`. -/
def cond (x : Scan α) : Bool := decide (x.i ≤ x.endpoint)

/-- The body of the scan. -/
def body (DIM : Nat) (x : Scan α) : Option (Scan α) := do
  let dominated ← readAt x.Tdom x.i
  if 1 ≤ dominated then
    let s ← x.s.copyRow DIM x.i x.endpoint
    let a ← readAt x.Tdom x.endpoint
    let Tdom ← writeAt x.Tdom x.i a
    let b ← readAt x.domT x.endpoint
    let domT ← writeAt x.domT x.i b
    let s ← s.copyRow DIM x.endpoint x.pos
    some { x with
      pos := x.pos - 1, endpoint := x.endpoint - 1, Tdom := Tdom, domT := domT, s := s }
  else some { x with i := x.i + 1 }

end Scan

/-- `updateSkyline`, the scan being run for `fuel` iterations at most: `isDominated`, `pos`,
`endpoint` and the container. The arrays start with the values `Tdom` and `domT`. -/
def Columns.updateSkyline [LinearOrder α] (t : Row α DIM) (endpoint : Int) (Tdom domT : List Int)
    (fuel : Nat) (s : Columns α) : Outcome (Bool × Int × Int × Columns α) :=
  .after (s.count t (endpoint + 1).toNat ⟨Tdom, domT, false⟩) fun c =>
    (runWhile Scan.cond (Scan.body DIM) fuel
      ⟨0, s.lastIdx, endpoint, c.Tdom, c.domT, s⟩).map fun x =>
        (c.isDominated, x.pos, x.endpoint, x.s)

/-! ## The accesses are those to the rows -/

namespace Columns

/-- A value of a tuple is read. -/
theorem cell_columns (s : TData α DIM) {d i : Nat} (hd : d < DIM + 2) (hi : i < s.rows.length) :
    s.columns.cell d i = some ((s.rows[i]).cols ⟨d, hd⟩) := by
  have hcol : readAt s.columns.vDim d = some (s.vDim ⟨d, hd⟩) := by
    rw [TData.columns, readAt_eq (by rwa [List.length_ofFn]), List.getElem_ofFn]
  rw [cell, hcol, Option.bind_eq_bind, Option.bind_some, TData.vDim_eq,
    readAt_eq (by rwa [List.length_map]), List.getElem_map]

/-- A tuple is copied. -/
theorem copyRow_columns (s : TData α DIM) {i j : Nat} (hi : i < s.size) (hj : j < s.size) :
    s.columns.copyRow DIM i j = some (s.copyRow i j).columns := by
  -- After `m` iterations the first `m` columns are those of the outcome.
  obtain ⟨x, hrun, hx⟩ := forUpTo_rule (DIM + 2) (copyCell i j) s.columns
    (fun m x => x = ⟨s.lastIdx, List.ofFn fun c : Fin (DIM + 2) =>
      if c.val < m then (s.copyRow i j).vDim c else s.vDim c⟩)
    (by simp [TData.columns]) (by
      rintro d x hd rfl
      refine ⟨_, ?_, rfl⟩
      have hj' : j < (s.vDim ⟨d, hd⟩).length := by rwa [s.length_vDim]
      have hi' : i < (s.vDim ⟨d, hd⟩).length := by rwa [s.length_vDim]
      have hcopy : (s.copyRow i j).vDim ⟨d, hd⟩
          = (s.vDim ⟨d, hd⟩).set i (s.vDim ⟨d, hd⟩)[j] := by
        show (s.vDim _)[j]?.elim _ _ = _
        rw [List.getElem?_eq_getElem hj']
        rfl
      simp only [copyCell, Option.bind_eq_bind]
      rw [readAt_eq (by rwa [List.length_ofFn]), List.getElem_ofFn, if_neg (Nat.lt_irrefl d),
        Option.bind_some, readAt_eq hj', Option.bind_some, writeAt_eq hi', Option.bind_some,
        writeAt_eq (by rwa [List.length_ofFn]), Option.bind_some, ← hcopy]
      refine congrArg (fun l => some (Columns.mk s.lastIdx l)) ?_
      refine List.ext_getElem (by simp) fun c hc hc' => ?_
      rw [List.getElem_set, List.getElem_ofFn, List.getElem_ofFn]
      by_cases hdc : d = c
      · subst hdc
        rw [if_pos rfl, if_pos (Nat.lt_succ_self d)]
      · rw [if_neg hdc]
        by_cases hlt : c < d
        · rw [if_pos hlt, if_pos (Nat.lt_succ_of_lt hlt)]
        · rw [if_neg hlt, if_neg (show ¬ c < d + 1 by omega)])
  rw [copyRow, hrun, hx]
  refine congrArg (fun l => some (Columns.mk s.lastIdx (List.ofFn l))) (funext fun c => ?_)
  rw [if_pos c.isLt]

/-! ## The counters -/

variable [LinearOrder α]

/-- What dimension `d` contributes to the counter of `x` against `y`. -/
def gain (x y : Row α DIM) (d : Nat) : Int :=
  if h : d < DIM then SkySet.compare DIM (x.d ⟨d, h⟩) (y.d ⟨d, h⟩) else 0

/-- A quantity of the `i`th tuple. -/
def ofRow (rows : List (Row α DIM)) (f : Row α DIM → Int) (i : Nat) : Int := rows[i]?.elim 0 f

omit [LinearOrder α] in
/-- Counters of rows are added for each row. -/
theorem ofRow_add (rows : List (Row α DIM)) (f g : Row α DIM → Int) (i : Nat) :
    ofRow rows f i + ofRow rows g i = ofRow rows (fun p => f p + g p) i := by
  unfold ofRow
  cases rows[i]? <;> rfl

/-- What a column contributes to the two counters of a row. -/
theorem terms_columns (t : Row α DIM) (s : TData α DIM) {d i : Nat} (hd : d < DIM)
    (hi : i < s.size) :
    s.columns.terms t d i = some (ofRow s.rows (fun p => gain p t d) i,
      ofRow s.rows (fun p => gain t p d) i) := by
  have hi' : i < s.rows.length := by rwa [TData.length_rows]
  have hcol : (s.rows[i]).cols ⟨d, by omega⟩ = (s.rows[i]).d ⟨d, hd⟩ :=
    Fin.append_left (s.rows[i]).d _ ⟨d, hd⟩
  simp only [terms, Option.bind_eq_bind]
  rw [cell_columns s (by omega) hi', Option.bind_some, dif_pos hd, Option.bind_some, hcol, ofRow,
    ofRow, List.getElem?_eq_getElem hi', Option.elim_some, Option.elim_some, gain, gain, dif_pos hd,
    dif_pos hd]

end Columns

namespace Counters

/-- Counters given as functions of the index. -/
def ofFns (ends : Nat) (f g : Nat → Int) (b : Bool) : Counters :=
  ⟨(List.range ends).map f, (List.range ends).map g, b⟩

/-- Counters that agree up to the end are the same. -/
theorem ofFns_congr {ends : Nat} {f f' g g' : Nat → Int} (hf : ∀ j < ends, f j = f' j)
    (hg : ∀ j < ends, g j = g' j) (b : Bool) : ofFns ends f g b = ofFns ends f' g' b := by
  rw [ofFns, ofFns, List.map_congr_left fun j hj => hf j (List.mem_range.mp hj),
    List.map_congr_left fun j hj => hg j (List.mem_range.mp hj)]

/-- Any counters are functions of the index. -/
theorem exists_ofFns {ends : Nat} (c : Counters) (hT : c.Tdom.length = ends)
    (hD : c.domT.length = ends) : ∃ f g, c = ofFns ends f g c.isDominated := by
  have hmap : ∀ l : List Int, l.length = ends → l = (List.range ends).map fun j => l.getD j 0 := by
    intro l hl
    refine List.ext_getElem (by simp [hl]) fun j hj hj' => ?_
    rw [List.getElem_map, List.getElem_range, List.getD_eq_getElem _ _ hj]
  refine ⟨fun j => c.Tdom.getD j 0, fun j => c.domT.getD j 0, ?_⟩
  rw [ofFns, ← hmap _ hT, ← hmap _ hD]

/-- **A loop over the tuples**, each iteration of which changes the entries of its tuple: all entries
are changed. -/
theorem forUpTo_ofFns (ends : Nat) (body : Nat → Counters → Option Counters)
    (F G : Nat → Int → Int) (H : Nat → Int → Bool)
    (hbody : ∀ i f g b, i < ends → body i (ofFns ends f g b) = some (ofFns ends
      (Function.update f i (F i (f i))) (Function.update g i (G i (g i))) (b || H i (g i))))
    (f g : Nat → Int) (b : Bool) :
    forUpTo ends body (ofFns ends f g b) = some (ofFns ends (fun j => F j (f j))
      (fun j => G j (g j)) (b || (List.range ends).any fun j => H j (g j))) := by
  -- Before the iteration `i` the entries below `i` are changed.
  have hupdate : ∀ (i : Nat) (h : Nat → Int) (K : Nat → Int → Int),
      Function.update (fun j => if j < i then K j (h j) else h j) i
        (K i (if i < i then K i (h i) else h i))
        = fun j => if j < i + 1 then K j (h j) else h j := by
    intro i h K
    funext j
    rw [Function.update_apply]
    by_cases hij : j = i
    · subst hij
      rw [if_pos rfl, if_neg (Nat.lt_irrefl j), if_pos (Nat.lt_succ_self j)]
    · rw [if_neg hij]
      by_cases hlt : j < i
      · rw [if_pos hlt, if_pos (Nat.lt_succ_of_lt hlt)]
      · rw [if_neg hlt, if_neg (by omega)]
  obtain ⟨c, hrun, rfl⟩ := forUpTo_rule ends body (ofFns ends f g b)
    (fun i c => c = ofFns ends (fun j => if j < i then F j (f j) else f j)
      (fun j => if j < i then G j (g j) else g j) (b || (List.range i).any fun j => H j (g j)))
    (by simp) (by
      rintro i c hi rfl
      refine ⟨_, hbody i _ _ _ hi, ?_⟩
      rw [hupdate i f F, hupdate i g G, if_neg (Nat.lt_irrefl i), List.range_succ, List.any_append,
        Bool.or_assoc]
      simp)
  rw [hrun]
  exact congrArg some (ofFns_congr (fun j hj => if_pos hj) (fun j hj => if_pos hj) _)

end Counters

namespace Columns

variable [LinearOrder α]

/-- The sum of what the dimensions contribute is the value that `accumulate` computes. -/
theorem sum_gain (x y : Row α (k + 2)) :
    (∑ d ∈ Finset.range (k + 1), gain x y d) + gain x y (k + 1)
      = SkySet.accumulate fun d => SkySet.compare (k + 2) (x.d d) (y.d d) := by
  rw [SkySet.accumulate_eq_sum, ← Finset.sum_range_succ, ← Fin.sum_univ_eq_sum_range]
  refine Finset.sum_congr rfl fun d _ => ?_
  rw [gain, dif_pos d.isLt]

omit [LinearOrder α] in
/-- A sum of counters of rows. -/
theorem sum_ofRow (rows : List (Row α DIM)) (f : Nat → Row α DIM → Int) (n i : Nat) :
    (∑ d ∈ Finset.range n, ofRow rows (f d) i)
      = ofRow rows (fun p => ∑ d ∈ Finset.range n, f d p) i := by
  unfold ofRow
  cases rows[i]? with
  | none => simp
  | some p => rfl

omit [LinearOrder α] in
/-- The counters of the first rows. -/
theorem map_ofRow {rows : List (Row α DIM)} {n : Nat} (h : n ≤ rows.length) (f : Row α DIM → Int) :
    (List.range n).map (ofRow rows f) = (rows.take n).map f := by
  refine List.ext_getElem (by simp [h]) fun i hi hi' => ?_
  have hlt : i < rows.length := by
    rw [List.length_map, List.length_range] at hi
    omega
  rw [List.getElem_map, List.getElem_map, List.getElem_range, List.getElem_take, ofRow,
    List.getElem?_eq_getElem hlt, Option.elim_some]

/-- Over all the dimensions `Tdom` is summed. -/
theorem sum_ofRow_Tdom (t : Row α (k + 2)) (rows : List (Row α (k + 2))) (i : Nat) :
    (∑ d ∈ Finset.range (k + 1), ofRow rows (fun p => gain p t d) i)
      + ofRow rows (fun p => gain p t (k + 1)) i = ofRow rows (SkySet.Tdom t) i := by
  rw [sum_ofRow rows fun d p => gain p t d, ofRow_add]
  simp only [sum_gain]
  rfl

/-- Over all the dimensions half of `domT` is summed. -/
theorem sum_ofRow_domT (t : Row α (k + 2)) (rows : List (Row α (k + 2))) (i : Nat) :
    (∑ d ∈ Finset.range (k + 1), ofRow rows (fun p => gain t p d) i)
        + ofRow rows (fun p => gain t p (k + 1)) i
      + ((∑ d ∈ Finset.range (k + 1), ofRow rows (fun p => gain t p d) i)
        + ofRow rows (fun p => gain t p (k + 1)) i) = ofRow rows (SkySet.domT t) i := by
  rw [sum_ofRow rows fun d p => gain t p d, ofRow_add, ofRow_add]
  simp only [sum_gain]
  rfl

/-- The loop for the first dimension assigns the counters. -/
theorem forUpTo_firstDim {t : Row α DIM} {s : Columns α} {d ends : Nat} {a b : Nat → Int}
    (h : ∀ i < ends, s.terms t d i = some (a i, b i)) (f g : Nat → Int) :
    forUpTo ends (s.firstDim t d) (.ofFns ends f g false) = some (.ofFns ends a b false) := by
  have hloop := Counters.forUpTo_ofFns ends (s.firstDim t d) (fun i _ => a i)
    (fun i _ => b i) (fun _ _ => false) (fun i f g c hi => by
      simp only [firstDim, h i hi, Counters.ofFns, writeAt_map_range hi, Option.bind_eq_bind,
        Option.bind_some, Bool.or_false]) f g false
  rw [hloop, List.any_eq_false.mpr (by simp)]
  rfl

/-- The loop for a dimension in the middle adds to the counters. -/
theorem forUpTo_nextDim {t : Row α DIM} {s : Columns α} {d ends : Nat} {a b : Nat → Int}
    (h : ∀ i < ends, s.terms t d i = some (a i, b i)) (f g : Nat → Int) :
    forUpTo ends (s.nextDim t d) (.ofFns ends f g false)
      = some (.ofFns ends (fun i => f i + a i) (fun i => g i + b i) false) := by
  have hloop := Counters.forUpTo_ofFns ends (s.nextDim t d) (fun i x => x + a i)
    (fun i x => x + b i) (fun _ _ => false) (fun i f g c hi => by
      simp only [nextDim, h i hi, Counters.ofFns, readAt_map_range hi, writeAt_map_range hi,
        Option.bind_eq_bind, Option.bind_some, Bool.or_false]) f g false
  rw [hloop, List.any_eq_false.mpr (by simp)]
  rfl

/-- The loop for the last dimension adds to the counters, doubles the second one, and reads the flag
off it. -/
theorem forUpTo_lastDim {t : Row α DIM} {s : Columns α} {d ends : Nat} {a b : Nat → Int}
    (h : ∀ i < ends, s.terms t d i = some (a i, b i)) (f g : Nat → Int) :
    forUpTo ends (s.lastDim t d) (.ofFns ends f g false)
      = some (.ofFns ends (fun i => f i + a i) (fun i => g i + b i + (g i + b i))
        ((List.range ends).any fun i => decide (1 ≤ g i + b i + (g i + b i)))) := by
  have hloop := Counters.forUpTo_ofFns ends (s.lastDim t d) (fun i x => x + a i)
    (fun i x => x + b i + (x + b i)) (fun i x => decide (1 ≤ x + b i + (x + b i)))
    (fun i f g c hi => by
      simp only [lastDim, h i hi, Counters.ofFns, readAt_map_range hi, writeAt_map_range hi,
        Option.bind_eq_bind, Option.bind_some, Function.update_self, Function.update_idem])
    f g false
  rw [hloop, Bool.false_or]

/-- **The counters at the end of the loops over the dimensions**, whatever was in memory. -/
theorem count_columns (t : Row α (k + 2)) {s : TData α (k + 2)} {ends : Nat} (h : ends ≤ s.size)
    {Tdom domT : List Int} (hT : Tdom.length = ends) (hD : domT.length = ends) :
    s.columns.count t ends ⟨Tdom, domT, false⟩ = some ⟨(s.rows.take ends).map (SkySet.Tdom t),
      (s.rows.take ends).map (SkySet.domT t),
      ((s.rows.take ends).map (SkySet.domT t)).any fun x => decide (1 ≤ x)⟩ := by
  obtain ⟨f, g, hc⟩ := Counters.exists_ofFns ⟨Tdom, domT, false⟩ hT hD
  have hterms : ∀ d, d < k + 2 → ∀ i < ends, s.columns.terms t d i =
      some (ofRow s.rows (fun p => gain p t d) i, ofRow s.rows (fun p => gain t p d) i) :=
    fun d hd i hi => terms_columns t s hd (by omega)
  -- The loops for the dimensions in the middle: after `e` of them, the first `e + 1` are summed.
  obtain ⟨c, hnext, rfl⟩ := forUpTo_rule k
    (fun e => forUpTo ends (s.columns.nextDim t (e + 1)))
    (.ofFns ends (ofRow s.rows fun p => gain p t 0) (ofRow s.rows fun p => gain t p 0) false)
    (fun e c => c = .ofFns ends
      (fun i => ∑ d ∈ Finset.range (e + 1), ofRow s.rows (fun p => gain p t d) i)
      (fun i => ∑ d ∈ Finset.range (e + 1), ofRow s.rows (fun p => gain t p d) i) false)
    (by simp) (by
      rintro e c he rfl
      refine ⟨_, forUpTo_nextDim (hterms (e + 1) (by omega)) _ _, ?_⟩
      simp only [← Finset.sum_range_succ])
  have hle : ends ≤ s.rows.length := by rwa [TData.length_rows]
  rw [count, hc, forUpTo_firstDim (hterms 0 (by omega)), Option.bind_eq_bind, Option.bind_some,
    Nat.add_sub_cancel, hnext, Option.bind_some, show k + 2 - 1 = k + 1 from rfl,
    forUpTo_lastDim (hterms (k + 1) (by omega))]
  simp only [sum_ofRow_Tdom, sum_ofRow_domT]
  rw [Counters.ofFns, ← map_ofRow hle, ← map_ofRow hle, List.any_map]
  rfl

end Columns

/-! ## The scan is that of the rows -/

namespace Scan

/-- An iteration for a dominated tuple: two tuples are copied. -/
theorem body_dominated {s : TData α DIM} {i n pos : Nat} {Tdom domT : List Int}
    (hT : i + n < Tdom.length) (hD : i + n < domT.length) (hpos : i + n ≤ pos)
    (hsize : pos < s.size) (hdom : 1 ≤ Tdom.getD i 0) :
    body DIM ⟨i, pos, (i + n : Nat), Tdom, domT, s.columns⟩ = some ⟨i, pos - 1, (i + n : Nat) - 1,
      Tdom.set i (Tdom.getD (i + n) 0), domT.set i (domT.getD (i + n) 0),
      ((s.copyRow i (i + n)).copyRow (i + n) pos).columns⟩ := by
  have hfirst := Columns.copyRow_columns s (i := i) (j := i + n) (by omega) (by omega)
  have hsecond := Columns.copyRow_columns (s.copyRow i (i + n)) (i := i + n) (j := pos)
    (by show i + n < s.size; omega) hsize
  simp only [body, Option.bind_eq_bind]
  rw [readAt_eq_getD (by omega) 0, Option.bind_some, if_pos hdom, hfirst, Option.bind_some,
    readAt_eq_getD hT 0, Option.bind_some, writeAt_eq (by omega), Option.bind_some,
    readAt_eq_getD hD 0, Option.bind_some, writeAt_eq (by omega), Option.bind_some, hsecond,
    Option.bind_some]

/-- An iteration for a tuple that is kept. -/
theorem body_kept {s : Columns α} {i : Nat} {pos endpoint : Int} {Tdom domT : List Int}
    (hT : i < Tdom.length) (hdom : ¬ 1 ≤ Tdom.getD i 0) :
    body DIM ⟨i, pos, endpoint, Tdom, domT, s⟩
      = some ⟨(i + 1 : Nat), pos, endpoint, Tdom, domT, s⟩ := by
  simp only [body, Option.bind_eq_bind]
  rw [readAt_eq_getD hT 0, Option.bind_some, if_neg hdom]
  rfl

/-- Copying rows keeps the number of rows. -/
theorem size_shift (n i len : Nat) (Tdom : List Int) (s : TData α (k + 2)) :
    (SkySet.shift n i len Tdom s).2.2.size = s.size := by
  induction n generalizing i len Tdom s with
  | zero => rfl
  | succ n ih =>
      rw [SkySet.shift]
      split
      · exact ih i _ _ _
      · exact ih (i + 1) _ _ _

/-- **The loop does not go wrong, ends, and shifts the rows.** Its variant is the number `n` of tuples
left to examine. -/
theorem runWhile_shift (n i len : Nat) (Tdom domT : List Int) (s : TData α (k + 2)) {fuel : Nat}
    (hT : i + n ≤ Tdom.length) (hD : i + n ≤ domT.length) (hlen : i + n ≤ len)
    (hsize : len ≤ s.size) (hfuel : n ≤ fuel) :
    ∃ x, runWhile cond (body (k + 2)) fuel ⟨i, len - 1, i + n - 1, Tdom, domT, s.columns⟩ = .done x ∧
      x.endpoint = (SkySet.shift n i len Tdom s).1 - 1 ∧
      x.pos = (SkySet.shift n i len Tdom s).2.1 - 1 ∧
      x.s = (SkySet.shift n i len Tdom s).2.2.columns := by
  induction n generalizing i len fuel Tdom domT s with
  | zero =>
      refine ⟨_, runWhile_of_not ?_ fuel, ?_, rfl, rfl⟩
      · rw [cond, decide_eq_false_iff_not]
        show ¬ (i : Int) ≤ i + (0 : Nat) - 1
        omega
      · show (i : Int) + (0 : Nat) - 1 = i - 1
        omega
  | succ n ih =>
      obtain ⟨fuel, rfl⟩ : ∃ f, fuel = f + 1 := ⟨fuel - 1, by omega⟩
      obtain ⟨pos, rfl⟩ : ∃ p, len = p + 1 := ⟨len - 1, by omega⟩
      have hends : (i : Int) + (n + 1 : Nat) - 1 = (i + n : Nat) := by omega
      have hlast : ((pos + 1 : Nat) : Int) - 1 = pos := by omega
      have hcond : cond (Scan.mk (i : Int) pos (i + n : Nat) Tdom domT s.columns) = true := by
        rw [cond, decide_eq_true_iff]
        show (i : Int) ≤ (i + n : Nat)
        omega
      rw [hends, hlast, SkySet.shift]
      by_cases hdom : 1 ≤ Tdom.getD i 0
      · -- the tuple is shifted out: one less to examine, from the same index on
        rw [if_pos hdom, runWhile_step hcond
          (body_dominated (by omega) (by omega) (by omega) (by omega) hdom), Nat.add_sub_cancel]
        have hnext := ih i pos (Tdom.set i (Tdom.getD (i + n) 0)) (domT.set i (domT.getD (i + n) 0))
          ((s.copyRow i (i + n)).copyRow (i + n) pos) (by rw [List.length_set]; omega)
          (by rw [List.length_set]; omega) (by omega) (by show pos ≤ s.size; omega)
          (show n ≤ fuel by omega)
        rwa [← Nat.cast_add] at hnext
      · -- the tuple is kept
        rw [if_neg hdom, runWhile_step hcond (body_kept (by omega) hdom)]
        have hnext := ih (i + 1) (pos + 1) Tdom domT s (by omega) (by omega) (by omega) hsize
          (show n ≤ fuel by omega)
        rwa [hlast, show ((i + 1 : Nat) : Int) + n - 1 = (i + n : Nat) by omega] at hnext

end Scan

/-! ## The method -/

namespace Columns

variable [LinearOrder α]

/-- **The loops compute what `SkySet.updateSkyline` says by rows.** -/
theorem updateSkyline_columns (t : Row α (k + 2)) {s : TData α (k + 2)} {ends fuel : Nat}
    (h : ends ≤ s.size) {Tdom domT : List Int} (hT : Tdom.length = ends) (hD : domT.length = ends)
    (hfuel : ends ≤ fuel) :
    s.columns.updateSkyline t (ends - 1) Tdom domT fuel =
      .done ((SkySet.updateSkyline t ends s).1, (SkySet.updateSkyline t ends s).2.2.1 - 1,
        (SkySet.updateSkyline t ends s).2.1 - 1,
        (SkySet.updateSkyline t ends s).2.2.2.columns) := by
  have hlen : ((s.rows.take ends).map (SkySet.Tdom t)).length = ends := by
    rw [List.length_map, List.length_take, TData.length_rows]
    omega
  have hlen' : ((s.rows.take ends).map (SkySet.domT t)).length = ends := by
    rw [List.length_map, List.length_take, TData.length_rows]
    omega
  -- the scan over columns runs as the one over rows does, with enough fuel
  obtain ⟨x, hrun, hend, hpos, hs⟩ := Scan.runWhile_shift ends 0 s.size
    ((s.rows.take ends).map (SkySet.Tdom t)) ((s.rows.take ends).map (SkySet.domT t)) s
    (by omega) (by omega) (by omega) le_rfl hfuel
  rw [updateSkyline, show ((ends : Int) - 1 + 1).toNat = ends by omega, count_columns t h hT hD]
  rw [Nat.cast_zero, zero_add] at hrun
  show Outcome.map _ (runWhile Scan.cond (Scan.body (k + 2)) fuel
    ⟨0, s.size - 1, ends - 1, _, _, s.columns⟩) = _
  rw [hrun]
  show Outcome.done (_, x.pos, x.endpoint, x.s) = _
  rw [hend, hpos, hs]
  rfl

/-- **The partition in place.** From any container, any `endpoint` inside it and any values in the
arrays of counters, the method ends without an index out of range, with whole rows: at the front are
the tuples up to `endpoint` that `t` does not dominate, then, up to `pos`, the ones behind `endpoint`.
The flag tells whether a tuple up to `endpoint` dominates `t`. -/
theorem updateSkyline_partition (t : Row α (k + 2)) (s : TData α (k + 2)) {endpoint : Int}
    (hlow : -1 ≤ endpoint) (hhigh : endpoint ≤ s.lastIdx) {Tdom domT : List Int}
    (hT : (Tdom.length : Int) = endpoint + 1) (hD : (domT.length : Int) = endpoint + 1) :
    ∃ (isDominated : Bool) (pos endpoint' : Int) (s' : TData α (k + 2)),
      (∀ fuel : Nat, endpoint + 1 ≤ fuel → s.columns.updateSkyline t endpoint Tdom domT fuel =
        .done (isDominated, pos, endpoint', s'.columns)) ∧
      s'.lastIdx = s.lastIdx ∧ -1 ≤ endpoint' ∧ endpoint' ≤ pos ∧
      (isDominated = true ↔ ∃ p ∈ s.rows.take (endpoint + 1).toNat, p.Dominates t) ∧
      (s'.rows.take (endpoint' + 1).toNat).Perm
        ((s.rows.take (endpoint + 1).toNat).filter fun p => ¬ t.Dominates p) ∧
      ((s'.rows.take (pos + 1).toNat).drop (endpoint' + 1).toNat).Perm
        (s.rows.drop (endpoint + 1).toNat) ∧
      pos = s.lastIdx - (s.rows.take (endpoint + 1).toNat).countP fun p => t.Dominates p := by
  -- `endpoint` is the last index of the old rows, so they are the first `ends` ones
  obtain ⟨ends, rfl⟩ : ∃ ends : Nat, endpoint = (ends : Int) - 1 :=
    ⟨(endpoint + 1).toNat, by omega⟩
  have hends : ends ≤ s.size := by
    rw [TData.lastIdx] at hhigh
    omega
  have hcast : ((ends : Int) - 1 + 1).toNat = ends := by omega
  have hO : (s.rows.take ends).length = ends := by
    rw [List.length_take, TData.length_rows]
    omega
  have hW : (s.rows.drop ends).length = s.size - ends := by
    rw [List.length_drop, TData.length_rows]
  -- what the scan over rows leaves: the old rows that stay, and all the new ones
  obtain ⟨A', W', J', hsh, hflag⟩ := SkySet.updateSkyline_spec t
    (List.take_append_drop ends s.rows).symm
  rw [hO] at hsh hflag
  obtain ⟨isDominated, r, hr⟩ : ∃ f r, SkySet.updateSkyline t ends s = (f, r) := ⟨_, _, rfl⟩
  have hsize : r.2.2.size = s.size := by
    rw [show r = SkySet.shift ends 0 s.size _ s from (congrArg Prod.snd hr).symm]
    exact Scan.size_shift _ _ _ _ s
  rw [hr] at hsh hflag
  dsimp only at hsh hflag
  have hkept := hsh.kept
  rw [List.nil_append] at hkept
  have hends' : ((r.1 : Int) - 1 + 1).toNat = A'.length := by
    rw [hsh.ends]
    omega
  have hpos : ((r.2.1 : Int) - 1 + 1).toNat = (A' ++ W').length := by
    rw [hsh.len, List.length_append]
    omega
  refine ⟨isDominated, r.2.1 - 1, r.1 - 1, r.2.2, ?_, ?_, by omega, ?_, ?_, ?_, ?_, ?_⟩
  · intro fuel hfuel
    rw [updateSkyline_columns t hends (by omega) (by omega) (by omega), hr]
  · rw [TData.lastIdx, TData.lastIdx, hsize]
  · rw [hsh.ends, hsh.len]
    omega
  · rw [hcast]
    exact hflag
  · rw [hcast, hends', hsh.rows, List.append_assoc, List.take_left]
    exact hkept
  · rw [hcast, hpos, hends', hsh.rows, List.take_left, List.drop_left]
    exact hsh.rest
  -- every old row is dominated or stays, so the removed ones are counted by the difference
  · have hcount := List.length_eq_countP_add_countP (fun p => decide (t.Dominates p))
      (l := s.rows.take ends)
    have hkept' := hkept.length_eq
    have hrest := hsh.rest.length_eq
    rw [← List.countP_eq_length_filter] at hkept'
    rw [hcast, TData.lastIdx, hsh.len, hkept', hrest, hW]
    simp only [decide_not, decide_eq_true_eq] at hcount ⊢
    omega

/-- Four tuples on two dimensions, for a run on fixed inputs. -/
def fourPoints : TData ℤ 2 :=
  ((((TData.new ℤ 2).append (SkySet.point 4 4)).append (SkySet.point 1 5)).append
    (SkySet.point 3 3)).append (SkySet.point 6 6)

/-- The rows of the columns of the example. -/
theorem rows_fourPoints : fourPoints.rows =
    [SkySet.point 4 4, SkySet.point 1 5, SkySet.point 3 3, SkySet.point 6 6] := by
  simp only [fourPoints, TData.rows_append]
  rfl

/-- A tuple against the first three of four: two of them are shifted out, the fourth is moved. -/
theorem updateSkyline_partition_witness :
    ∃ (isDominated : Bool) (pos endpoint' : Int) (s' : TData ℤ 2),
      fourPoints.columns.updateSkyline (SkySet.point 2 2) 2 [7, -7, 0] [9, 9, 9] 3 =
        .done (isDominated, pos, endpoint', s'.columns) ∧
      isDominated = false ∧ pos = 1 ∧
      (s'.rows.take (endpoint' + 1).toNat).Perm [SkySet.point 1 5] ∧
      ((s'.rows.take (pos + 1).toNat).drop (endpoint' + 1).toNat).Perm [SkySet.point 6 6] := by
  obtain ⟨isDominated, pos, endpoint', s', hrun, -, -, -, hflag, hkept, hrest, hpos⟩ :=
    updateSkyline_partition (SkySet.point 2 2) fourPoints (show (-1 : Int) ≤ 2 by decide)
      (by decide) (show (([7, -7, 0] : List Int).length : Int) = 2 + 1 by decide)
      (show (([9, 9, 9] : List Int).length : Int) = 2 + 1 by decide)
  rw [rows_fourPoints] at hflag hkept hrest hpos
  refine ⟨isDominated, pos, endpoint', s', hrun 3 (by decide), ?_, ?_, ?_, ?_⟩
  · exact Bool.eq_false_iff.mpr fun h => absurd (hflag.mp h) (by decide)
  · exact hpos.trans (by decide)
  · exact hkept
  · exact hrest

end Columns

end ElasticPPQ
