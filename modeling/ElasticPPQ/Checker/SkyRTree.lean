import ElasticPPQ.Checker.Query
import Mathlib.Data.Fin.VecNotation

/-! # The skyline checker

The class `SkyRTree` and the loop of `main` (`skyline_checker.cpp`): the points that a new one
dominates are removed from the R-tree, and the new one is inserted without a test if there were some,
and otherwise if no point dominates it. Insertion and deletion are those of the spatial index; what is
assumed of them is `RTree.Updates.Correct`.

The tree holds the skyline of the tuples received. So no point of it dominates another, and a new one
that dominates a stored point is dominated by none: this is why the test can be skipped. -/

namespace ElasticPPQ

variable {DIM : Nat}

/-! ## Insertion and deletion -/

/-- The two methods of the spatial index that change a tree: the region and the identifier of a
point are inserted or deleted. -/
structure RTree.Updates (DIM : Nat) where
  insertData : RTree DIM → Region DIM → SkyPoint DIM → RTree DIM
  deleteData : RTree DIM → Region DIM → SkyPoint DIM → RTree DIM

/-- Insertion and deletion are correct: with `Inv T ps` for what the spatial index keeps of a tree with
the points `ps`, one point more, or less, is stored. -/
structure RTree.Updates.Correct (U : RTree.Updates DIM)
    (Inv : RTree DIM → List (SkyPoint DIM) → Prop) : Prop where
  new : Inv (RTree.new DIM) []
  holds : ∀ T ps, Inv T ps → T.Holds ps
  insertData : ∀ T ps p, Inv T ps → (∀ q ∈ p :: ps, SkyPoint.IntCoords q.t.d) →
    ∃ ps', Inv (U.insertData T p.pRegion p) ps' ∧ ps'.Perm (p :: ps)
  deleteData : ∀ T ps p, Inv T ps → (∀ q ∈ ps, SkyPoint.IntCoords q.t.d) → p ∈ ps →
    ∃ ps', Inv (U.deleteData T p.pRegion p) ps' ∧ (p :: ps').Perm ps

/-! ## `SkyRTree` -/

/-- The members of `SkyRTree`. -/
structure SkyRTree (DIM : Nat) where
  rtree : RTree DIM
  size : Nat

namespace SkyRTree

variable (U : RTree.Updates DIM) (u : ℚ → Int)

/-- The constructor. -/
def new (DIM : Nat) : SkyRTree DIM := ⟨RTree.new DIM, 0⟩

/-- `insertPoint`. -/
def insertPoint (x : SkyPoint DIM) (db : SkyRTree DIM) : SkyRTree DIM :=
  ⟨U.insertData db.rtree x.pRegion x, db.size + 1⟩

/-- `removePoint`. -/
def removePoint (x : SkyPoint DIM) (db : SkyRTree DIM) : SkyRTree DIM :=
  ⟨U.deleteData db.rtree x.pRegion x, db.size - 1⟩

/-- `getDominatedPoints`. -/
def getDominatedPoints (fuel : Nat) (x : SkyPoint DIM) (db : SkyRTree DIM) :
    Option (List (SkyPoint DIM)) :=
  (db.rtree.queryStrategy (dominanceQuery u x .dominates .maxCorner) fuel ⟨false, [], []⟩).map
    GenericQuery.own

/-- The loop of `removeDominatedPoints`. -/
def removePoints : List (SkyPoint DIM) → Nat → SkyRTree DIM → Nat × SkyRTree DIM
  | [], removed, db => (removed, db)
  | p :: ps, removed, db => removePoints ps (removed + 1) (db.removePoint U p)

/-- `removeDominatedPoints`: the number of points removed. -/
def removeDominatedPoints (fuel : Nat) (x : SkyPoint DIM) (db : SkyRTree DIM) :
    Option (Nat × SkyRTree DIM) := do
  let removedList ← db.getDominatedPoints u fuel x
  some (removePoints U removedList 0 db)

/-- `isSkyline`. -/
def isSkyline (fuel : Nat) (x : SkyPoint DIM) (db : SkyRTree DIM) : Option Bool :=
  (db.rtree.queryStrategy (skylineQuery u x) fuel ⟨false, [], true⟩).map GenericQuery.own

/-- What the loop of `main` does with a tuple; `new SkyPoint(t)` is at the address `addr`. -/
def receive (fuel addr : Nat) (t : Row ℚ DIM) (db : SkyRTree DIM) : Option (SkyRTree DIM) := do
  let p : SkyPoint DIM := ⟨addr, t⟩
  let (removed, db) ← db.removeDominatedPoints U u fuel p
  if 0 < removed then some (db.insertPoint U p)
  else do
    let isSkyline ← db.isSkyline u fuel p
    if isSkyline then some (db.insertPoint U p) else some db

/-- The loop of `main` over the tuples received, `rcvCount` being the number of earlier ones. -/
def check (fuel : Nat) : Nat → List (Row ℚ DIM) → SkyRTree DIM → Option (SkyRTree DIM)
  | _, [], db => some db
  | rcvCount, t :: ts, db => do
      let db ← db.receive U u fuel rcvCount t
      check fuel (rcvCount + 1) ts db

/-! ## What is stored -/

/-- The points stored are `ps`. -/
structure Stores (Inv : RTree DIM → List (SkyPoint DIM) → Prop) (db : SkyRTree DIM)
    (ps : List (SkyPoint DIM)) : Prop where
  tree : Inv db.rtree ps
  size : db.size = ps.length
  int : ∀ p ∈ ps, SkyPoint.IntCoords p.t.d

variable {U} {Inv : RTree DIM → List (SkyPoint DIM) → Prop} {db : SkyRTree DIM}
  {ps : List (SkyPoint DIM)}

/-- A point is inserted. -/
theorem Stores.insertPoint (hU : U.Correct Inv) (h : Stores Inv db ps) {x : SkyPoint DIM}
    (hx : SkyPoint.IntCoords x.t.d) :
    ∃ ps', Stores Inv (db.insertPoint U x) ps' ∧ ps'.Perm (x :: ps) := by
  have hint : ∀ q ∈ x :: ps, SkyPoint.IntCoords q.t.d := by
    intro q hq
    rcases List.mem_cons.mp hq with rfl | hq
    · exact hx
    · exact h.int q hq
  obtain ⟨ps', htree, hperm⟩ := hU.insertData db.rtree ps x h.tree hint
  refine ⟨ps', ⟨htree, ?_, fun q hq => hint q (hperm.mem_iff.mp hq)⟩, hperm⟩
  show db.size + 1 = ps'.length
  rw [hperm.length_eq, List.length_cons, h.size]

/-- A point of the tree is removed. -/
theorem Stores.removePoint (hU : U.Correct Inv) (h : Stores Inv db ps) {x : SkyPoint DIM}
    (hx : x ∈ ps) : ∃ ps', Stores Inv (db.removePoint U x) ps' ∧ (x :: ps').Perm ps := by
  obtain ⟨ps', htree, hperm⟩ := hU.deleteData db.rtree ps x h.tree h.int hx
  refine ⟨ps', ⟨htree, ?_, fun q hq => h.int q (hperm.mem_iff.mp (List.mem_cons_of_mem x hq))⟩,
    hperm⟩
  show db.size - 1 = ps'.length
  rw [h.size, ← hperm.length_eq, List.length_cons, Nat.add_sub_cancel]

/-- The loop removes the points of its list. -/
theorem Stores.removePoints (hU : U.Correct Inv) {rest : List (SkyPoint DIM)}
    {l : List (SkyPoint DIM)} (h : Stores Inv db ps) (hl : (l ++ rest).Perm ps) (removed : Nat) :
    ∃ db' ps', SkyRTree.removePoints U l removed db = (removed + l.length, db') ∧
      Stores Inv db' ps' ∧ ps'.Perm rest := by
  induction l generalizing db ps removed with
  | nil => exact ⟨db, ps, rfl, h, hl.symm⟩
  | cons x l ih =>
      obtain ⟨ps₁, h₁, hperm⟩ := h.removePoint hU (hl.mem_iff.mp List.mem_cons_self)
      have hl' : (l ++ rest).Perm ps₁ := (hl.trans hperm.symm).cons_inv
      obtain ⟨db', ps', hrun, h', hperm'⟩ := ih h₁ hl' (removed + 1)
      refine ⟨db', ps', ?_, h', hperm'⟩
      rw [SkyRTree.removePoints, hrun, List.length_cons, Nat.add_assoc, Nat.add_comm 1]

/-- **`removeDominatedPoints`** leaves the points that the new one does not dominate. -/
theorem Stores.removeDominatedPoints (hU : U.Correct Inv) (h : Stores Inv db ps) {x : SkyPoint DIM}
    (hx : SkyPoint.IntCoords x.t.d) :
    ∃ n removed db' ps', (∀ fuel, n ≤ fuel →
        db.removeDominatedPoints U u fuel x = some (removed, db')) ∧
      (0 < removed ↔ ∃ p ∈ ps, x.t.Dominates p.t) ∧ Stores Inv db' ps' ∧
      ps'.Perm (ps.filter fun p => ¬ x.t.Dominates p.t) := by
  -- the query finds the dominated points, the others stay
  obtain ⟨n, q, hrun, hperm⟩ := dominanceQuery_spec (hU.holds _ _ h.tree) h.int hx u
  have hall : (q.own ++ ps.filter fun p => ¬ x.t.Dominates p.t).Perm ps := by
    refine (hperm.append_right _).trans ?_
    simpa only [decide_not] using List.filter_append_perm (fun p => decide (x.t.Dominates p.t)) ps
  obtain ⟨db', ps', hremove, h', hperm'⟩ := h.removePoints hU hall 0
  refine ⟨n, q.own.length, db', ps', fun fuel hfuel => ?_, ?_, h', hperm'⟩
  · rw [SkyRTree.removeDominatedPoints, getDominatedPoints, hrun fuel hfuel]
    rw [Nat.zero_add] at hremove
    exact congrArg some hremove
  · rw [hperm.length_eq, List.length_pos_iff_exists_mem]
    simp

/-! ## The checker is exact -/

open Pareto

/-- The points stored are the skyline of the tuples `m`. -/
def StoresSkyline (Inv : RTree DIM → List (SkyPoint DIM) → Prop) (db : SkyRTree DIM)
    (m : Multiset (Row ℚ DIM)) : Prop :=
  ∃ ps, Stores Inv db ps ∧
    ((ps.map SkyPoint.t : List (Row ℚ DIM)) : Multiset (Row ℚ DIM)) = nondominated Row.Dominates m

/-- The skyline with one more tuple: what it does not dominate, and the tuple itself if nothing
dominates it. -/
theorem nondominated_add_tuple {m : Multiset (Row ℚ DIM)} {ps ps₁ : List (SkyPoint DIM)}
    (hps : ((ps.map SkyPoint.t : List (Row ℚ DIM)) : Multiset (Row ℚ DIM))
      = nondominated Row.Dominates m) {t : Row ℚ DIM}
    (hps₁ : ps₁.Perm (ps.filter fun p => ¬ t.Dominates p.t)) :
    nondominated Row.Dominates (m + {t})
      = ((ps₁.map SkyPoint.t : List (Row ℚ DIM)) : Multiset (Row ℚ DIM))
        + if ∃ p ∈ ps, p.t.Dominates t then 0 else {t} := by
  -- what is left of the old skyline is what the new tuple does not dominate
  have hleft : ((ps₁.map SkyPoint.t : List (Row ℚ DIM)) : Multiset (Row ℚ DIM))
      = (nondominated Row.Dominates m).filter fun p => ∀ q ∈ nondominated Row.Dominates {t},
        ¬ q.Dominates p := by
    rw [nondominated_singleton, ← hps, Multiset.coe_eq_coe.mpr (hps₁.map SkyPoint.t),
      Multiset.filter_coe, Multiset.coe_eq_coe, List.filter_map]
    simp [Function.comp_def]
  rw [nondominated_add, ← hleft, nondominated_singleton, Multiset.filter_singleton, ← hps]
  congr 1
  -- the new tuple itself stays unless an old point dominates it
  by_cases hdom : ∃ p ∈ ps, p.t.Dominates t
  · obtain ⟨p, hp, hpt⟩ := hdom
    rw [if_neg fun hall => hall p.t (Multiset.mem_coe.mpr (List.mem_map_of_mem hp)) hpt,
      if_pos ⟨p, hp, hpt⟩]
    rfl
  · rw [if_pos, if_neg hdom]
    intro q hq hqt
    obtain ⟨p, hp, rfl⟩ := List.mem_map.mp (Multiset.mem_coe.mp hq)
    exact hdom ⟨p, hp, hqt⟩

/-- **A tuple is received.** If it dominates a stored point, then no stored point dominates it, for that
one would dominate the other. -/
theorem StoresSkyline.receive (hU : U.Correct Inv) {m : Multiset (Row ℚ DIM)}
    (h : StoresSkyline Inv db m) {t : Row ℚ DIM} (ht : SkyPoint.IntCoords t.d) (addr : Nat) :
    ∃ n db', (∀ fuel, n ≤ fuel → db.receive U u fuel addr t = some db') ∧
      StoresSkyline Inv db' (m + {t}) := by
  obtain ⟨ps, hstores, hskyline⟩ := h
  obtain ⟨x, hx⟩ : ∃ x : SkyPoint DIM, x = ⟨addr, t⟩ := ⟨_, rfl⟩
  have hxt : x.t = t := by rw [hx]
  have hint : SkyPoint.IntCoords x.t.d := by rw [hxt]; exact ht
  obtain ⟨n, removed, db₁, ps₁, hremove, hremoved, hstores₁, hperm₁⟩ :=
    hstores.removeDominatedPoints u hU hint
  rw [hxt] at hremoved hperm₁
  have hadd := nondominated_add_tuple hskyline hperm₁
  obtain ⟨ps₂, hstores₂, hperm₂⟩ := hstores₁.insertPoint hU hint
  have hinserted : (¬ ∃ p ∈ ps, p.t.Dominates t) →
      StoresSkyline Inv (db₁.insertPoint U x) (m + {t}) := by
    intro hnone
    refine ⟨ps₂, hstores₂, ?_⟩
    rw [hadd, if_neg hnone, Multiset.coe_eq_coe.mpr (hperm₂.map SkyPoint.t), List.map_cons, hxt,
      ← Multiset.cons_coe, add_comm, Multiset.singleton_add]
  by_cases hany : ∃ p ∈ ps, t.Dominates p.t
  · -- some points have been removed
    refine ⟨n, db₁.insertPoint U x, fun fuel hfuel => ?_, hinserted ?_⟩
    · rw [SkyRTree.receive, ← hx, hremove fuel hfuel]
      exact if_pos (hremoved.mpr hany)
    · rintro ⟨q, hq, hqt⟩
      obtain ⟨p, hp, htp⟩ := hany
      have hmem : ∀ r ∈ ps, r.t ∈ nondominated Row.Dominates m := by
        intro r hr
        rw [← hskyline]
        exact Multiset.mem_coe.mpr (List.mem_map_of_mem hr)
      exact not_dom_of_mem (hmem p hp) (hmem q hq) (IsTrans.trans _ _ _ hqt htp)
  · -- nothing has been removed: the new point is tested
    have hzero : ¬ 0 < removed := fun hpos => hany (hremoved.mp hpos)
    have hsame : ps₁.Perm ps := by
      refine hperm₁.trans (List.Perm.of_eq (List.filter_eq_self.mpr fun p hp => ?_))
      exact decide_eq_true fun hdom => hany ⟨p, hp, hdom⟩
    obtain ⟨n', q, hrun, hown⟩ := skylineQuery_spec (hU.holds _ _ hstores₁.tree) hstores₁.int hint u
    have hcall : ∀ fuel, max n n' ≤ fuel → db.receive U u fuel addr t
        = if q.own then some (db₁.insertPoint U x) else some db₁ := by
      intro fuel hfuel
      rw [SkyRTree.receive, ← hx, hremove fuel (le_of_max_le_left hfuel)]
      refine (if_neg hzero).trans ?_
      rw [SkyRTree.isSkyline, hrun fuel (le_of_max_le_right hfuel)]
      rfl
    rw [hxt] at hown
    by_cases hdom : ∃ p ∈ ps, p.t.Dominates t
    · -- the new point is dominated, and not inserted
      refine ⟨max n n', db₁, fun fuel hfuel => ?_, ps₁, hstores₁, ?_⟩
      · rw [hcall fuel hfuel, if_neg]
        intro hq
        obtain ⟨p, hp, hpt⟩ := hdom
        exact hown.mp hq p (hsame.mem_iff.mpr hp) hpt
      · rw [hadd, if_pos hdom, add_zero]
    · refine ⟨max n n', db₁.insertPoint U x, fun fuel hfuel => ?_, hinserted hdom⟩
      rw [hcall fuel hfuel, if_pos]
      exact hown.mpr fun p hp hpt => hdom ⟨p, hsame.mem_iff.mp hp, hpt⟩

/-- **All the tuples are received.** -/
theorem StoresSkyline.check (hU : U.Correct Inv) {m : Multiset (Row ℚ DIM)}
    (h : StoresSkyline Inv db m) {ts : List (Row ℚ DIM)}
    (hts : ∀ t ∈ ts, SkyPoint.IntCoords t.d) (rcvCount : Nat) :
    ∃ n db', (∀ fuel, n ≤ fuel → SkyRTree.check U u fuel rcvCount ts db = some db') ∧
      StoresSkyline Inv db' (m + ts) := by
  -- induction on the tuples received; the fuel is that of the largest query
  induction ts generalizing db m rcvCount with
  | nil =>
      refine ⟨0, db, fun _ _ => rfl, ?_⟩
      rwa [Multiset.coe_nil, add_zero]
  | cons t ts ih =>
      obtain ⟨n, db₁, hrun, h₁⟩ := h.receive u hU (hts t List.mem_cons_self) rcvCount
      obtain ⟨n', db₂, hrun', h₂⟩ := ih h₁ (fun s hs => hts s (List.mem_cons_of_mem t hs))
        (rcvCount + 1)
      refine ⟨max n n', db₂, fun fuel hfuel => ?_, ?_⟩
      · rw [SkyRTree.check, hrun fuel (le_of_max_le_left hfuel)]
        exact hrun' fuel (le_of_max_le_right hfuel)
      · rwa [add_assoc, Multiset.singleton_add, Multiset.cons_coe] at h₂

/-- **The skyline checker is exact.** In every tree whose regions contain the points beneath them,
without empty subtrees, and for every point, `DominanceQuery` collects the stored points that it
dominates, each as often as it is stored, and `SkylineQuery` tells whether none dominates it. If
insertion and deletion are correct, then for every sequence of tuples the R-tree of the checker ends
up with the skyline of the sequence, equal tuples all kept. Coordinates are integers in the range of
`int`; a conversion of any other number may give anything. -/
theorem checker_exact (DIM : Nat) (u : ℚ → Int) :
    (∀ (T : RTree DIM) (ps : List (SkyPoint DIM)) (x : SkyPoint DIM), T.Holds ps →
      (∀ p ∈ ps, SkyPoint.IntCoords p.t.d) → SkyPoint.IntCoords x.t.d →
        (∃ n q, (∀ fuel, n ≤ fuel →
          T.queryStrategy (dominanceQuery u x .dominates .maxCorner) fuel ⟨false, [], []⟩ = some q) ∧
          q.own.Perm (ps.filter fun p => x.t.Dominates p.t)) ∧
        ∃ n q, (∀ fuel, n ≤ fuel →
          T.queryStrategy (skylineQuery u x) fuel ⟨false, [], true⟩ = some q) ∧
          (q.own = true ↔ ∀ p ∈ ps, ¬ p.t.Dominates x.t)) ∧
    ∀ (U : RTree.Updates DIM) (Inv : RTree DIM → List (SkyPoint DIM) → Prop), U.Correct Inv →
      ∀ ts : List (Row ℚ DIM), (∀ t ∈ ts, SkyPoint.IntCoords t.d) →
        ∃ n db, (∀ fuel, n ≤ fuel → check U u fuel 0 ts (new DIM) = some db) ∧
          ∃ ps, db.rtree.Holds ps ∧ db.size = ps.length ∧
            (ps.map SkyPoint.t).Perm (ts.filter fun t => ∀ q ∈ ts, ¬ q.Dominates t) := by
  refine ⟨fun T ps x hT hps hx => ⟨dominanceQuery_spec hT hps hx u, skylineQuery_spec hT hps hx u⟩,
    fun U Inv hU ts hts => ?_⟩
  have hnew : StoresSkyline Inv (new DIM) 0 :=
    ⟨[], ⟨hU.new, rfl, fun _ hp => absurd hp List.not_mem_nil⟩, rfl⟩
  obtain ⟨n, db, hrun, ps, hstores, hskyline⟩ := hnew.check u hU hts 0
  refine ⟨n, db, hrun, ps, hU.holds _ _ hstores.tree, hstores.size, ?_⟩
  rw [zero_add, nondominated, Multiset.filter_coe, Multiset.coe_eq_coe] at hskyline
  simpa only [Multiset.mem_coe] using hskyline

/-! ## A run on fixed inputs -/

/-- Insertion and deletion in a tree that is one leaf, as long as it is not full. -/
def leafUpdates : RTree.Updates 2 where
  insertData := fun T _ p =>
    { T with node := fun id => (T.node id).map fun
        | .leaf ps => .leaf (ps ++ [p])
        | .index cs => .index cs }
  deleteData := fun T _ p =>
    { T with node := fun id => (T.node id).map fun
        | .leaf ps => .leaf (ps.erase p)
        | .index cs => .index cs }

/-- The tree is one leaf. -/
def OneLeaf (T : RTree 2) (ps : List (SkyPoint 2)) : Prop := T.node T.rootId = some (.leaf ps)

/-- The tree of one leaf does what is asked of an R-tree. -/
theorem leafUpdates_correct : leafUpdates.Correct OneLeaf where
  new := rfl
  holds := fun _ _ h => ⟨1, .leaf h⟩
  insertData := by
    intro T ps p h _
    refine ⟨ps ++ [p], ?_, List.perm_append_singleton p ps⟩
    show (T.node T.rootId).map _ = _
    rw [show T.node T.rootId = _ from h]
    rfl
  deleteData := by
    intro T ps p h _ hp
    refine ⟨ps.erase p, ?_, (List.perm_cons_erase hp).symm⟩
    show (T.node T.rootId).map _ = _
    rw [show T.node T.rootId = _ from h]
    rfl

/-- A tuple with integer coordinates. -/
def intTuple (x y : Int) : Row ℚ 2 := ⟨![x, y], 0, 0⟩

/-- Coordinates in the range of `int` are integers of it. -/
theorem intTuple_intCoords {x y : Int} (hx : -2147483648 ≤ x ∧ x ≤ 2147483647)
    (hy : -2147483648 ≤ y ∧ y ≤ 2147483647) : SkyPoint.IntCoords (intTuple x y).d :=
  Fin.forall_fin_two.mpr ⟨⟨x, rfl, hx⟩, ⟨y, rfl, hy⟩⟩

/-- Tuples are compared by their coordinates. -/
theorem intTuple_le {a b c d : Int} (hac : a ≤ c) (hbd : b ≤ d) :
    (intTuple a b).d ≤ (intTuple c d).d :=
  Fin.forall_fin_two.mpr ⟨Int.cast_le.mpr hac, Int.cast_le.mpr hbd⟩

/-- The points of a leaf. -/
def leafPoints : List (SkyPoint 2) := [⟨10, intTuple 0 7⟩, ⟨11, intTuple 1 4⟩]

/-- The points of another leaf. -/
def leafPoints' : List (SkyPoint 2) := [⟨12, intTuple 5 2⟩, ⟨13, intTuple 3 2⟩]

/-- An index node over two leaves. -/
def twoLeaves : RTree 2 where
  rootId := 0
  node := fun id =>
    if id = 0 then some (.index [(1, ⟨(intTuple 0 4).d, (intTuple 1 7).d⟩),
      (2, ⟨(intTuple 3 2).d, (intTuple 5 2).d⟩)])
    else if id = 1 then some (.leaf leafPoints)
    else some (.leaf leafPoints')

/-- The points of both leaves have integer coordinates. -/
theorem intCoords_leafPoints : ∀ p ∈ leafPoints ++ leafPoints', SkyPoint.IntCoords p.t.d := by
  simp only [leafPoints, leafPoints', List.cons_append, List.nil_append, List.forall_mem_cons]
  refine ⟨?_, ?_, ?_, ?_, fun _ h => absurd h List.not_mem_nil⟩ <;>
    exact intTuple_intCoords (by decide) (by decide)

/-- The tree of two levels holds the points of its leaves, each in the region of its entry. -/
theorem twoLeaves_holds : twoLeaves.Holds (leafPoints ++ leafPoints') := by
  have hleaf : ∀ p ∈ leafPoints,
      (⟨(intTuple 0 4).d, (intTuple 1 7).d⟩ : Region 2).Contains p := by
    simp only [leafPoints, List.forall_mem_cons]
    refine ⟨⟨?_, ?_⟩, ⟨?_, ?_⟩, fun _ h => absurd h List.not_mem_nil⟩ <;>
      exact intTuple_le (by decide) (by decide)
  have hleaf' : ∀ p ∈ leafPoints',
      (⟨(intTuple 3 2).d, (intTuple 5 2).d⟩ : Region 2).Contains p := by
    simp only [leafPoints', List.forall_mem_cons]
    refine ⟨⟨?_, ?_⟩, ⟨?_, ?_⟩, fun _ h => absurd h List.not_mem_nil⟩ <;>
      exact intTuple_le (by decide) (by decide)
  have hsub : twoLeaves.Subtree 1 leafPoints 1 := .leaf rfl
  have hsub' : twoLeaves.Subtree 2 leafPoints' 1 := .leaf rfl
  have hcorners : (⟨(intTuple 0 4).d, (intTuple 1 7).d⟩ : Region 2).IntCorners := by
    constructor <;> exact intTuple_intCoords (by decide) (by decide)
  have hcorners' : (⟨(intTuple 3 2).d, (intTuple 5 2).d⟩ : Region 2).IntCorners := by
    constructor <;> exact intTuple_intCoords (by decide) (by decide)
  exact ⟨_, .index rfl (.cons hsub (by decide) hleaf hcorners
    (.cons hsub' (by decide) hleaf' hcorners' .nil))⟩

/-- Queries on a tree of two levels, and four tuples received: the second one dominates the first one, which
is removed before the insertion, and comes twice. -/
theorem checker_exact_witness :
    (∃ n q, (∀ fuel, n ≤ fuel → twoLeaves.queryStrategy (dominanceQuery (fun _ => 7)
        ⟨20, intTuple 1 2⟩ .dominates .maxCorner) fuel ⟨false, [], []⟩ = some q) ∧
      q.own.Perm [⟨11, intTuple 1 4⟩, ⟨12, intTuple 5 2⟩, ⟨13, intTuple 3 2⟩]) ∧
    (∃ n q, (∀ fuel, n ≤ fuel → twoLeaves.queryStrategy (skylineQuery (fun _ => 7)
        ⟨20, intTuple 1 2⟩) fuel ⟨false, [], true⟩ = some q) ∧ q.own = true) ∧
    ∃ n db, (∀ fuel, n ≤ fuel → check leafUpdates (fun _ => 7) fuel 0
        [intTuple 4 4, intTuple 1 3, intTuple 3 1, intTuple 1 3] (new 2) = some db) ∧
      ∃ ps, db.rtree.Holds ps ∧ db.size = ps.length ∧
        (ps.map SkyPoint.t).Perm [intTuple 1 3, intTuple 3 1, intTuple 1 3] := by
  obtain ⟨hqueries, hcheck⟩ := checker_exact 2 fun _ => 7
  obtain ⟨⟨n, q, hrun, hq⟩, n', q', hrun', hq'⟩ := hqueries twoLeaves (leafPoints ++ leafPoints')
    ⟨20, intTuple 1 2⟩ twoLeaves_holds intCoords_leafPoints
    (intTuple_intCoords (by decide) (by decide))
  obtain ⟨n'', db, hrun'', ps, hholds, hsize, hps⟩ := hcheck leafUpdates OneLeaf leafUpdates_correct
    [intTuple 4 4, intTuple 1 3, intTuple 3 1, intTuple 1 3] (by
      simp only [List.forall_mem_cons]
      refine ⟨?_, ?_, ?_, ?_, fun _ h => absurd h List.not_mem_nil⟩ <;>
        exact intTuple_intCoords (by decide) (by decide))
  exact ⟨⟨n, q, hrun, hq.trans (List.Perm.of_eq (by decide +kernel))⟩,
    ⟨n', q', hrun', hq'.mpr (by decide +kernel)⟩,
    n'', db, hrun'', ps, hholds, hsize, hps.trans (List.Perm.of_eq (by decide +kernel))⟩

end SkyRTree

end ElasticPPQ
