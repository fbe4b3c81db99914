import ElasticPPQ.Checker.SkyRTree
import ElasticPPQ.Query.SkySet

/-! # The verdict of the skyline checker

The function `main` of `skyline_checker.cpp`. The tuples received go into the R-tree, and block by block
into results sets that are merged in the end; the two skylines are sorted and compared. The function
`std::sort` is a parameter, of which only the documented behaviour is known (`SortsBy`).

The two results always have the same size, that of the skyline of the tuples received, and the verdict is
that they are equal, unless distinct points of the skyline have the same generator timestamp
(`SkylineChecker.main_agrees`): the order of these is left to the sort. -/

namespace ElasticPPQ

/-! ## Sorting -/

/-- What is known of a sort by `less`: it rearranges the elements, and none is less than an earlier one.
The order of elements neither of which is less than the other is not specified. -/
def SortsBy {τ : Type*} (less : τ → τ → Bool) (sort : List τ → List τ) : Prop :=
  ∀ l, (sort l).Perm l ∧ (sort l).Pairwise fun a b => less b a = false

/-- If elements with the same key look alike, two arrangements sorted by the key look alike. -/
theorem map_eq_of_sorted {τ κ δ : Type*} [LinearOrder κ] (key : τ → κ) {look : τ → δ} {l l' : List τ}
    (hperm : l.Perm l') (hl : l.Pairwise fun a b => key a ≤ key b)
    (hl' : l'.Pairwise fun a b => key a ≤ key b)
    (halike : ∀ a ∈ l, ∀ b ∈ l, key a = key b → look a = look b) : l.map look = l'.map look := by
  -- sorted by the same keys, both lists show the same pairs of key and image
  have hpairs : l.map (fun a => (key a, look a)) = l'.map fun a => (key a, look a) := by
    have hkeys : ∀ {l : List τ}, l.Pairwise (fun a b => key a ≤ key b) →
        (l.map fun a => (key a, look a)).Pairwise fun x y => x.1 ≤ y.1 := fun h => by
      rw [List.pairwise_map]
      exact h
    refine List.Perm.eq_of_pairwise ?_ (hkeys hl) (hkeys hl') (hperm.map _)
    intro x y hx hy hxy hyx
    obtain ⟨a, ha, rfl⟩ := List.mem_map.mp hx
    obtain ⟨b, hb, rfl⟩ := List.mem_map.mp hy
    have hkey : key a = key b := le_antisymm hxy hyx
    exact Prod.ext hkey (halike a ha b (hperm.mem_iff.mpr hb) hkey)
  have hsnd := congrArg (List.map Prod.snd) hpairs
  rwa [List.map_map, List.map_map] at hsnd

namespace Row

variable {DIM : Nat}

/-- `operator<` of `tuple_t`. The elements that `std::sort` compares can be changed, so that this member is
preferred to the free function of the checker, the first argument of which cannot. -/
def less (a b : Row ℚ DIM) : Bool := decide (a.genTs < b.genTs)

/-- `operator!=` of `tuple_t`, of which only the coordinates count. -/
def differs (a b : Row ℚ DIM) : Bool := decide (a.d ≠ b.d)

/-- The loop of the comparison: some pair of tuples at the same index differs. -/
theorem any_differs {l l' : List (Row ℚ DIM)} (h : l.map Row.d = l'.map Row.d) :
    (l.zip l').any (fun x => x.1.differs x.2) = false := by
  induction l generalizing l' with
  | nil => rfl
  | cons a l ih =>
      obtain ⟨b, l', rfl⟩ := List.exists_cons_of_length_eq_add_one (l := l') (n := l.length) (by
        have hlength := congrArg List.length h
        simpa using hlength.symm)
      obtain ⟨hab, hrest⟩ := List.cons.inj h
      rw [List.zip_cons_cons, List.any_cons, ih hrest, Bool.or_false]
      exact decide_eq_false (not_not.mpr hab)

end Row

/-! ## The function `main` -/

/-- What the checker prints. -/
inductive Verdict
  /-- `True`, with the size of the skyline. -/
  | equal (size : Nat)
  /-- `False`, with the sizes of the two results. -/
  | different (mySize treeSize : Nat)
  deriving DecidableEq

/-- The variables of `main`. -/
structure SkylineChecker (k : Nat) where
  /-- The R-tree. -/
  db : SkyRTree (k + 2)
  /-- The results sets of the blocks. -/
  panes : List (SkySet ℚ k)
  /-- The number of tuples received. -/
  rcvCount : Nat

namespace SkylineChecker

variable {k : Nat} (U : RTree.Updates (k + 2)) (u : ℚ → Int)

/-- The variables as initialized. -/
def new (k numBlocks : Nat) : SkylineChecker k :=
  ⟨.new (k + 2), List.replicate numBlocks PrefQuery.new, 0⟩

/-- The body of the loop: a tuple is received. An access past the end of the array of blocks is
`none`. -/
def receive (fuel sizeBlock : Nat) (t : Row ℚ (k + 2)) (x : SkylineChecker k) :
    Option (SkylineChecker k) := do
  let idBlock ← if sizeBlock = 0 then none else some (x.rcvCount / sizeBlock)
  let pane ← x.panes[idBlock]?
  let db ← x.db.receive U u fuel x.rcvCount t
  some ⟨db, x.panes.set idBlock (pane.addComputeTuple t), x.rcvCount + 1⟩

/-- The loop: `numTuples` tuples are received at most. -/
def receiveAll (fuel sizeBlock numTuples : Nat) :
    List (Row ℚ (k + 2)) → SkylineChecker k → Option (SkylineChecker k)
  | [], x => some x
  | t :: ts, x => do
      let x ← x.receive U u fuel sizeBlock t
      if x.rcvCount = numTuples then some x else receiveAll fuel sizeBlock numTuples ts x

/-- The point with small coordinates, which is to dominate all others. -/
def pointMin (addr : Nat) : SkyPoint (k + 2) := ⟨addr, ⟨fun _ => -10000000, 0, 0⟩⟩

/-- `main`, for the tuples `ts` that the generator sends. -/
def main (sort : List (Row ℚ (k + 2)) → List (Row ℚ (k + 2))) (fuel numBlocks sizeBlock : Nat)
    (ts : List (Row ℚ (k + 2))) : Option Verdict := do
  let numTuples := numBlocks * sizeBlock
  let x ← receiveAll U u fuel sizeBlock numTuples ts (new k numBlocks)
  -- merge the skylines of the blocks
  let win := x.panes.foldl SkySet.addComputeSet PrefQuery.new
  let result₁ := win.s.rows
  let removed ← x.db.getDominatedPoints u fuel (pointMin numTuples)
  if result₁.length ≠ removed.length then some (.different result₁.length removed.length)
  else
    let sorted₁ := sort result₁
    let sorted₂ := sort (removed.map SkyPoint.t)
    if (sorted₁.zip sorted₂).any fun y => y.1.differs y.2 then
      some (.different result₁.length removed.length)
    else some (.equal result₁.length)

/-! ## What has been received -/

open Pareto

/-- The tuples `m` have been received: each of them has been fed to the results set of a block, and the
R-tree stores their skyline. -/
structure Received (Inv : RTree (k + 2) → List (SkyPoint (k + 2)) → Prop) (numBlocks : Nat)
    (x : SkylineChecker k) (m : Multiset (Row ℚ (k + 2))) : Prop where
  blocks : ∃ bs : List (Build (Row ℚ (k + 2))), bs.length = numBlocks ∧
    x.panes = bs.map (Build.eval (SkySet ℚ k)) ∧ (bs.map Build.tuples).sum = m
  skyline : x.db.StoresSkyline Inv m
  rcvCount : x.rcvCount = m.card

variable {U} {Inv : RTree (k + 2) → List (SkyPoint (k + 2)) → Prop} {numBlocks sizeBlock : Nat}
  {x : SkylineChecker k} {m : Multiset (Row ℚ (k + 2))}

/-- The checker as constructed has received nothing. -/
theorem new_received (hU : U.Correct Inv) (numBlocks : Nat) :
    (new k numBlocks).Received Inv numBlocks 0 where
  blocks := by
    refine ⟨List.replicate numBlocks .empty, List.length_replicate, ?_, ?_⟩
    · rw [List.map_replicate]
      rfl
    · rw [List.map_replicate, List.sum_replicate]
      exact nsmul_zero _
  skyline := ⟨[], ⟨hU.new, rfl, fun _ hp => absurd hp List.not_mem_nil⟩, rfl⟩
  rcvCount := rfl

/-- **A tuple is received**, if there is a block left for it. -/
theorem Received.receive (hU : U.Correct Inv) (h : x.Received Inv numBlocks m) {t : Row ℚ (k + 2)}
    (ht : SkyPoint.IntCoords t.d) {sizeBlock : Nat} (hlt : m.card < numBlocks * sizeBlock) :
    ∃ n x', (∀ fuel, n ≤ fuel → x.receive U u fuel sizeBlock t = some x') ∧
      x'.Received Inv numBlocks (m + {t}) := by
  obtain ⟨bs, hlen, hpanes, hsum⟩ := h.blocks
  obtain ⟨n, db, hdb, hskyline⟩ := h.skyline.receive u hU ht x.rcvCount
  have hsize : sizeBlock ≠ 0 := by
    rintro rfl
    exact absurd hlt (Nat.not_lt_zero _)
  -- the block of the tuple: the blocks are filled one after the other
  obtain ⟨i, hi⟩ : ∃ i, i = x.rcvCount / sizeBlock := ⟨_, rfl⟩
  have hib : i < bs.length := by
    rw [hi, hlen, h.rcvCount]
    exact Nat.div_lt_of_lt_mul (by rwa [Nat.mul_comm])
  obtain ⟨A, B, hbs, -, hset⟩ : ∃ A B, bs = A ++ bs[i] :: B ∧ A.length = i ∧
      bs.set i (.addTuple bs[i] t) = A ++ .addTuple bs[i] t :: B := List.exists_of_set hib
  refine ⟨n, ⟨db, x.panes.set i ((bs[i].eval (SkySet ℚ k)).addComputeTuple t), x.rcvCount + 1⟩,
    fun fuel hfuel => ?_, ⟨bs.set i (.addTuple bs[i] t), ?_, ?_, ?_⟩, hskyline, ?_⟩
  · have hget : x.panes[i]? = some (bs[i].eval (SkySet ℚ k)) := by
      rw [hpanes, List.getElem?_map, List.getElem?_eq_getElem hib]
      rfl
    rw [SkylineChecker.receive, if_neg hsize, ← hi]
    show (x.panes[i]?.bind fun pane => _) = _
    rw [hget, Option.bind_some, hdb fuel hfuel]
    rfl
  · rw [List.length_set, hlen]
  · rw [hpanes, List.map_set]
    rfl
  -- only that block grows, so the tuples of all blocks grow by one
  · have hold : (A.map Build.tuples).sum + (bs[i].tuples + (B.map Build.tuples).sum) = m := by
      have hall := congrArg (fun l => (l.map Build.tuples).sum) hbs
      rw [← hsum]
      simpa using hall.symm
    rw [hset, List.map_append, List.map_cons, List.sum_append, List.sum_cons, Build.tuples, ← hold]
    abel
  · show x.rcvCount + 1 = _
    rw [h.rcvCount, Multiset.card_add, Multiset.card_singleton]

/-- **The loop receives the first tuples**, as many as fit into the blocks. -/
theorem Received.receiveAll (hU : U.Correct Inv) {ts : List (Row ℚ (k + 2))} {left : Nat}
    (h : x.Received Inv numBlocks m) (hleft : m.card + (left + 1) = numBlocks * sizeBlock)
    (hts : ∀ t ∈ ts.take (left + 1), SkyPoint.IntCoords t.d) :
    ∃ n x', (∀ fuel, n ≤ fuel →
        x.receiveAll U u fuel sizeBlock (numBlocks * sizeBlock) ts = some x') ∧
      x'.Received Inv numBlocks (m + (ts.take (left + 1) : List (Row ℚ (k + 2)))) := by
  induction ts generalizing x m left with
  | nil =>
      refine ⟨0, x, fun _ _ => rfl, ?_⟩
      rw [List.take_nil, Multiset.coe_nil, add_zero]
      exact h
  | cons t ts ih =>
      have hlt : m.card < numBlocks * sizeBlock := by omega
      obtain ⟨n, x₁, hrun, h₁⟩ := h.receive u hU (hts t (by simp)) hlt
      have hcount : x₁.rcvCount = m.card + 1 := by
        rw [h₁.rcvCount, Multiset.card_add, Multiset.card_singleton]
      cases left with
      | zero =>
          -- the last tuple that is received
          refine ⟨n, x₁, fun fuel hfuel => ?_, ?_⟩
          · rw [SkylineChecker.receiveAll, hrun fuel hfuel]
            exact if_pos (hcount.trans hleft)
          · rwa [List.take_succ_cons, List.take_zero, Multiset.coe_singleton]
      | succ left =>
          have hleft₁ : (m + {t}).card + (left + 1) = numBlocks * sizeBlock := by
            rw [Multiset.card_add, Multiset.card_singleton]
            omega
          obtain ⟨n', x₂, hrun', h₂⟩ := ih h₁ hleft₁ fun s hs => hts s (by
            rw [List.take_succ_cons]
            exact List.mem_cons_of_mem t hs)
          refine ⟨max n n', x₂, fun fuel hfuel => ?_, ?_⟩
          · rw [SkylineChecker.receiveAll, hrun fuel (le_of_max_le_left hfuel)]
            refine (if_neg ?_).trans (hrun' fuel (le_of_max_le_right hfuel))
            omega
          · rwa [List.take_succ_cons, ← Multiset.cons_coe, ← Multiset.singleton_add, ← add_assoc]

/-! ## The two results -/

/-- The results sets of the blocks are merged. -/
theorem foldl_addSet (bs : List (Build (Row ℚ (k + 2)))) (b : Build (Row ℚ (k + 2))) :
    (bs.map (Build.eval (SkySet ℚ k))).foldl SkySet.addComputeSet (b.eval (SkySet ℚ k)) =
        (bs.foldl .addSet b).eval (SkySet ℚ k) ∧
      (bs.foldl .addSet b).tuples = b.tuples + (bs.map Build.tuples).sum := by
  induction bs generalizing b with
  | nil => exact ⟨rfl, (add_zero _).symm⟩
  | cons b' bs ih =>
      obtain ⟨heval, htuples⟩ := ih (.addSet b b')
      refine ⟨heval, htuples.trans ?_⟩
      rw [List.map_cons, List.sum_cons, Build.tuples, add_assoc]

/-- The merged results set holds the skyline of the tuples received. -/
theorem Received.win (h : x.Received Inv numBlocks m) :
    (x.panes.foldl SkySet.addComputeSet PrefQuery.new).toMultiset = nondominated Row.Dominates m := by
  obtain ⟨bs, -, hpanes, hsum⟩ := h.blocks
  obtain ⟨heval, htuples⟩ := foldl_addSet bs .empty
  rw [Build.tuples, zero_add, hsum] at htuples
  rw [hpanes, ← htuples, ← SkySet.toMultiset_eval]
  exact congrArg SkySet.toMultiset heval

/-- The points of the R-tree that `pointMin` dominates are the skyline too, if it dominates all the tuples
received. -/
theorem Received.getDominatedPoints (hU : U.Correct Inv) (h : x.Received Inv numBlocks m) (addr : Nat)
    (hmin : ∀ t ∈ m, (pointMin addr).t.Dominates t) :
    ∃ n removed, (∀ fuel, n ≤ fuel → x.db.getDominatedPoints u fuel (pointMin addr) = some removed) ∧
      (removed.map SkyPoint.t : Multiset (Row ℚ (k + 2))) = nondominated Row.Dominates m := by
  obtain ⟨ps, hstores, hskyline⟩ := h.skyline
  have hint : SkyPoint.IntCoords (pointMin (k := k) addr).t.d := fun _ => ⟨-10000000, by
    show (-10000000 : ℚ) = _
    norm_num, by decide⟩
  obtain ⟨n, q, hrun, hperm⟩ := dominanceQuery_spec (hU.holds _ _ hstores.tree) hstores.int hint u
  refine ⟨n, q.own, fun fuel hfuel => ?_, ?_⟩
  · rw [SkyRTree.getDominatedPoints, hrun fuel hfuel]
    rfl
  -- the point below everything dominates the whole skyline
  · have hall : (ps.filter fun p => (pointMin addr).t.Dominates p.t) = ps := by
      refine List.filter_eq_self.mpr fun p hp => decide_eq_true (hmin p.t ?_)
      have hmem : p.t ∈ nondominated Row.Dominates m := by
        rw [← hskyline]
        exact Multiset.mem_coe.mpr (List.mem_map_of_mem hp)
      exact Multiset.mem_of_le (Multiset.filter_le _ _) hmem
    rw [hall] at hperm
    rw [← hskyline]
    exact Multiset.coe_eq_coe.mpr (hperm.map _)

/-! ## The verdict -/

/-- The tuples that are received: those that fit into the blocks. -/
def received (numBlocks sizeBlock : Nat) (ts : List (Row ℚ (k + 2))) : List (Row ℚ (k + 2)) :=
  ts.take (numBlocks * sizeBlock)

/-- The tuples that no other one dominates. -/
def skyline (ts : List (Row ℚ (k + 2))) : List (Row ℚ (k + 2)) :=
  ts.filter fun t => ∀ q ∈ ts, ¬ q.Dominates t

/-- The reference skyline is what no received tuple dominates. -/
theorem coe_skyline (ts : List (Row ℚ (k + 2))) :
    (skyline ts : Multiset (Row ℚ (k + 2))) = nondominated Row.Dominates ts := by
  rw [skyline, nondominated, Multiset.filter_coe]
  simp only [Multiset.mem_coe]

/-- Two arrangements of a skyline are compared: the verdict is that they are equal, unless distinct points
have the same generator timestamp. -/
theorem sorted_agree {sort : List (Row ℚ (k + 2)) → List (Row ℚ (k + 2))} (hsort : SortsBy Row.less sort)
    {l l' : List (Row ℚ (k + 2))} (hperm : l.Perm l')
    (halike : ∀ a ∈ l, ∀ b ∈ l, a.genTs = b.genTs → a.d = b.d) :
    ((sort l).zip (sort l')).any (fun y => y.1.differs y.2) = false := by
  have hsorted : ∀ l, (sort l).Pairwise fun a b => a.genTs ≤ b.genTs := fun l =>
    (hsort l).2.imp fun h => not_lt.mp (of_decide_eq_false h)
  refine Row.any_differs (map_eq_of_sorted Row.genTs ?_ (hsorted l) (hsorted l') ?_)
  · exact (hsort l).1.trans (hperm.trans (hsort l').1.symm)
  · intro a ha b hb
    exact halike a ((hsort l).1.mem_iff.mp ha) b ((hsort l).1.mem_iff.mp hb)

/-- **The verdict of the checker.** Whatever the blocks, the tree and the sort, for tuples the coordinates
of which are integers in the range of `int` and that the point with small coordinates dominates, the two
results have the size of the skyline of the tuples received; and the verdict is that they are equal, if
points of the skyline with the same generator timestamp have the same coordinates. -/
theorem main_agrees (hU : U.Correct Inv) {sort : List (Row ℚ (k + 2)) → List (Row ℚ (k + 2))}
    (hsort : SortsBy Row.less sort) (hblocks : 1 ≤ numBlocks) (hsize : 1 ≤ sizeBlock)
    (ts : List (Row ℚ (k + 2))) (hint : ∀ t ∈ received numBlocks sizeBlock ts, SkyPoint.IntCoords t.d)
    (hmin : ∀ t ∈ received numBlocks sizeBlock ts, (pointMin 0).t.Dominates t)
    {size : Nat} (hsky : (skyline (received numBlocks sizeBlock ts)).length = size) :
    ∃ n v, (∀ fuel, n ≤ fuel → main U u sort fuel numBlocks sizeBlock ts = some v) ∧
      (v = .equal size ∨ v = .different size size) ∧
      ((∀ a ∈ skyline (received numBlocks sizeBlock ts), ∀ b ∈ skyline (received numBlocks sizeBlock ts),
        a.genTs = b.genTs → a.d = b.d) → v = .equal size) := by
  obtain ⟨left, hleft⟩ : ∃ left, numBlocks * sizeBlock = left + 1 :=
    ⟨_, (Nat.succ_pred_eq_of_pos (Nat.mul_pos hblocks hsize)).symm⟩
  have hnone : (0 : Multiset (Row ℚ (k + 2))).card + (left + 1) = numBlocks * sizeBlock := by
    rw [Multiset.card_zero, hleft, zero_add]
  rw [received, hleft] at hint
  obtain ⟨n, x, hrun, hreceived⟩ := (new_received hU numBlocks).receiveAll u hU hnone hint
  rw [zero_add, ← hleft] at hreceived
  obtain ⟨n', removed, hremoved, hskyline⟩ := hreceived.getDominatedPoints u hU (numBlocks * sizeBlock)
    fun t ht => hmin t (Multiset.mem_coe.mp ht)
  obtain ⟨win, hwin⟩ : ∃ win, win = x.panes.foldl SkySet.addComputeSet PrefQuery.new := ⟨_, rfl⟩
  have hmine : win.s.rows.Perm (skyline (received numBlocks sizeBlock ts)) := by
    rw [← Multiset.coe_eq_coe, coe_skyline, received, ← hreceived.win, ← hwin]
    rfl
  have htree : (removed.map SkyPoint.t).Perm (skyline (received numBlocks sizeBlock ts)) := by
    rw [← Multiset.coe_eq_coe, coe_skyline, received, ← hskyline]
  -- the sizes are the same
  have hlength : removed.length = win.s.rows.length := by
    have hlength := (htree.trans hmine.symm).length_eq
    rwa [List.length_map] at hlength
  obtain ⟨differ, hdiffer⟩ : ∃ differ, differ = ((sort win.s.rows).zip
    (sort (removed.map SkyPoint.t))).any fun y => y.1.differs y.2 := ⟨_, rfl⟩
  refine ⟨max n n', if differ then .different win.s.rows.length removed.length
    else .equal win.s.rows.length, fun fuel hfuel => ?_, ?_, fun halike => ?_⟩
  · rw [main, hrun fuel (le_of_max_le_left hfuel)]
    show ((x.db.getDominatedPoints u fuel (pointMin (numBlocks * sizeBlock))).bind fun removed => _) = _
    rw [hremoved fuel (le_of_max_le_right hfuel), Option.bind_some, ← hwin,
      if_neg (not_not.mpr hlength.symm)]
    show (if _ then _ else _) = _
    rw [← hdiffer]
    split <;> rfl
  · rw [hlength, hmine.length_eq, hsky]
    split
    · exact Or.inr rfl
    · exact Or.inl rfl
  · rw [hdiffer, sorted_agree hsort (hmine.trans htree.symm) fun a ha b hb =>
      halike a (hmine.mem_iff.mp ha) b (hmine.mem_iff.mp hb), hmine.length_eq, hsky]
    rfl

/-- A sort by the generator timestamps. -/
def stampSort (l : List (Row ℚ 2)) : List (Row ℚ 2) :=
  l.mergeSort fun a b => decide (a.genTs ≤ b.genTs)

/-- The sort by insertion sorts by generator timestamps. -/
theorem stampSort_sortsBy : SortsBy Row.less stampSort := by
  intro l
  refine ⟨List.mergeSort_perm l _, ?_⟩
  have hsorted : (stampSort l).Pairwise fun a b => decide (a.genTs ≤ b.genTs) = true := by
    refine List.pairwise_mergeSort (fun a b c hab hbc => ?_) (fun a b => ?_) l
    · exact decide_eq_true ((of_decide_eq_true hab).trans (of_decide_eq_true hbc))
    · simpa using le_total a.genTs b.genTs
  exact hsorted.imp fun hab => decide_eq_false (not_lt.mpr (of_decide_eq_true hab))

/-- Five tuples with generator timestamps, of which the last one comes after the second block. -/
def stampedTuples : List (Row ℚ 2) :=
  [⟨![1, 3], 0, 1⟩, ⟨![4, 4], 0, 2⟩, ⟨![3, 1], 0, 3⟩, ⟨![1, 3], 0, 4⟩, ⟨![0, 0], 0, 5⟩]

/-- The four tuples of the blocks have a skyline of three. -/
theorem main_agrees_witness :
    ∃ n, ∀ fuel, n ≤ fuel →
      main SkyRTree.leafUpdates (fun _ => 7) stampSort fuel 2 2 stampedTuples = some (.equal 3) := by
  have hint : ∀ t ∈ received 2 2 stampedTuples, SkyPoint.IntCoords t.d := by
    simp only [received, stampedTuples, List.take_succ_cons, List.take_zero, List.forall_mem_cons]
    refine ⟨?_, ?_, ?_, ?_, fun _ h => absurd h List.not_mem_nil⟩
    · exact Fin.forall_fin_two.mpr ⟨⟨1, by simp⟩, ⟨3, by simp⟩⟩
    · exact Fin.forall_fin_two.mpr ⟨⟨4, by simp⟩, ⟨4, by simp⟩⟩
    · exact Fin.forall_fin_two.mpr ⟨⟨3, by simp⟩, ⟨1, by simp⟩⟩
    · exact Fin.forall_fin_two.mpr ⟨⟨1, by simp⟩, ⟨3, by simp⟩⟩
  obtain ⟨n, v, hrun, -, hequal⟩ := main_agrees (k := 0) (fun _ => 7) SkyRTree.leafUpdates_correct
    stampSort_sortsBy (show 1 ≤ 2 by decide) (show 1 ≤ 2 by decide) stampedTuples hint
    (by decide +kernel) (show (skyline (received 2 2 stampedTuples)).length = 3 by decide +kernel)
  exact ⟨n, fun fuel hfuel => (hrun fuel hfuel).trans (congrArg some (hequal (by decide +kernel)))⟩

end SkylineChecker

end ElasticPPQ
