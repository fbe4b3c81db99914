import ElasticPPQ.Checker.SkyPoint
import ElasticPPQ.Lib.Forest
import ElasticPPQ.Lib.Loops

/-! # The queries of the skyline checker

The classes `GenericQuery`, `DominanceQuery` and `SkylineQuery` (`skyline_checker.cpp`), run by the
method `queryStrategy` of the R-tree (`RTree.cc`). A query visits the nodes of the tree in the order
of a queue and prunes the children whose corner shows that there is nothing to find beneath them; it
may stop early.

What a query knows on its way depends on the points it has not seen yet. If handling a point, or
pushing or pruning a child, keeps such knowledge (`Handlers.Explores`), then the query ends with
it, in every tree whose regions contain the points beneath them (`RTree.Holds`). -/

namespace ElasticPPQ

variable {DIM : Nat} {σ : Type}

/-! ## The tree -/

/-- A node of the R-tree: the points of a leaf, or the children of an index node with their regions. -/
inductive RTree.Node (DIM : Nat) where
  | leaf (children : List (SkyPoint DIM))
  | index (children : List (Nat × Region DIM))

/-- The R-tree: the identifier of its root, and the nodes in the storage. -/
structure RTree (DIM : Nat) where
  rootId : Nat
  node : Nat → Option (RTree.Node DIM)

namespace RTree

/-- `createNewRTree`: the root is a leaf without points. -/
def new (DIM : Nat) : RTree DIM := ⟨0, fun id => if id = 0 then some (.leaf []) else none⟩

mutual

/-- `Subtree T id ps n`: beneath the node `id` are the points `ps` and `n` nodes. -/
inductive Subtree (T : RTree DIM) : Nat → List (SkyPoint DIM) → Nat → Prop
  | leaf {id : Nat} {ps : List (SkyPoint DIM)} :
      T.node id = some (.leaf ps) → Subtree T id ps 1
  | index {id : Nat} {cs : List (Nat × Region DIM)} {ps : List (SkyPoint DIM)} {n : Nat} :
      T.node id = some (.index cs) → Children T cs ps n → Subtree T id ps (n + 1)

/-- The children of an index node: no subtree is empty, and each region contains the points beneath
it. -/
inductive Children (T : RTree DIM) : List (Nat × Region DIM) → List (SkyPoint DIM) → Nat → Prop
  | nil : Children T [] [] 0
  | cons {id : Nat} {r : Region DIM} {cs : List (Nat × Region DIM)} {ps qs : List (SkyPoint DIM)}
      {m n : Nat} : Subtree T id ps m → ps ≠ [] → (∀ p ∈ ps, r.Contains p) → r.IntCorners →
      Children T cs qs n → Children T ((id, r) :: cs) (ps ++ qs) (m + n)

end

/-- The points stored in the tree. -/
def Holds (T : RTree DIM) (ps : List (SkyPoint DIM)) : Prop := ∃ n, T.Subtree T.rootId ps n

end RTree

/-! ## `GenericQuery` -/

/-- The members of `GenericQuery` with those of the derived class. -/
structure GenericQuery (σ : Type) where
  stop : Bool
  ids : List Nat
  /-- The members of the derived class. -/
  own : σ

/-- The methods that a derived class implements. -/
structure Handlers (σ : Type) (DIM : Nat) where
  handleIndex : Nat → Region DIM → GenericQuery σ → GenericQuery σ
  handleLeaf : SkyPoint DIM → GenericQuery σ → GenericQuery σ

namespace GenericQuery

/-- The loops of `getNextEntry` over the children of a node. -/
def handleChildren (H : Handlers σ DIM) : RTree.Node DIM → GenericQuery σ → GenericQuery σ
  | .leaf children, q => children.foldl (fun q c => H.handleLeaf c q) q
  | .index children, q => children.foldl (fun q c => H.handleIndex c.1 c.2 q) q

/-- `getNextEntry`: the next entry, if there is one. -/
def getNextEntry (H : Handlers σ DIM) (n : RTree.Node DIM) (q : GenericQuery σ) :
    Option Nat × GenericQuery σ :=
  let q := handleChildren H n q
  match q.ids with
  | [] => (none, q)
  | id :: ids => if q.stop then (none, q) else (some id, { q with ids := ids })

end GenericQuery

/-- The variables of the loop of `queryStrategy`. -/
structure Visit (σ : Type) where
  next : Nat
  hasNext : Bool
  qs : GenericQuery σ

namespace Visit

/-- `while (hasNext)`. -/
def cond (x : Visit σ) : Bool := x.hasNext

/-- The variables after a call of `getNextEntry`. -/
def after (x : Visit σ) : Option Nat × GenericQuery σ → Visit σ
  | (some id, q) => ⟨id, true, q⟩
  | (none, q) => ⟨x.next, false, q⟩

/-- The body of the loop. A node that is not in the storage is an error. -/
def body (T : RTree DIM) (H : Handlers σ DIM) (x : Visit σ) : Option (Visit σ) := do
  let n ← T.node x.next
  some (x.after (GenericQuery.getNextEntry H n x.qs))

end Visit

namespace RTree

/-- `queryStrategy`, for `fuel` nodes at most. -/
def queryStrategy (H : Handlers σ DIM) (fuel : Nat) (q : GenericQuery σ) (T : RTree DIM) :
    Option (GenericQuery σ) :=
  (runWhile Visit.cond (Visit.body T H) fuel ⟨T.rootId, true, q⟩).result.map Visit.qs

end RTree

/-! ## The two queries -/

/-- `DominanceQuery`, with its list `pts`: the points in relation `mode` to `pt`. -/
def dominanceQuery (u : ℚ → Int) (pt : SkyPoint DIM) (mode : Relation) (corner : Corner) :
    Handlers (List (SkyPoint DIM)) DIM where
  handleIndex := fun id region q =>
    if pt.dominanceRegion u region mode corner then { q with ids := q.ids ++ [id] } else q
  handleLeaf := fun candidate q =>
    if pt.dominancePoint u candidate mode then { q with own := q.own ++ [candidate] } else q

/-- `SkylineQuery`, with its flag `isSkyline`. -/
def skylineQuery (u : ℚ → Int) (pt : SkyPoint DIM) : Handlers Bool DIM where
  handleIndex := fun id region q =>
    if pt.dominanceRegion u region .isDominated .maxCorner then
      { q with own := false, stop := true }
    else if pt.dominanceRegion u region .isDominated .minCorner then
      { q with ids := q.ids ++ [id] }
    else q
  handleLeaf := fun candidate q =>
    if pt.dominancePoint u candidate .isDominated then { q with own := false, stop := true }
    else q

/-! ## Exploring a tree -/

/-- What a query knows, `P rs q`, when it has not seen the points `rs` yet: a point is seen, and the
points beneath a child are put off or found to be of no interest. -/
structure Handlers.Explores (H : Handlers σ DIM) (P : List (SkyPoint DIM) → GenericQuery σ → Prop) :
    Prop where
  leaf : ∀ c rs q, P (c :: rs) q → P rs (H.handleLeaf c q) ∧ (H.handleLeaf c q).ids = q.ids
  index : ∀ id r ps rs q, ps ≠ [] → (∀ p ∈ ps, r.Contains p) → r.IntCorners → P (ps ++ rs) q →
    (P (rs ++ ps) (H.handleIndex id r q) ∧ (H.handleIndex id r q).ids = q.ids ++ [id]) ∨
      (P rs (H.handleIndex id r q) ∧ (H.handleIndex id r q).ids = q.ids)
  ids : ∀ rs q ids, P rs q → P rs { q with ids := ids }

namespace Handlers.Explores

variable {H : Handlers σ DIM} {P : List (SkyPoint DIM) → GenericQuery σ → Prop} {T : RTree DIM}

/-- The points of a leaf. -/
theorem leaves (h : H.Explores P) {ps rs : List (SkyPoint DIM)} {q : GenericQuery σ}
    (hP : P (ps ++ rs) q) :
    P rs (GenericQuery.handleChildren H (.leaf ps) q) ∧
      (GenericQuery.handleChildren H (.leaf ps) q).ids = q.ids := by
  induction ps generalizing q with
  | nil => exact ⟨hP, rfl⟩
  | cons c ps ih =>
      obtain ⟨hc, hids⟩ := h.leaf c (ps ++ rs) q hP
      obtain ⟨hrest, hids'⟩ := ih hc
      exact ⟨hrest, hids'.trans hids⟩

/-- The children of an index node: those that are pushed are the forest `kept`. -/
theorem children (h : H.Explores P) {cs : List (Nat × Region DIM)} {ps rs : List (SkyPoint DIM)}
    {n : Nat} (hcs : T.Children cs ps n) {q : GenericQuery σ} (hP : P (ps ++ rs) q) :
    ∃ kept qs m, Forest T.Subtree kept qs m ∧ m ≤ n ∧
      P (rs ++ qs) (GenericQuery.handleChildren H (.index cs) q) ∧
      (GenericQuery.handleChildren H (.index cs) q).ids = q.ids ++ kept := by
  induction cs generalizing ps rs n q with
  | nil =>
      cases hcs
      exact ⟨[], [], 0, .nil, le_rfl, by rwa [List.append_nil], (List.append_nil _).symm⟩
  | cons c cs ih =>
      cases hcs with
      | @cons id r _ ps₁ ps₂ m₁ m₂ hsub hne hcont hint hrest =>
          rw [List.append_assoc] at hP
          rcases h.index id r ps₁ (ps₂ ++ rs) q hne hcont hint hP with ⟨hpush, hids⟩ | ⟨hdrop, hids⟩
          · -- the child is pushed: its points go to the back
            rw [List.append_assoc] at hpush
            obtain ⟨kept, qs, m, hf, hm, hP', hids'⟩ := ih hrest hpush
            refine ⟨id :: kept, ps₁ ++ qs, m₁ + m, .cons hsub hf, by omega, ?_, ?_⟩
            · rw [← List.append_assoc]
              exact hP'
            · rw [List.append_cons q.ids, ← hids]
              exact hids'
          · -- the child is pruned
            obtain ⟨kept, qs, m, hf, hm, hP', hids'⟩ := ih hrest hdrop
            exact ⟨kept, qs, m, hf, by omega, hP', hids'.trans (by rw [hids])⟩

/-- One node: what is left to visit is again a forest, with fewer nodes. -/
theorem visit (h : H.Explores P) {id : Nat} {ids : List Nat} {rs : List (SkyPoint DIM)} {n : Nat}
    (hf : Forest T.Subtree (id :: ids) rs n) {q : GenericQuery σ} (hids : q.ids = ids)
    (hP : P rs q) :
    ∃ node rs' m, T.node id = some node ∧ m < n ∧
      P rs' (GenericQuery.handleChildren H node q) ∧
      Forest T.Subtree (GenericQuery.handleChildren H node q).ids rs' m := by
  cases hf with
  | @cons _ _ xs ys m n hsub hrest =>
      cases hsub with
      -- a leaf that has been visited: its points are done, what waits in the line stays
      | leaf hnode =>
          obtain ⟨hP', hids'⟩ := h.leaves hP
          refine ⟨_, ys, n, hnode, by omega, hP', ?_⟩
          rw [hids', hids]
          exact hrest
      -- an index node: the children that are kept join the end of the line
      | @index _ cs _ k hnode hcs =>
          obtain ⟨kept, qs, k', hkept, hk, hP', hids'⟩ := h.children hcs hP
          refine ⟨_, ys ++ qs, n + k', hnode, by omega, hP', ?_⟩
          rw [hids', hids]
          exact hrest.append hkept

end Handlers.Explores

/-- What is left to do at a visit: the nodes in line, with the points beneath them, unless the query
has stopped. -/
def Visit.Pending (T : RTree DIM) (P : List (SkyPoint DIM) → GenericQuery σ → Prop) (n : Nat)
    (x : Visit σ) : Prop :=
  (x.hasNext = true → ∃ rs, Forest T.Subtree (x.next :: x.qs.ids) rs n ∧ P rs x.qs) ∧
    (x.hasNext = false → ∃ rs, P rs x.qs ∧ (x.qs.stop = false → rs = []))

/-- **A query explores the whole tree, or stops.** It ends within as many visits as the tree has
nodes. -/
theorem RTree.queryStrategy_spec {H : Handlers σ DIM}
    {P : List (SkyPoint DIM) → GenericQuery σ → Prop} (h : H.Explores P) {T : RTree DIM}
    {ps : List (SkyPoint DIM)} (hT : T.Holds ps) {q : GenericQuery σ} (hids : q.ids = [])
    (hP : P ps q) :
    ∃ n q' rs, (∀ fuel, n ≤ fuel → T.queryStrategy H fuel q = some q') ∧ P rs q' ∧
      (q'.stop = false → rs = []) := by
  obtain ⟨n, hsub⟩ := hT
  have hstart : Visit.Pending T P n ⟨T.rootId, true, q⟩ := by
    refine ⟨fun _ => ⟨ps, ?_, hP⟩, fun hc => by cases hc⟩
    show Forest T.Subtree (T.rootId :: q.ids) ps n
    rw [hids]
    exact .singleton hsub
  -- the `while` loop: what remains of the forest of subtrees in the line gets smaller
  obtain ⟨x, m, hrun, hx, hc⟩ := runWhile_rule Visit.cond (Visit.body T H)
    (Visit.Pending T P) (by
      intro n x hx hc
      obtain ⟨rs, hf, hrs⟩ := hx.1 hc
      obtain ⟨node, rs', m, hnode, hm, hP', hf'⟩ := h.visit hf rfl hrs
      obtain ⟨q', hq'⟩ : ∃ q', q' = GenericQuery.handleChildren H node x.qs := ⟨_, rfl⟩
      rw [← hq'] at hP' hf'
      refine ⟨x.after (GenericQuery.getNextEntry H node x.qs), m, ?_, ?_, hm⟩
      · rw [Visit.body, hnode]
        rfl
      rw [GenericQuery.getNextEntry, ← hq']
      cases hline : q'.ids with
      -- the line is empty, so nothing of the tree is left to visit
      | nil =>
          rw [hline] at hf'
          exact ⟨fun hc => (by cases hc), fun _ => ⟨rs', hP', fun _ => hf'.eq_nil⟩⟩
      | cons id ids =>
          rw [hline] at hf'
          cases hstop : q'.stop with
          -- the query has stopped by itself, and the rest is not visited
          | true =>
              refine ⟨fun hc => (by cases hc), fun _ => ⟨rs', hP', fun hn => ?_⟩⟩
              have hn : q'.stop = false := hn
              rw [hstop] at hn
              cases hn
          | false =>
              have hnext := h.ids rs' q' ids hP'
              rw [hstop] at hnext
              exact ⟨fun _ => ⟨rs', hf', hnext⟩, fun hc => (by cases hc)⟩) hstart
  obtain ⟨rs, hrs, hstop⟩ := hx.2 hc
  refine ⟨n, x.qs, rs, fun fuel hfuel => ?_, hrs, hstop⟩
  rw [queryStrategy, hrun fuel hfuel]
  rfl

/-! ## What the queries find -/

open SkyPoint

variable {x : SkyPoint DIM}

/-- The points found so far and those among the points not seen yet are all the points that `x`
dominates. A child can be pruned: what is dominated beneath it makes its high corner dominated. -/
theorem dominanceQuery_explores (hx : IntCoords x.t.d) (u : ℚ → Int) (all : List (SkyPoint DIM)) :
    (dominanceQuery u x .dominates .maxCorner).Explores fun rs q =>
      q.stop = false ∧ (∀ p ∈ rs, IntCoords p.t.d) ∧
        (q.own ++ rs.filter fun p => x.t.Dominates p.t).Perm
          (all.filter fun p => x.t.Dominates p.t) where
  leaf := by
    rintro c rs q ⟨hstop, hint, hperm⟩
    have hrs : ∀ p ∈ rs, IntCoords p.t.d := fun p hp => hint p (List.mem_cons_of_mem c hp)
    have hiff := (dominancePoint_iff hx (hint c List.mem_cons_self) u).1
    -- a point is either taken into the answer or left out of what remains
    by_cases hdom : x.t.Dominates c.t
    · have hcall : (dominanceQuery u x .dominates .maxCorner).handleLeaf c q
          = { q with own := q.own ++ [c] } := if_pos (hiff.mpr hdom)
      rw [List.filter_cons_of_pos (by simpa using hdom), List.append_cons] at hperm
      rw [hcall]
      exact ⟨⟨hstop, hrs, hperm⟩, rfl⟩
    · have hcall : (dominanceQuery u x .dominates .maxCorner).handleLeaf c q = q :=
        if_neg fun h => hdom (hiff.mp h)
      rw [List.filter_cons_of_neg (by simpa using hdom)] at hperm
      rw [hcall]
      exact ⟨⟨hstop, hrs, hperm⟩, rfl⟩
  index := by
    rintro id r ps rs q - hcont hcorners ⟨hstop, hint, hperm⟩
    have hiff := (dominance_iff hx hcorners.2 u).1
    rw [List.filter_append] at hperm
    -- a region whose high corner is not dominated holds no dominated point
    by_cases hhigh : x.t.d < r.pHigh
    · left
      have hpush : (dominanceQuery u x .dominates .maxCorner).handleIndex id r q
          = { q with ids := q.ids ++ [id] } := if_pos (hiff.mpr hhigh)
      rw [hpush]
      refine ⟨⟨hstop, fun p hp => hint p (List.perm_append_comm.mem_iff.mp hp), ?_⟩, rfl⟩
      rw [List.filter_append]
      exact (List.perm_append_comm.append_left _).trans hperm
    · right
      have hdrop : (dominanceQuery u x .dominates .maxCorner).handleIndex id r q = q :=
        if_neg fun h => hhigh (hiff.mp h)
      have hnone : ps.filter (fun p => x.t.Dominates p.t) = [] := by
        rw [List.filter_eq_nil_iff]
        intro p hp hdom
        exact hhigh ((hcont p hp).lt_high (of_decide_eq_true hdom))
      rw [hnone, List.nil_append] at hperm
      rw [hdrop]
      exact ⟨⟨hstop, fun p hp => hint p (List.mem_append_right ps hp), hperm⟩, rfl⟩
  ids := fun _ _ _ h => h

/-- **`DominanceQuery` collects the points that `x` dominates**, each as often as it is stored. -/
theorem dominanceQuery_spec {T : RTree DIM} {ps : List (SkyPoint DIM)} (hT : T.Holds ps)
    (hps : ∀ p ∈ ps, IntCoords p.t.d) (hx : IntCoords x.t.d) (u : ℚ → Int) :
    ∃ n q, (∀ fuel, n ≤ fuel → T.queryStrategy (dominanceQuery u x .dominates .maxCorner) fuel
      ⟨false, [], []⟩ = some q) ∧ q.own.Perm (ps.filter fun p => x.t.Dominates p.t) := by
  obtain ⟨n, q, rs, hrun, ⟨hstop, -, hperm⟩, hrs⟩ := RTree.queryStrategy_spec
    (dominanceQuery_explores hx u ps) hT (q := ⟨false, [], []⟩) rfl ⟨rfl, hps, List.Perm.refl _⟩
  rw [hrs hstop, List.filter_nil, List.append_nil] at hperm
  exact ⟨n, q, hrun, hperm⟩

/-- As long as the query has not stopped, whether a point dominates `x` is up to the points not seen
yet; if it has stopped, some point does. A child makes the query stop if its high corner dominates
`x`: then so do the points beneath it, of which there is one. -/
theorem skylineQuery_explores (hx : IntCoords x.t.d) (u : ℚ → Int) (all : List (SkyPoint DIM)) :
    (skylineQuery u x).Explores fun rs q =>
      (∀ p ∈ rs, IntCoords p.t.d) ∧
      (q.stop = true → q.own = false ∧ ∃ p ∈ all, p.t.Dominates x.t) ∧
      (q.stop = false → q.own = true ∧
        ((∃ p ∈ all, p.t.Dominates x.t) ↔ ∃ p ∈ rs, p.t.Dominates x.t)) where
  leaf := by
    rintro c rs q ⟨hint, hstopped, hgoing⟩
    have hrs : ∀ p ∈ rs, IntCoords p.t.d := fun p hp => hint p (List.mem_cons_of_mem c hp)
    have hiff := (dominancePoint_iff hx (hint c List.mem_cons_self) u).2
    by_cases hdom : c.t.Dominates x.t
    · have hstop : (skylineQuery u x).handleLeaf c q = { q with own := false, stop := true } :=
        if_pos (hiff.mpr hdom)
      rw [hstop]
      refine ⟨⟨hrs, fun _ => ⟨rfl, ?_⟩, fun hc => by cases hc⟩, rfl⟩
      cases hq : q.stop with
      | true => exact (hstopped hq).2
      | false => exact (hgoing hq).2.mpr ⟨c, List.mem_cons_self, hdom⟩
    · have hgo : (skylineQuery u x).handleLeaf c q = q := if_neg fun h => hdom (hiff.mp h)
      rw [hgo]
      refine ⟨⟨hrs, hstopped, fun hq => ⟨(hgoing hq).1, ?_⟩⟩, rfl⟩
      rw [(hgoing hq).2]
      simp [hdom]
  index := by
    rintro id r ps rs q hne hcont hcorners ⟨hint, hstopped, hgoing⟩
    have hhigh := (dominance_iff hx hcorners.2 u).2
    have hlow := (dominance_iff hx hcorners.1 u).2
    have hrs : ∀ p ∈ rs, IntCoords p.t.d := fun p hp => hint p (List.mem_append_right ps hp)
    by_cases hstop : r.pHigh < x.t.d
    · -- every point beneath the child dominates `x`
      right
      have hcall : (skylineQuery u x).handleIndex id r q = { q with own := false, stop := true } :=
        if_pos (hhigh.mpr hstop)
      rw [hcall]
      refine ⟨⟨hrs, fun _ => ⟨rfl, ?_⟩, fun hc => by cases hc⟩, rfl⟩
      cases hq : q.stop with
      | true => exact (hstopped hq).2
      | false =>
          obtain ⟨p, hp⟩ := List.exists_mem_of_ne_nil ps hne
          exact (hgoing hq).2.mpr ⟨p, List.mem_append_left rs hp, (hcont p hp).dominates hstop⟩
    · by_cases hpush : r.pLow < x.t.d
      · -- the child may contain a dominating point: it is visited
        left
        have hcall : (skylineQuery u x).handleIndex id r q = { q with ids := q.ids ++ [id] } :=
          (if_neg fun h => hstop (hhigh.mp h)).trans (if_pos (hlow.mpr hpush))
        rw [hcall]
        refine ⟨⟨fun p hp => hint p (List.perm_append_comm.mem_iff.mp hp), hstopped,
          fun hq => ⟨(hgoing hq).1, ?_⟩⟩, rfl⟩
        rw [(hgoing hq).2]
        simp only [List.mem_append, or_comm]
      · -- no point beneath the child dominates `x`
        right
        have hcall : (skylineQuery u x).handleIndex id r q = q :=
          (if_neg fun h => hstop (hhigh.mp h)).trans (if_neg fun h => hpush (hlow.mp h))
        rw [hcall]
        refine ⟨⟨hrs, hstopped, fun hq => ⟨(hgoing hq).1, ?_⟩⟩, rfl⟩
        rw [(hgoing hq).2]
        constructor
        · rintro ⟨p, hp, hdom⟩
          rcases List.mem_append.mp hp with hp | hp
          · exact absurd ((hcont p hp).low_lt hdom) hpush
          · exact ⟨p, hp, hdom⟩
        · rintro ⟨p, hp, hdom⟩
          exact ⟨p, List.mem_append_right ps hp, hdom⟩
  ids := fun _ _ _ h => h

/-- **`SkylineQuery` decides whether no stored point dominates `x`.** -/
theorem skylineQuery_spec {T : RTree DIM} {ps : List (SkyPoint DIM)} (hT : T.Holds ps)
    (hps : ∀ p ∈ ps, IntCoords p.t.d) (hx : IntCoords x.t.d) (u : ℚ → Int) :
    ∃ n q, (∀ fuel, n ≤ fuel → T.queryStrategy (skylineQuery u x) fuel ⟨false, [], true⟩ = some q) ∧
      (q.own = true ↔ ∀ p ∈ ps, ¬ p.t.Dominates x.t) := by
  obtain ⟨n, q, rs, hrun, ⟨-, hstopped, hgoing⟩, hrs⟩ := RTree.queryStrategy_spec
    (skylineQuery_explores hx u ps) hT (q := ⟨false, [], true⟩) rfl
    ⟨hps, fun hc => (by cases hc), fun _ => ⟨rfl, Iff.rfl⟩⟩
  refine ⟨n, q, hrun, ?_⟩
  cases hq : q.stop with
  | true =>
      -- stopped: a point that dominates has been found
      obtain ⟨hown, p, hp, hdom⟩ := hstopped hq
      rw [hown]
      exact iff_of_false (by decide) fun hall => hall p hp hdom
  | false =>
      -- not stopped: the whole tree has been visited, and nothing of it remains
      obtain ⟨hown, hiff⟩ := hgoing hq
      rw [hown]
      refine iff_of_true rfl fun p hp hdom => ?_
      obtain ⟨p', hp', -⟩ := hiff.mp ⟨p, hp, hdom⟩
      rw [hrs hq] at hp'
      exact absurd hp' List.not_mem_nil

end ElasticPPQ
