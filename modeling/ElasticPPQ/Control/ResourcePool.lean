import ElasticPPQ.Plq.Events

/-! # The resource pool of the controller

The class `ResourcePool` (`controller.hpp`), with as many SMT contexts as worker cores: resource `i`
is the context of the `i`-th worker of either stage. The identifiers of the contexts are left out. -/

namespace ElasticPPQ

/-- The possible owners of a resource (`owner_t`). -/
inductive Owner
  | plq
  | wlq
  | none
  deriving DecidableEq

/-- The pool: the owner of each resource. -/
structure ResourcePool (N : Nat) where
  /-- The owner of each resource. -/
  owner : Fin N → Owner

namespace ResourcePool

variable {N : Nat}

/-- The constructor: the first `nwPlq` resources are used by the PLQ, the last `nwWlq` ones by the
WLQ. -/
def new (N nwPlq nwWlq : Nat) : ResourcePool N where
  owner := fun count =>
    if count.val < nwPlq then .plq
    else if N - nwWlq ≤ count.val then .wlq
    else .none

/-- A resource gets a new owner. -/
def give (o : Owner) (r : Fin N) (p : ResourcePool N) : ResourcePool N where
  owner := Function.update p.owner r o

/-- The loop of `acquireResources`, with `num` resources left to acquire. -/
def acquireFrom (o : Owner) : List (Fin N) → Nat → ResourcePool N → ResourcePool N × List (Fin N)
  | [], _, p => (p, [])
  | r :: rs, num, p =>
      if p.owner r = .none ∧ 0 < num then
        let (p, ids) := acquireFrom o rs (num - 1) (p.give o r)
        (p, r :: ids)
      else acquireFrom o rs num p

/-- `acquireResources`: fewer than `num` resources are acquired if fewer are available. -/
def acquireResources (num : Nat) (o : Owner) (p : ResourcePool N) :
    ResourcePool N × List (Fin N) :=
  acquireFrom o (List.finRange N) num p

/-- `releaseResources`: `num` times the resource whose worker has the shortest input queue. The
`k`-th scan reads the queue lengths `qlens k`; the source aborts if it finds no resource. -/
def releaseResources (o : Owner) :
    Nat → (Nat → Fin N → Nat) → ResourcePool N → Option (ResourcePool N × List (Fin N))
  | 0, _, p => some (p, [])
  | num + 1, qlens, p => do
      let r ← Sched.leastLoaded (fun r => decide (p.owner r = o)) (qlens 0) (List.finRange N) none
      let (p, ids) ← releaseResources o num (fun k => qlens (k + 1)) (p.give .none r)
      some (p, r :: ids)

/-- Which resources `o` owns. -/
def owns (p : ResourcePool N) (o : Owner) (r : Fin N) : Bool := decide (p.owner r = o)

/-- How many. -/
def owned (p : ResourcePool N) (o : Owner) : Nat := ((List.finRange N).filter (p.owns o)).length

/-! ## Resources that change hands -/

/-- The resources `ids` go from `o` to `o'`. -/
structure Moves (o o' : Owner) (ids : List (Fin N)) (p p' : ResourcePool N) : Prop where
  nodup : ids.Nodup
  from_owner : ∀ r ∈ ids, p.owner r = o
  owner : p'.owner = fun r => if r ∈ ids then o' else p.owner r

variable {o o' : Owner} {ids : List (Fin N)} {p p' : ResourcePool N}

/-- Nothing is moved. -/
theorem Moves.nil (o o' : Owner) (p : ResourcePool N) : Moves o o' [] p p where
  nodup := List.nodup_nil
  from_owner := fun _ hr => absurd hr List.not_mem_nil
  owner := by
    funext r
    rw [if_neg List.not_mem_nil]

/-- One resource after the other: each is taken from `o` once. -/
theorem Moves.cons (hne : o ≠ o') {r : Fin N} (hr : p.owner r = o)
    (h : Moves o o' ids (p.give o' r) p') : Moves o o' (r :: ids) p p' := by
  have hself : (p.give o' r).owner r = o' := Function.update_self ..
  have hother : ∀ v, v ≠ r → (p.give o' r).owner v = p.owner v := fun v hv =>
    Function.update_of_ne hv ..
  -- a resource that has changed hands is not taken from the former owner again
  have hnew : r ∉ ids := by
    intro hmem
    have := h.from_owner r hmem
    rw [hself] at this
    exact hne this.symm
  refine ⟨List.nodup_cons.mpr ⟨hnew, h.nodup⟩, ?_, ?_⟩
  · intro v hv
    rcases List.mem_cons.mp hv with rfl | hv
    · exact hr
    · rw [← hother v fun hvr => hnew (hvr ▸ hv)]
      exact h.from_owner v hv
  · rw [h.owner]
    funext v
    by_cases hvr : v = r
    · rw [hvr, if_neg hnew, if_pos List.mem_cons_self]
      exact hself
    · simp only [List.mem_cons, hvr, false_or]
      rw [hother v hvr]

/-- The new owner owns what it did and the resources. -/
theorem Moves.owns_target (h : Moves o o' ids p p') :
    p'.owns o' = fun r => p.owns o' r || decide (r ∈ ids) := by
  funext r
  rw [owns, owns, h.owner]
  by_cases hr : r ∈ ids <;> simp [hr]

/-- The old owner owns what it did without the resources. -/
theorem Moves.owns_source (hne : o ≠ o') (h : Moves o o' ids p p') :
    p'.owns o = fun r => p.owns o r && !decide (r ∈ ids) := by
  funext r
  rw [owns, owns, h.owner]
  by_cases hr : r ∈ ids
  · simp [hr, hne.symm]
  · simp [hr]

/-- Nobody else is concerned. -/
theorem Moves.owns_other (h : Moves o o' ids p p') {q : Owner} (hq : q ≠ o) (hq' : q ≠ o') :
    p'.owns q = p.owns q := by
  funext r
  rw [owns, owns, h.owner]
  by_cases hr : r ∈ ids
  · simp [hr, hq'.symm, h.from_owner r hr, hq.symm]
  · simp [hr]

/-- The numbers of resources owned. -/
theorem Moves.owned_target (hne : o ≠ o') (h : Moves o o' ids p p') :
    p'.owned o' = p.owned o' + ids.length := by
  rw [owned, owned, h.owns_target]
  apply Sched.length_filter_or h.nodup
  intro r hr
  rw [owns, h.from_owner r hr]
  exact decide_eq_false hne

/-- The former owner has as many resources less. -/
theorem Moves.owned_source (hne : o ≠ o') (h : Moves o o' ids p p') :
    p.owned o = p'.owned o + ids.length := by
  have hback : p.owns o = fun r => p'.owns o r || decide (r ∈ ids) := by
    funext r
    rw [h.owns_source hne]
    by_cases hr : r ∈ ids
    · simp [hr, owns, h.from_owner r hr]
    · simp [hr]
  rw [owned, hback, owned]
  apply Sched.length_filter_or h.nodup
  intro r hr
  rw [h.owns_source hne]
  simp [hr]

/-! ## The methods -/

/-- The loop of `acquireResources`. -/
theorem acquireFrom_moves (ho : o ≠ .none) (rs : List (Fin N)) (num : Nat) (p : ResourcePool N) :
    Moves .none o (acquireFrom o rs num p).2 p (acquireFrom o rs num p).1 := by
  induction rs generalizing num p with
  | nil => exact Moves.nil .none o p
  | cons r rs ih =>
      rw [acquireFrom]
      by_cases hr : p.owner r = .none ∧ 0 < num
      · rw [if_pos hr]
        exact Moves.cons ho.symm hr.1 (ih (num - 1) (p.give o r))
      · rw [if_neg hr]
        exact ih num p

/-- **`acquireResources`** takes resources that are available. -/
theorem acquireResources_moves (ho : o ≠ .none) (num : Nat) (p : ResourcePool N) :
    Moves .none o (p.acquireResources num o).2 p (p.acquireResources num o).1 :=
  acquireFrom_moves ho (List.finRange N) num p

/-- An owner of some resource is found by the scan. -/
theorem leastLoaded_owner (qlen : Fin N → Nat) (h : 0 < p.owned o) :
    ∃ r, Sched.leastLoaded (fun r => decide (p.owner r = o)) qlen (List.finRange N) none = some r ∧
      p.owner r = o := by
  obtain ⟨r, hr⟩ := List.exists_mem_of_length_pos h
  have hbest : ∀ b ∈ (none : Option (Fin N)), decide (p.owner b = o) = true := fun _ hb => by cases hb
  obtain ⟨r', hr', hown⟩ := Sched.leastLoaded_spec qlen hbest
    (Or.inr ⟨r, List.mem_finRange r, (List.mem_filter.mp hr).2⟩)
  exact ⟨r', hr', of_decide_eq_true hown⟩

/-- **`releaseResources`** does not abort if the owner has as many resources. -/
theorem releaseResources_moves (ho : o ≠ .none) {num : Nat} (qlens : Nat → Fin N → Nat)
    (h : num ≤ p.owned o) :
    ∃ p' ids, p.releaseResources o num qlens = some (p', ids) ∧ Moves o .none ids p p' ∧
      ids.length = num := by
  induction num generalizing p qlens with
  | zero => exact ⟨p, [], rfl, Moves.nil o .none p, rfl⟩
  | succ num ih =>
      obtain ⟨r, hr, hown⟩ := leastLoaded_owner (qlens 0) (Nat.lt_of_lt_of_le (Nat.succ_pos num) h)
      -- the scans that follow find one resource less
      have hone : Moves o .none [r] p (p.give .none r) := Moves.cons ho hown (Moves.nil ..)
      have hleft := hone.owned_source ho
      rw [List.length_singleton] at hleft
      obtain ⟨p', ids, hrun, hmoves, hlen⟩ :=
        ih (p := p.give .none r) (fun k => qlens (k + 1)) (by omega)
      refine ⟨p', r :: ids, ?_, Moves.cons ho hown hmoves, congrArg Nat.succ hlen⟩
      rw [releaseResources, hr]
      simp only [Option.bind_eq_bind, Option.bind_some, hrun]

/-! ## The pool as constructed -/

/-- The PLQ owns the workers that it activates. -/
theorem owns_new_plq (nwPlq nwWlq : Nat) :
    (new N nwPlq nwWlq).owns .plq = fun r => decide (r.val < nwPlq) := by
  funext r
  rw [owns, new]
  by_cases hr : r.val < nwPlq
  · simp [hr]
  · by_cases hw : N - nwWlq ≤ r.val <;> simp [hr, hw]

/-- So does the WLQ, if there are enough resources for both. -/
theorem owns_new_wlq {nwPlq nwWlq : Nat} (hle : nwPlq + nwWlq ≤ N) :
    (new N nwPlq nwWlq).owns .wlq = fun r => decide (N - nwWlq ≤ r.val) := by
  funext r
  rw [owns, new]
  by_cases hr : r.val < nwPlq
  · have hw : ¬ N - nwWlq ≤ r.val := by omega
    simp [hr, hw]
  · by_cases hw : N - nwWlq ≤ r.val <;> simp [hr, hw]

/-- No resource has two owners. -/
theorem owned_add_le (p : ResourcePool N) (h : o ≠ o') : p.owned o + p.owned o' ≤ N := by
  rw [owned, owned, ← List.length_append]
  have hnodup : ((List.finRange N).filter (p.owns o) ++ (List.finRange N).filter (p.owns o')).Nodup := by
    refine List.Nodup.append ((List.nodup_finRange N).filter _) ((List.nodup_finRange N).filter _) ?_
    intro r hr hr'
    have h₁ := of_decide_eq_true (List.mem_filter.mp hr).2
    have h₂ := of_decide_eq_true (List.mem_filter.mp hr').2
    exact h (h₁.symm.trans h₂)
  calc _ ≤ (List.finRange N).length :=
        (List.subperm_of_subset hnodup fun r _ => List.mem_finRange r).length_le
    _ = N := List.length_finRange

end ResourcePool

end ElasticPPQ
