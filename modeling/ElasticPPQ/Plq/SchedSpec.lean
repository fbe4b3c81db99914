import ElasticPPQ.Plq.Routing
import ElasticPPQ.Plq.Strategies

/-! # What the common part of the strategies does

One specification lemma for each method of `Sched`: when it succeeds, and what it changes. With them
the tables of a strategy are read as a ledger (`Sched.ledger`). -/

namespace ElasticPPQ

open FifoNet

variable {N DIM : Nat}

namespace Sched

/-! ## Choosing a worker -/

/-- The scan reaches every worker. -/
theorem mem_scanOrder (w : Nat) (v : Fin N) : v ∈ scanOrder N w := by
  have hv := List.mem_finRange v
  rw [← List.take_append_drop w (List.finRange N), List.mem_append] at hv
  rw [scanOrder, List.mem_append]
  exact hv.symm

/-- Some worker is activated. -/
def HasActive (s : Sched N) : Prop := ∃ w, s.activatedWorker w = true

/-- With an activated worker `get_rr_w` does not abort, and selects an activated worker. -/
theorem getRrW_spec {s : Sched N} (h : s.HasActive) :
    ∃ w lastW, s.getRrW = some (w, { s with lastW := lastW }) ∧ s.activatedWorker w = true := by
  obtain ⟨v, hv⟩ := h
  have hfind : ((scanOrder N s.lastW).find? s.activatedWorker).isSome :=
    List.find?_isSome.mpr ⟨v, mem_scanOrder s.lastW v, hv⟩
  obtain ⟨w, hw⟩ := Option.isSome_iff_exists.mp hfind
  refine ⟨w, (w.val + 1) % N, ?_, List.find?_some hw⟩
  rw [getRrW, hw]
  rfl

/-- The scan of `get_llw_w` ends with an activated worker if it meets one, or starts with one. -/
theorem leastLoaded_spec {active : Fin N → Bool} (qlen : Fin N → Nat) {ws : List (Fin N)}
    {best : Option (Fin N)} (hbest : ∀ b ∈ best, active b = true)
    (h : best.isSome ∨ ∃ w ∈ ws, active w = true) :
    ∃ w, leastLoaded active qlen ws best = some w ∧ active w = true := by
  -- induction on the workers scanned: the best one so far is an activated one
  induction ws generalizing best with
  | nil =>
      have hsome : best.isSome := h.resolve_right fun ⟨_, hw, _⟩ => List.not_mem_nil hw
      obtain ⟨b, rfl⟩ := Option.isSome_iff_exists.mp hsome
      exact ⟨b, rfl, hbest b rfl⟩
  | cons w ws ih =>
      cases best with
      | none =>
          -- the first activated worker becomes the best one
          by_cases hw : active w = true
          · refine ih ?_ (Or.inl ?_)
            · intro b hb
              rw [if_pos hw] at hb
              cases hb
              exact hw
            · rw [if_pos hw]
              rfl
          · refine ih ?_ (Or.inr ?_)
            · intro b hb
              rw [if_neg hw] at hb
              cases hb
            · rcases h with h | ⟨v, hv, hav⟩
              · cases h
              · rcases List.mem_cons.mp hv with rfl | hv
                · exact absurd hav hw
                · exact ⟨v, hv, hav⟩
      | some b =>
          -- a later one replaces it only if it is activated and has the shorter queue
          by_cases hw : (active w && decide (qlen w < qlen b)) = true
          · refine ih ?_ (Or.inl ?_)
            · intro b' hb'
              rw [if_pos hw] at hb'
              cases hb'
              exact (Bool.and_eq_true _ _ ▸ hw).1
            · rw [if_pos hw]
              rfl
          · refine ih ?_ (Or.inl ?_)
            · intro b' hb'
              rw [if_neg hw] at hb'
              cases hb'
              exact hbest b rfl
            · rw [if_neg hw]
              rfl

/-- With an activated worker `get_llw_w` does not abort, and selects an activated worker. -/
theorem getLlwW_spec {s : Sched N} (h : s.HasActive) (qlen : Fin N → Nat) :
    ∃ w lastW, s.getLlwW qlen = some (w, { s with lastW := lastW }) ∧
      s.activatedWorker w = true := by
  obtain ⟨v, hv⟩ := h
  have hbest : ∀ b ∈ (none : Option (Fin N)), s.activatedWorker b = true := fun _ hb => by cases hb
  obtain ⟨w, hw, ha⟩ := leastLoaded_spec qlen hbest (Or.inr ⟨v, mem_scanOrder s.lastW v, hv⟩)
  refine ⟨w, (w.val + 1) % N, ?_, ha⟩
  rw [getLlwW, hw]
  rfl

/-! ## Multicasts and reconfigurations -/

/-- A number of partitions is sent to workers that are activated. -/
theorem multicastNewinstToW_spec {s : Sched N} {ws : List (Fin N)}
    (h : ∀ w ∈ ws, s.activatedWorker w = true) (p n : Nat) :
    s.multicastNewinstToW ws p n =
      some (ws.map fun w => (w, (Tuple.createNewinst p n ws.length : Tuple DIM))) :=
  if_pos (List.all_eq_true.mpr h)

/-- Workers that are not activated may be. -/
theorem activate_spec {ws : List (Fin N)} (hws : ws.Nodup) {active : Fin N → Bool}
    (h : ∀ w ∈ ws, active w = false) :
    activate ws active = some fun v => active v || decide (v ∈ ws) := by
  induction ws generalizing active with
  | nil => simp [activate]
  | cons w ws ih =>
      rw [List.nodup_cons] at hws
      rw [activate, if_neg (by simp [h w List.mem_cons_self]), ih hws.2]
      · congr 1
        -- the ids are distinct, so the others are still de-activated
        funext v
        by_cases hv : v = w <;> simp [Function.update, hv]
      · intro v hv
        have hvw : v ≠ w := fun hvw => hws.1 (hvw ▸ hv)
        rw [Function.update_of_ne hvw]
        exact h v (List.mem_cons_of_mem _ hv)

/-- Workers that are activated may be de-activated. -/
theorem deactivate_spec {ws : List (Fin N)} (hws : ws.Nodup) {active : Fin N → Bool}
    (h : ∀ w ∈ ws, active w = true) :
    deactivate ws active = some fun v => active v && !decide (v ∈ ws) := by
  induction ws generalizing active with
  | nil => simp [deactivate]
  | cons w ws ih =>
      rw [List.nodup_cons] at hws
      rw [deactivate, if_pos (h w List.mem_cons_self), ih hws.2]
      · congr 1
        -- the ids are distinct, so the others are still activated
        funext v
        by_cases hv : v = w <;> simp [Function.update, hv]
      · intro v hv
        have hvw : v ≠ w := fun hvw => hws.1 (hvw ▸ hv)
        rw [Function.update_of_ne hvw]
        exact h v (List.mem_cons_of_mem _ hv)

/-- `addWorkers` of distinct de-activated workers does not abort. -/
theorem addWorkers_spec {ws : List (Fin N)} (hws : ws.Nodup) {s : Sched N}
    (h : ∀ w ∈ ws, s.activatedWorker w = false) (num : Nat) :
    s.addWorkers num ws = some { s with
      nwPlq := s.nwPlq + num
      activatedWorker := fun v => s.activatedWorker v || decide (v ∈ ws) } := by
  rw [addWorkers, activate_spec hws h]
  rfl

/-- The scheduler after its workers `ws` have been de-activated. -/
def deactivated (num : Nat) (ws : List (Fin N)) (s : Sched N) : Sched N :=
  { s with
    nwPlq := s.nwPlq - num
    activatedWorker := fun v => s.activatedWorker v && !decide (v ∈ ws) }

/-- De-activating and flushing distinct activated workers does not abort. -/
theorem deactivateAndFlush_spec {ws : List (Fin N)} (hws : ws.Nodup) {s : Sched N}
    (h : ∀ w ∈ ws, s.activatedWorker w = true) (num : Nat) :
    s.deactivateAndFlush num ws = some (s.deactivated num ws,
      ws.map fun w => (w, (Tuple.createFlush ws.length s.nextPaneId : Tuple DIM))) := by
  have hany : ws.any (fun v => s.activatedWorker v && !decide (v ∈ ws)) = false := by
    rw [List.any_eq_false]
    intro v hv
    simp [hv]
  simp only [deactivateAndFlush, deactivate_spec hws h, Option.bind_eq_bind, Option.bind_some,
    multicastFlushToW, hany, deactivated]
  rfl

/-! ## Closing panes -/

/-- The number of tuples of pane `p`. -/
abbrev size (s : Sched N) (p : Nat) : Nat := s.paneSize.getD p 0

/-- The number of partitions of pane `p`. -/
abbrev instances (s : Sched N) (p : Nat) : Nat := s.pInstances.getD p 0

/-- What the loop over the panes `i, …, i + n - 1` to close does, `lulls` being the panes without
tuples with the workers that get the lull messages. -/
structure Closes (i n : Nat) (lulls : List (Nat × Fin N)) (s s' : Sched N) : Prop where
  nextPaneId : s'.nextPaneId = s.nextPaneId
  nwPlq : s'.nwPlq = s.nwPlq
  activatedWorker : s'.activatedWorker = s.activatedWorker
  paneSize : s'.paneSize = s.paneSize
  length : s'.pInstances.length = s.pInstances.length
  panes : lulls.map Prod.fst = (List.range' i n).filter fun p => s.size p = 0
  instances : ∀ p, s'.instances p =
    if i ≤ p ∧ p < i + n ∧ s.size p = 0 then 1 else s.instances p
  toActive : ∀ x ∈ lulls, s.activatedWorker x.2 = true

variable (DIM) in
/-- One pane. -/
theorem closePane_spec {s : Sched N} (h : s.HasActive) {i : Nat} (hi : i < s.pInstances.length) :
    ∃ s' lulls, s.closePane i = some (s',
        lulls.map fun x => (x.2, (Tuple.createLull x.1 : Tuple DIM))) ∧ Closes i 1 lulls s s' := by
  by_cases hz : s.size i = 0
  · -- an empty pane: a lull goes to the next worker of the sequence
    obtain ⟨w, lastW, hw, hwa⟩ :=
      getRrW_spec (s := { s with pInstances := s.pInstances.set i 1 }) h
    refine ⟨{ s with
        pInstances := s.pInstances.set i 1
        lastW := lastW
        cmPanesSplit := s.cmPanesSplit ++ [(s.pInstances.set i 1).getD i 0] }, [(i, w)], ?_, ?_⟩
    · simp only [closePane, if_pos hz, hw, Option.bind_eq_bind, Option.bind_some]
      rfl
    · exact {
        nextPaneId := rfl
        nwPlq := rfl
        activatedWorker := rfl
        paneSize := rfl
        length := List.length_set
        panes := by
          show [i] = [i].filter fun p => s.size p = 0
          rw [List.filter_singleton, decide_eq_true hz]
          rfl
        instances := by
          intro p
          show (s.pInstances.set i 1).getD p 0 = _
          rw [getD_set_of_lt hi]
          by_cases hp : p = i
          · subst hp
            rw [if_pos rfl, if_pos ⟨le_rfl, Nat.lt_succ_self p, hz⟩]
          · rw [if_neg hp, if_neg (by omega)]
        toActive := by
          intro x hx
          rw [List.mem_singleton.mp hx]
          exact hwa }
  · -- a pane that has had tuples
    refine ⟨{ s with cmPanesSplit := s.cmPanesSplit ++ [s.instances i] }, [], ?_, ?_⟩
    · simp only [closePane, if_neg hz, Option.bind_eq_bind, Option.bind_some]
      rfl
    · exact {
        nextPaneId := rfl
        nwPlq := rfl
        activatedWorker := rfl
        paneSize := rfl
        length := rfl
        panes := by
          show [] = [i].filter fun p => s.size p = 0
          rw [List.filter_singleton, decide_eq_false hz]
          rfl
        instances := by
          intro p
          rw [if_neg]
          rintro ⟨hp, hp', hp0⟩
          obtain rfl : p = i := by omega
          exact hz hp0
        toActive := fun x hx => absurd hx List.not_mem_nil }

/-- Two stretches of panes, one after the other. -/
theorem Closes.cons {i n : Nat} {l l' : List (Nat × Fin N)} {s s' s'' : Sched N}
    (h : Closes i 1 l s s') (h' : Closes (i + 1) n l' s' s'') :
    Closes i (n + 1) (l ++ l') s s'' where
  nextPaneId := h'.nextPaneId.trans h.nextPaneId
  nwPlq := h'.nwPlq.trans h.nwPlq
  activatedWorker := h'.activatedWorker.trans h.activatedWorker
  paneSize := h'.paneSize.trans h.paneSize
  length := h'.length.trans h.length
  panes := by
    have hpanes : ∀ p, s'.size p = s.size p := fun p => by simp only [size, h.paneSize]
    have h1 := h.panes
    have h2 := h'.panes
    simp only [hpanes] at h2
    -- the empty panes of both stretches, in increasing order
    rw [List.map_append, h1, h2, ← List.filter_append]
    rfl
  instances := by
    intro p
    have hsize : s'.size p = s.size p := by simp only [size, h.paneSize]
    rw [h'.instances p, h.instances p, hsize]
    -- a pane above the first one, the first one itself, or none of those closed
    by_cases hp : i + 1 ≤ p ∧ p < i + 1 + n ∧ s.size p = 0
    · rw [if_pos hp, if_pos (by omega)]
    · rw [if_neg hp]
      by_cases hpi : i ≤ p ∧ p < i + 1 ∧ s.size p = 0
      · rw [if_pos hpi, if_pos (by omega)]
      · rw [if_neg hpi, if_neg (by omega)]
  toActive := by
    intro x hx
    rcases List.mem_append.mp hx with hx | hx
    · exact h.toActive x hx
    · rw [← h.activatedWorker]
      exact h'.toActive x hx

variable (DIM) in
/-- **The loop that closes panes.** -/
theorem closePanes_spec {s : Sched N} (h : s.HasActive) {i n : Nat}
    (hi : i + n ≤ s.pInstances.length) :
    ∃ s' lulls, s.closePanes i n = some (s',
        lulls.map fun x => (x.2, (Tuple.createLull x.1 : Tuple DIM))) ∧ Closes i n lulls s s' := by
  -- induction on the number of panes to close
  induction n generalizing i s with
  | zero =>
      refine ⟨s, [], rfl, ⟨rfl, rfl, rfl, rfl, rfl, rfl, fun p => ?_,
        fun x hx => absurd hx List.not_mem_nil⟩⟩
      rw [if_neg (by omega)]
  | succ n ih =>
      obtain ⟨s₁, l₁, h₁, hc₁⟩ := closePane_spec DIM h (i := i) (by omega)
      have hact : s₁.HasActive := by
        rw [HasActive, hc₁.activatedWorker]
        exact h
      obtain ⟨s₂, l₂, h₂, hc₂⟩ := ih hact (i := i + 1) (by rw [hc₁.length]; omega)
      refine ⟨s₂, l₁ ++ l₂, ?_, hc₁.cons hc₂⟩
      -- the LULL of the first pane comes before those of the others
      rw [closePanes, h₁]
      simp only [Option.bind_eq_bind, Option.bind_some]
      rw [h₂, List.map_append]
      rfl

end Sched

end ElasticPPQ
