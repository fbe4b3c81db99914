import ElasticPPQ.Plq.SchedSpec

/-! # Strategies refine the ledger

The tables of a strategy are read as a ledger (`Sched.ledger`), and every method is a sequence of
ledger moves. What a method needs for this is `Sched.Sound`; the one thing that the strategies do not
all guarantee by themselves is that no closed pane without tuples has a partition (`Sched.NoGap`).
Where it fails, the method still is a step that keeps the routing (`Ledger.Route`). -/

namespace ElasticPPQ

open FifoNet

variable {N DIM : Nat}

namespace Sched

/-- The tables of a strategy read as a ledger, `held` being the workers that have a partition of
each pane. -/
def ledger (s : Sched N) (held : Nat → List (Fin N)) : Ledger N where
  next := s.nextPaneId
  active := s.activatedWorker
  holders := fun p => (held p).toFinset
  count := s.instances

/-- The tables fit together: of a non-closed pane some worker has a partition exactly when partitions
have been counted, and a pane with tuples has a partition. -/
structure Sound (s : Sched N) (held : Nat → List (Fin N)) : Prop where
  sizes : s.paneSize.length = s.pInstances.length
  held_iff : ∀ p, s.nextPaneId ≤ p → (held p = [] ↔ s.instances p = 0)
  sized : ∀ p, s.nextPaneId ≤ p → s.size p ≠ 0 → s.instances p ≠ 0

/-- No pane that is about to be closed has a partition without having tuples. -/
def NoGap (s : Sched N) (pId : Nat) : Prop :=
  ∀ p, s.nextPaneId ≤ p → p < pId → s.size p = 0 → s.instances p = 0

instance (s : Sched N) (pId : Nat) : Decidable (s.NoGap pId) :=
  decidable_of_iff (∀ p < pId, s.nextPaneId ≤ p → s.size p = 0 → s.instances p = 0)
    ⟨fun h p hp hlt => h p hlt hp, fun h p hlt hp => h p hp hlt⟩

variable {s s' : Sched N} {held held' : Nat → List (Fin N)}

/-- The ledger reads the tables with default `0`, so growing them is invisible. -/
theorem growTo_instances (s : Sched N) (pId p : Nat) : (s.growTo pId).instances p = s.instances p := by
  unfold growTo
  by_cases h : s.pInstances.length ≤ pId
  · rw [if_pos h]
    exact getD_resize (by omega) 0 p
  · rw [if_neg h]

/-- A table that grows reads as before. -/
theorem growTo_size (hs : s.paneSize.length = s.pInstances.length) (pId p : Nat) :
    (s.growTo pId).size p = s.size p := by
  unfold growTo
  by_cases h : s.pInstances.length ≤ pId
  · rw [if_pos h]
    exact getD_resize (by omega) 0 p
  · rw [if_neg h]

/-- Growing the tables closes no pane. -/
@[simp] theorem growTo_nextPaneId (s : Sched N) (pId : Nat) :
    (s.growTo pId).nextPaneId = s.nextPaneId := by
  unfold growTo
  split <;> rfl

/-- Growing the tables activates nobody. -/
@[simp] theorem growTo_activatedWorker (s : Sched N) (pId : Nat) :
    (s.growTo pId).activatedWorker = s.activatedWorker := by
  unfold growTo
  split <;> rfl

/-- Growing the tables leaves the number of workers alone. -/
@[simp] theorem growTo_nwPlq (s : Sched N) (pId : Nat) : (s.growTo pId).nwPlq = s.nwPlq := by
  unfold growTo
  split <;> rfl

/-- Growing the tables leaves the turn where it is. -/
@[simp] theorem growTo_lastW (s : Sched N) (pId : Nat) : (s.growTo pId).lastW = s.lastW := by
  unfold growTo
  split <;> rfl

/-- The tables have room for the pane. -/
theorem length_growTo (s : Sched N) (pId : Nat) :
    (s.growTo pId).pInstances.length = max s.pInstances.length (pId + 1) := by
  unfold growTo
  by_cases h : s.pInstances.length ≤ pId
  · rw [if_pos h, length_resize]
    omega
  · rw [if_neg h]
    omega

/-- Both tables have the same length. -/
theorem growTo_sizes (hs : s.paneSize.length = s.pInstances.length) (pId : Nat) :
    (s.growTo pId).paneSize.length = (s.growTo pId).pInstances.length := by
  unfold growTo
  by_cases h : s.pInstances.length ≤ pId
  · rw [if_pos h, length_resize, length_resize]
  · rw [if_neg h]
    exact hs

/-- A strategy after the first lines of its `sched_to_worker`: the tables have an entry for the pane
of the tuple, and the tuple is counted. -/
def counted (p : Nat) (s : Sched N) : Sched N :=
  { s.growTo p with paneSize := (s.growTo p).paneSize.set p ((s.growTo p).paneSize.getD p 0 + 1) }

/-- What the first lines of `sched_to_worker` change. -/
structure Counted (p : Nat) (s s' : Sched N) : Prop where
  nextPaneId : s'.nextPaneId = s.nextPaneId
  nwPlq : s'.nwPlq = s.nwPlq
  activatedWorker : s'.activatedWorker = s.activatedWorker
  lastW : s'.lastW = s.lastW
  instances : ∀ q, s'.instances q = s.instances q
  size : ∀ q, s'.size q = if q = p then s.size p + 1 else s.size q
  sizes : s'.paneSize.length = s'.pInstances.length
  length : s'.pInstances.length = max s.pInstances.length (p + 1)

/-- A tuple is counted in its pane. -/
theorem counted_spec (hs : s.paneSize.length = s.pInstances.length) (p : Nat) :
    Counted p s (s.counted p) where
  nextPaneId := growTo_nextPaneId s p
  nwPlq := growTo_nwPlq s p
  activatedWorker := growTo_activatedWorker s p
  lastW := growTo_lastW s p
  instances := growTo_instances s p
  size := by
    -- the tables reach the pane once grown, and only its own size is raised
    intro q
    have hlen : p < (s.growTo p).paneSize.length := by
      rw [growTo_sizes hs, length_growTo]
      omega
    show ((s.growTo p).paneSize.set p ((s.growTo p).size p + 1)).getD q 0 = _
    rw [getD_set_of_lt hlen]
    by_cases hq : q = p
    · rw [if_pos hq, if_pos hq, growTo_size hs]
    · rw [if_neg hq, if_neg hq]
      exact growTo_size hs p q
  sizes := by
    show ((s.growTo p).paneSize.set p _).length = (s.growTo p).pInstances.length
    rw [List.length_set, growTo_sizes hs]
  length := length_growTo s p

/-- Two schedulers that agree on what the ledger reads have the same ledger. -/
theorem ledger_congr (hnext : s'.nextPaneId = s.nextPaneId)
    (hactive : s'.activatedWorker = s.activatedWorker)
    (hheld : ∀ p, (held' p).toFinset = (held p).toFinset)
    (hinst : ∀ p, s'.instances p = s.instances p) : s'.ledger held' = s.ledger held := by
  simp only [ledger, Ledger.mk.injEq]
  exact ⟨hnext, hactive, funext hheld, funext hinst⟩

/-- One more partition of one pane is a split of the ledger. -/
theorem ledger_split {p : Nat} {w : Fin N} (hnext : s'.nextPaneId = s.nextPaneId)
    (hactive : s'.activatedWorker = s.activatedWorker)
    (hheld : (held' p).toFinset = insert w (held p).toFinset)
    (hheld' : ∀ q, q ≠ p → (held' q).toFinset = (held q).toFinset)
    (hinst : s'.instances p = s.instances p + 1)
    (hinst' : ∀ q, q ≠ p → s'.instances q = s.instances q) :
    s'.ledger held' = (s.ledger held).split p w := by
  simp only [ledger, Ledger.split, Ledger.mk.injEq]
  refine ⟨hnext, hactive, funext fun q => ?_, funext fun q => ?_⟩
  -- only the split pane gets a holder and an instance more
  · by_cases hq : q = p
    · subst hq
      rw [hheld, Function.update_self]
    · rw [hheld' q hq, Function.update_of_ne hq]
  · by_cases hq : q = p
    · subst hq
      rw [hinst, Function.update_self]
    · rw [hinst' q hq, Function.update_of_ne hq]

/-- A partition of one pane, however many are counted then, is a delivery of the ledger. -/
theorem ledger_deliver {p : Nat} {w : Fin N} (hnext : s'.nextPaneId = s.nextPaneId)
    (hactive : s'.activatedWorker = s.activatedWorker)
    (hheld : (held' p).toFinset = insert w (held p).toFinset)
    (hheld' : ∀ q, q ≠ p → (held' q).toFinset = (held q).toFinset)
    (hinst' : ∀ q, q ≠ p → s'.instances q = s.instances q) :
    s'.ledger held' = (s.ledger held).deliver p w (s'.instances p) := by
  simp only [ledger, Ledger.deliver, Ledger.mk.injEq]
  refine ⟨hnext, hactive, funext fun q => ?_, funext fun q => ?_⟩
  -- only the delivered pane gets a holder, with the count it has now
  · by_cases hq : q = p
    · subst hq
      rw [hheld, Function.update_self]
    · rw [hheld' q hq, Function.update_of_ne hq]
  · by_cases hq : q = p
    · subst hq
      rw [Function.update_self]
    · rw [hinst' q hq, Function.update_of_ne hq]

/-- Soundness survives a change of one pane that leaves it with a holder and a count. -/
theorem Sound.of_eq_off {p : Nat} (hs : s.Sound held)
    (hsizes : s'.paneSize.length = s'.pInstances.length) (hnext : s'.nextPaneId = s.nextPaneId)
    (hheld : held' p ≠ []) (hinst : s'.instances p ≠ 0)
    (hheld' : ∀ q, q ≠ p → held' q = held q) (hinst' : ∀ q, q ≠ p → s'.instances q = s.instances q)
    (hsize' : ∀ q, q ≠ p → s'.size q = s.size q) : s'.Sound held' where
  sizes := hsizes
  held_iff := by
    intro q hq
    -- the pane has a holder and a count, the others are those of before
    by_cases hqp : q = p
    · subst hqp
      exact ⟨fun h => absurd h hheld, fun h => absurd h hinst⟩
    · rw [hheld' q hqp, hinst' q hqp]
      exact hs.held_iff q (hnext ▸ hq)
  sized := by
    intro q hq hne
    by_cases hqp : q = p
    · subst hqp
      exact hinst
    · rw [hsize' q hqp] at hne
      rw [hinst' q hqp]
      exact hs.sized q (hnext ▸ hq) hne

/-- The messages of a progress to pane `pId`: lulls for `lulls`, and a punctuation to all the
activated workers unless the pipeline is in order. -/
def progressSends (DIM : Nat) (iop : Bool) (active : Fin N → Bool) (lulls : List (Nat × Fin N))
    (ts : ℚ) (pId nw : Nat) : Sends N DIM :=
  (lulls.map fun x => (x.2, Tuple.createLull x.1)) ++ if iop then [] else
    ((List.finRange N).filter active).map fun v => (v, Tuple.createPunctuation ts pId nw)

/-- None of these messages is a tuple. -/
theorem progressSends_control {iop : Bool} {active : Fin N → Bool} {lulls : List (Nat × Fin N)}
    {ts : ℚ} {pId nw : Nat} {x : Fin N × Tuple DIM}
    (hx : x ∈ progressSends DIM iop active lulls ts pId nw) : x.2.type ≠ .regular := by
  rcases List.mem_append.mp hx with hx | hx
  · obtain ⟨y, -, rfl⟩ := List.mem_map.mp hx
    exact TypeMsg.noConfusion
  · cases iop with
    | true => exact absurd hx List.not_mem_nil
    | false =>
        obtain ⟨v, -, rfl⟩ := List.mem_map.mp hx
        exact TypeMsg.noConfusion

/-- They go to activated workers. -/
theorem progressSends_toActive {iop : Bool} {active : Fin N → Bool} {lulls : List (Nat × Fin N)}
    (hlulls : ∀ x ∈ lulls, active x.2 = true) {ts : ℚ} {pId nw : Nat} :
    ∀ x ∈ progressSends DIM iop active lulls ts pId nw, active x.1 = true := by
  intro x hx
  rcases List.mem_append.mp hx with hx | hx
  · obtain ⟨y, hy, rfl⟩ := List.mem_map.mp hx
    exact hlulls y hy
  · cases iop with
    | true => exact absurd hx List.not_mem_nil
    | false =>
        obtain ⟨v, hv, rfl⟩ := List.mem_map.mp hx
        exact (List.mem_filter.mp hv).2

variable (DIM) in
/-- **Closing panes is a ledger move**, if none of them has a partition without having tuples. -/
theorem Closes.move (iop : Bool) {n : Nat} {lulls : List (Nat × Fin N)} {s₁ : Sched N}
    (h : Closes s.nextPaneId n lulls s s₁) (hs : s.Sound held)
    (hgap : s.NoGap (s.nextPaneId + n)) (ts : ℚ) (nw : Nat) :
    Ledger.Move iop (s.ledger held)
      (progressSends DIM iop s.activatedWorker lulls ts (s.nextPaneId + n) nw)
      (Sched.ledger { s₁ with nextPaneId := s.nextPaneId + n } held) := by
  -- in a sound state without a gap, a pane is empty just when it has no instances
  have hiff : ∀ p, s.nextPaneId ≤ p → p < s.nextPaneId + n → (s.size p = 0 ↔ s.instances p = 0) := by
    intro p hp hlt
    refine ⟨hgap p hp hlt, fun hz => ?_⟩
    by_contra hne
    exact hs.sized p hp hne hz
  -- closing writes 1 into the panes without a count, as the ledger's close does
  have hcount : s₁.instances = ((s.ledger held).close (s.nextPaneId + n)).count := by
    funext p
    show _ = if s.nextPaneId ≤ p ∧ p < s.nextPaneId + n ∧ s.instances p = 0 then 1
      else s.instances p
    rw [h.instances p]
    by_cases hp : s.nextPaneId ≤ p ∧ p < s.nextPaneId + n
    · simp only [hp, true_and, hiff p hp.1 hp.2]
    · rw [if_neg fun hc => hp ⟨hc.1, hc.2.1⟩, if_neg fun hc => hp ⟨hc.1, hc.2.1⟩]
  have hledger : Sched.ledger { s₁ with nextPaneId := s.nextPaneId + n } held
      = (s.ledger held).close (s.nextPaneId + n) := by
    simp only [ledger, Ledger.close, Ledger.mk.injEq]
    exact ⟨trivial, h.activatedWorker, trivial, hcount⟩
  rw [hledger]
  refine Ledger.Move.close (s.ledger held) _ ts nw lulls (Nat.le_add_right _ _) ?_ ?_ ?_
  · rw [h.panes]
    exact (List.nodup_range').filter _
  · intro p
    rw [h.panes, List.mem_filter, List.mem_range'_1, decide_eq_true_eq]
    constructor
    · rintro ⟨⟨hp, hlt⟩, hz⟩
      exact ⟨hp, hlt, (hiff p hp hlt).mp hz⟩
    · rintro ⟨hp, hlt, hz⟩
      exact ⟨⟨hp, hlt⟩, (hiff p hp hlt).mpr hz⟩
  -- a pane with a count has a worker that holds it
  · intro p hp _ hne
    have hheld : held p ≠ [] := fun hnil => hne ((hs.held_iff p hp).mp hnil)
    obtain ⟨w, hw⟩ := List.exists_mem_of_ne_nil _ hheld
    exact ⟨w, List.mem_toFinset.mpr hw⟩

/-- What a progress to pane `pId` does. It is a ledger move if no pane that is closed without tuples
has a partition. -/
structure Progressed (iop : Bool) (held : Nat → List (Fin N)) (pId : Nat) (s s' : Sched N)
    (out : Sends N DIM) : Prop where
  moves : s.NoGap pId → Ledger.Moves iop (s.ledger held) out (s'.ledger held)
  sound : s'.Sound held
  nextPaneId : s'.nextPaneId = max s.nextPaneId pId
  nwPlq : s'.nwPlq = s.nwPlq
  activatedWorker : s'.activatedWorker = s.activatedWorker
  size : ∀ p, s'.size p = s.size p
  instances : ∀ p, s'.nextPaneId ≤ p → s'.instances p = s.instances p
  length : s'.pInstances.length =
    if pId < s.nextPaneId then s.pInstances.length else max s.pInstances.length (pId + 1)
  sends : pId < s.nextPaneId ∧ out = [] ∨ s.nextPaneId ≤ pId ∧ ∃ lulls ts,
    out = progressSends DIM iop s.activatedWorker lulls ts pId s.nwPlq ∧
      lulls.map Prod.fst =
        (List.range' s.nextPaneId (pId - s.nextPaneId)).filter (fun p => s.size p = 0) ∧
      ∀ x ∈ lulls, s.activatedWorker x.2 = true

/-- None of the messages of a progress is a tuple. -/
theorem Progressed.control {iop : Bool} {pId : Nat} {out : Sends N DIM}
    (h : Progressed iop held pId s s' out) : ∀ x ∈ out, x.2.type ≠ .regular := by
  intro x hx
  rcases h.sends with ⟨-, rfl⟩ | ⟨-, lulls, ts, rfl, -, -⟩
  · exact absurd hx List.not_mem_nil
  · exact progressSends_control hx

/-- They go to activated workers. -/
theorem Progressed.toActive {iop : Bool} {pId : Nat} {out : Sends N DIM}
    (h : Progressed iop held pId s s' out) : ∀ x ∈ out, s.activatedWorker x.1 = true := by
  intro x hx
  rcases h.sends with ⟨-, rfl⟩ | ⟨-, lulls, ts, rfl, -, hlulls⟩
  · exact absurd hx List.not_mem_nil
  · exact progressSends_toActive hlulls x hx

/-- In the out-of-order pipeline a progress keeps the routing, whichever panes it closes. -/
theorem Progressed.route {pId : Nat} {out : Sends N DIM} (hs : s.Sound held)
    (h : Progressed false held pId s s' out) :
    Ledger.Route (s.ledger held) out (s'.ledger held) := by
  rcases h.sends with ⟨hlt, rfl⟩ | ⟨hle, lulls, ts, rfl, hpanes, -⟩
  · -- nothing to do
    have hgap : s.NoGap pId := fun p hp hlt' => absurd (hp.trans_lt hlt') (Nat.not_lt.mpr hlt.le)
    exact Ledger.Route.moves (h.moves hgap)
  · have hnext : s'.nextPaneId = pId := by
      rw [h.nextPaneId]
      omega
    have hmem : ∀ p, p ∈ lulls.map Prod.fst ↔ s.nextPaneId ≤ p ∧ p < pId ∧ s.size p = 0 := by
      intro p
      rw [hpanes, List.mem_filter, List.mem_range'_1, decide_eq_true_eq, and_assoc]
      constructor
      · rintro ⟨hp, hlt, hz⟩
        exact ⟨hp, by omega, hz⟩
      · rintro ⟨hp, hlt, hz⟩
        exact ⟨hp, by omega, hz⟩
    have hroute : Ledger.Route (s.ledger held)
        ((lulls.map fun x => (x.2, (Tuple.createLull x.1 : Tuple DIM))) ++
          ((List.finRange N).filter s.activatedWorker).map fun v =>
            (v, Tuple.createPunctuation ts s'.nextPaneId s.nwPlq)) (s'.ledger held) := by
      refine Ledger.Route.close (s.ledger held) (s'.ledger held) ts s.nwPlq lulls
        (by show s.nextPaneId ≤ s'.nextPaneId; omega) h.activatedWorker rfl h.instances
        (fun p hp => ?_) (fun p hp hlt hz => ?_)
      · have := (hmem p).mp hp
        show s.nextPaneId ≤ p ∧ p < s'.nextPaneId
        omega
      · -- a pane without partitions has no tuples
        refine (hmem p).mpr ⟨hp, hnext ▸ hlt, ?_⟩
        by_contra hne
        exact hs.sized p hp hne hz
    · have hout : progressSends DIM false s.activatedWorker lulls ts pId s.nwPlq
          = (lulls.map fun x => (x.2, Tuple.createLull x.1)) ++
            ((List.finRange N).filter s.activatedWorker).map fun v =>
              (v, Tuple.createPunctuation ts s'.nextPaneId s.nwPlq) := by
        rw [progressSends, if_neg Bool.false_ne_true, hnext]
      rw [hout]
      exact hroute

/-- A progress to a pane that is closed already does nothing. -/
theorem Progressed.refl {iop : Bool} {pId : Nat} (hs : s.Sound held) (hlt : pId < s.nextPaneId) :
    Progressed iop held pId s s ([] : Sends N DIM) where
  moves := fun _ => Ledger.Moves.refl _
  sound := hs
  nextPaneId := by omega
  nwPlq := rfl
  activatedWorker := rfl
  size := fun _ => rfl
  instances := fun _ _ => rfl
  length := by rw [if_pos hlt]
  sends := Or.inl ⟨hlt, rfl⟩

variable (DIM) in
/-- The grown tables, with the panes below `pId` closed. -/
theorem Closes.progressed (iop : Bool) {pId : Nat} {lulls : List (Nat × Fin N)} {s₁ : Sched N}
    (hle : s.nextPaneId ≤ pId)
    (h : Closes s.nextPaneId (pId - s.nextPaneId) lulls (s.growTo pId) s₁) (hs : s.Sound held)
    (ts : ℚ) :
    Progressed iop held pId s { s₁ with nextPaneId := pId }
      (progressSends DIM iop s.activatedWorker lulls ts pId s₁.nwPlq) := by
  obtain ⟨n, rfl⟩ := Nat.exists_eq_add_of_le hle
  rw [Nat.add_sub_cancel_left] at h
  obtain ⟨g, hg⟩ : ∃ g, g = s.growTo (s.nextPaneId + n) := ⟨_, rfl⟩
  have hnext : g.nextPaneId = s.nextPaneId := by rw [hg, growTo_nextPaneId]
  have hnw : g.nwPlq = s.nwPlq := by rw [hg, growTo_nwPlq]
  have hactive : g.activatedWorker = s.activatedWorker := by rw [hg, growTo_activatedWorker]
  have hsize : ∀ p, g.size p = s.size p := fun p => by rw [hg, growTo_size hs.sizes]
  have hinst : ∀ p, g.instances p = s.instances p := fun p => by rw [hg, growTo_instances]
  have hsizes : g.paneSize.length = g.pInstances.length := by rw [hg, growTo_sizes hs.sizes]
  have hlen : g.pInstances.length = max s.pInstances.length (s.nextPaneId + n + 1) := by
    rw [hg, length_growTo]
  rw [← hg, ← hnext] at h
  -- the tables grow first, which the ledger does not see
  have hledger : g.ledger held = s.ledger held :=
    ledger_congr hnext hactive (fun _ => rfl) hinst
  have hgs : g.Sound held := {
    sizes := hsizes
    held_iff := by
      intro p hp
      rw [hinst]
      exact hs.held_iff p (hnext ▸ hp)
    sized := by
      intro p hp
      rw [hinst, hsize]
      exact hs.sized p (hnext ▸ hp) }
  have hmove : s.NoGap (s.nextPaneId + n) → Ledger.Moves iop (s.ledger held)
      (progressSends DIM iop s.activatedWorker lulls ts (s.nextPaneId + n) s₁.nwPlq)
      (Sched.ledger { s₁ with nextPaneId := s.nextPaneId + n } held) := by
    intro hgap
    have hggap : g.NoGap (g.nextPaneId + n) := by
      intro p hp hlt hz
      rw [hinst]
      exact hgap p (hnext ▸ hp) (hnext ▸ hlt) (hsize p ▸ hz)
    have hmove := h.move DIM iop hgs hggap ts s₁.nwPlq
    rw [hledger, hnext, hactive] at hmove
    exact hmove.moves
  have hinst' : ∀ p, s.nextPaneId + n ≤ p → s₁.instances p = s.instances p := by
    intro p hp
    rw [h.instances p, if_neg (by omega), hinst]
  have hsize' : ∀ p, s₁.size p = s.size p := by
    intro p
    rw [← hsize p, size, h.paneSize]
  exact {
    moves := hmove
    sound := {
      sizes := by
        show s₁.paneSize.length = s₁.pInstances.length
        rw [h.length, h.paneSize, hsizes]
      held_iff := by
        intro p hp
        show held p = [] ↔ s₁.instances p = 0
        rw [hinst' p hp]
        exact hs.held_iff p ((Nat.le_add_right _ _).trans hp)
      sized := by
        intro p hp
        show s₁.size p ≠ 0 → s₁.instances p ≠ 0
        rw [hinst' p hp, hsize' p]
        exact hs.sized p ((Nat.le_add_right _ _).trans hp) }
    nextPaneId := by
      show s.nextPaneId + n = _
      omega
    nwPlq := h.nwPlq.trans hnw
    activatedWorker := h.activatedWorker.trans hactive
    size := hsize'
    instances := hinst'
    length := by
      rw [if_neg (by omega), ← hlen]
      exact h.length
    sends := by
      refine Or.inr ⟨Nat.le_add_right _ _, lulls, ts, ?_, ?_, fun x hx => hactive ▸ h.toActive x hx⟩
      · rw [h.nwPlq, hnw]
      · rw [h.panes, hnext, Nat.add_sub_cancel_left]
        exact List.filter_congr fun p _ => by rw [hsize p] }

/-- **`executeStreamProgress` refines the ledger.** -/
theorem executeStreamProgress_refines (hact : s.HasActive) (hs : s.Sound held) (iop : Bool) (ts : ℚ)
    (pId : Nat) :
    ∃ (s' : Sched N) (out : Sends N DIM), s.executeStreamProgress iop ts pId = some (s', out) ∧
      Progressed iop held pId s s' out := by
  -- the progress returns at once for a pane already passed
  by_cases hlt : pId < s.nextPaneId
  · refine ⟨s, [], ?_, Progressed.refl hs hlt⟩
    rw [executeStreamProgress, if_pos hlt]
  · have hgact : (s.growTo pId).HasActive := by
      rw [HasActive, growTo_activatedWorker]
      exact hact
    obtain ⟨s₁, lulls, hclose, hcl⟩ := closePanes_spec DIM hgact
      (i := s.nextPaneId) (n := pId - s.nextPaneId) (by rw [length_growTo]; omega)
    refine ⟨_, _, ?_, hcl.progressed DIM iop (Nat.not_lt.mp hlt) hs ts⟩
    rw [executeStreamProgress, if_neg hlt]
    simp only [growTo_nextPaneId, hclose, Option.bind_eq_bind, Option.bind_some]
    -- only the variant for streams out of order broadcasts the punctuation as well
    cases iop with
    | true => simp [progressSends]
    | false =>
        simp [progressSends, broadcastPuncToW, hcl.activatedWorker]

/-! ## Scheduling tuples -/

/-- What scheduling the tuple `t` does: the tuple is sent, after the news of a new partition. It is a
ledger move if the pane is as the strategy needs it (`ok`). -/
structure Scheduled (iop : Bool) (ok : Prop) (t : Tuple DIM) (held held' : Nat → List (Fin N))
    (s s' : Sched N) (out : Sends N DIM) : Prop where
  moves : ok → Ledger.Moves iop (s.ledger held) out (s'.ledger held')
  route : iop = false → Ledger.Route (s.ledger held) out (s'.ledger held')
  nextPaneId : s'.nextPaneId = s.nextPaneId
  nwPlq : s'.nwPlq = s.nwPlq
  activatedWorker : s'.activatedWorker = s.activatedWorker
  size : ∀ q, s'.size q = if q = t.paneId then s.size t.paneId + 1 else s.size q
  length : s'.pInstances.length = max s.pInstances.length (t.paneId + 1)
  sent : ∃ news w n, out = news ++ [(w, { t with noInstances := n })] ∧
    ∀ x ∈ news, x.2.type = .newInst
  toActive : ∀ x ∈ out, s.activatedWorker x.1 = true

/-- Scheduling a tuple is a ledger move where the strategy asks for nothing. -/
theorem Scheduled.of_moves {iop : Bool} {ok : Prop} {t : Tuple DIM} {out : Sends N DIM}
    (moves : Ledger.Moves iop (s.ledger held) out (s'.ledger held'))
    (nextPaneId : s'.nextPaneId = s.nextPaneId) (nwPlq : s'.nwPlq = s.nwPlq)
    (activatedWorker : s'.activatedWorker = s.activatedWorker)
    (size : ∀ q, s'.size q = if q = t.paneId then s.size t.paneId + 1 else s.size q)
    (length : s'.pInstances.length = max s.pInstances.length (t.paneId + 1))
    (sent : ∃ news w n, out = news ++ [(w, { t with noInstances := n })] ∧
      ∀ x ∈ news, x.2.type = .newInst)
    (toActive : ∀ x ∈ out, s.activatedWorker x.1 = true) :
    Scheduled iop ok t held held' s s' out where
  moves := fun _ => moves
  -- for streams out of order the moves give the routing, whatever the strategy asks for
  route := fun hi => Ledger.Route.moves (hi ▸ moves)
  nextPaneId := nextPaneId
  nwPlq := nwPlq
  activatedWorker := activatedWorker
  size := size
  length := length
  sent := sent
  toActive := toActive

/-- `s'` is `c` with at most another count of the partitions of pane `p`. -/
structure Rewritten (p : Nat) (c s' : Sched N) : Prop where
  nextPaneId : s'.nextPaneId = c.nextPaneId
  nwPlq : s'.nwPlq = c.nwPlq
  activatedWorker : s'.activatedWorker = c.activatedWorker
  paneSize : s'.paneSize = c.paneSize
  length : s'.pInstances.length = c.pInstances.length
  instances : ∀ q, q ≠ p → s'.instances q = c.instances q

/-- What `sched_to_worker` goes on from: `c` is `s` with the tuple counted. -/
structure Arrives (iop : Bool) (t : Tuple DIM) (held : Nat → List (Fin N)) (s c : Sched N) :
    Prop where
  sound : s.Sound held
  type : t.type = .regular
  mayOpen : (s.ledger held).MayOpen iop t.paneId
  counted : Counted t.paneId s c

/-- The tables have room for the pane of the tuple. -/
theorem Arrives.lt {iop : Bool} {t : Tuple DIM} {c : Sched N} (h : Arrives iop t held s c) :
    t.paneId < c.pInstances.length := by
  have := h.counted.length
  omega

section

variable {iop : Bool} {ok : Prop} {t : Tuple DIM} {c : Sched N} {w : Fin N}

/-- The tables fit together if the pane of the tuple is left with a partition. -/
theorem Rewritten.sound (hw : Rewritten t.paneId c s') (h : Arrives iop t held s c)
    (hoff : ∀ q, q ≠ t.paneId → held' q = held q) (hne : held' t.paneId ≠ [])
    (hinst : s'.instances t.paneId ≠ 0) : s'.Sound held' := by
  refine h.sound.of_eq_off ?_ (hw.nextPaneId.trans h.counted.nextPaneId) hne hinst hoff
    (fun q hq => (hw.instances q hq).trans (h.counted.instances q)) fun q hq => ?_
  · rw [hw.paneSize, hw.length, h.counted.sizes]
  · have hsize := h.counted.size q
    rw [if_neg hq] at hsize
    rwa [size, hw.paneSize]

/-- Scheduling the tuple, but for its moves. -/
theorem Rewritten.scheduled (hw : Rewritten t.paneId c s') (h : Arrives iop t held s c)
    {out : Sends N DIM} (hmoves : Ledger.Moves iop (s.ledger held) out (s'.ledger held'))
    (hsent : ∃ news w n, out = news ++ [(w, { t with noInstances := n })] ∧
      ∀ x ∈ news, x.2.type = .newInst)
    (htoActive : ∀ x ∈ out, s.activatedWorker x.1 = true) :
    Scheduled iop ok t held held' s s' out := by
  refine Scheduled.of_moves hmoves (hw.nextPaneId.trans h.counted.nextPaneId)
    (hw.nwPlq.trans h.counted.nwPlq) (hw.activatedWorker.trans h.counted.activatedWorker)
    (fun q => ?_) ?_ hsent htoActive
  · rw [size, hw.paneSize]
    exact h.counted.size q
  · rw [hw.length, h.counted.length]

/-- The tuple goes to a worker that has a partition of the pane. -/
theorem Rewritten.fed (hw : Rewritten t.paneId c s') (h : Arrives iop t held s c)
    (hoff : ∀ q, q ≠ t.paneId → held' q = held q)
    (hsame : (held' t.paneId).toFinset = (held t.paneId).toFinset) (hmem : w ∈ held t.paneId)
    (hwa : s.activatedWorker w = true) (hinst : s'.instances t.paneId = s.instances t.paneId)
    (n : Nat) :
    s'.Sound held' ∧ Scheduled iop ok t held held' s s' [(w, { t with noInstances := n })] := by
  -- the pane keeps its holder, so it still has a worker and a count
  have hne : held' t.paneId ≠ [] := by
    have hw' : w ∈ (held' t.paneId).toFinset := by
      rw [hsame]
      exact List.mem_toFinset.mpr hmem
    exact List.ne_nil_of_mem (List.mem_toFinset.mp hw')
  have hpos : s.instances t.paneId ≠ 0 := by
    intro hz
    have hnil := (h.sound.held_iff _ h.mayOpen.1).mpr hz
    exact List.ne_nil_of_mem hmem hnil
  -- the ledger sees no change: neither holders nor counts have moved
  have hledger : s'.ledger held' = s.ledger held := by
    refine ledger_congr (hw.nextPaneId.trans h.counted.nextPaneId)
      (hw.activatedWorker.trans h.counted.activatedWorker) (fun q => ?_) fun q => ?_
    · by_cases hq : q = t.paneId
      · rw [hq, hsame]
      · rw [hoff q hq]
    · by_cases hq : q = t.paneId
      · rw [hq, hinst]
      · rw [hw.instances q hq, h.counted.instances]
  refine ⟨hw.sound h hoff hne (hinst ▸ hpos), hw.scheduled h ?_
    ⟨[], w, n, rfl, fun _ hx => absurd hx List.not_mem_nil⟩ fun x hx => ?_⟩
  · rw [hledger]
    exact (Ledger.Move.feed (s.ledger held) w { t with noInstances := n } h.type h.mayOpen
      (List.mem_toFinset.mpr hmem)).moves
  · rw [List.mem_singleton.mp hx]
    exact hwa

/-- The tuple opens a partition of the pane, and the other holders are told. -/
theorem Rewritten.opened (hw : Rewritten t.paneId c s') (h : Arrives iop t held s c)
    (hoff : ∀ q, q ≠ t.paneId → held' q = held q)
    (hnew : held' t.paneId = held t.paneId ++ [w]) (hmem : w ∉ held t.paneId)
    (hwa : s.activatedWorker w = true)
    (hheldact : ∀ v ∈ held t.paneId, s.activatedWorker v = true)
    (hinst : s'.instances t.paneId = s.instances t.paneId + 1) :
    s'.Sound held' ∧ Scheduled iop ok t held held' s s'
      (((held t.paneId).map fun v => (v, Tuple.createNewinst t.paneId
        (s.instances t.paneId + 1) (held t.paneId).length)) ++
      [(w, { t with noInstances := s.instances t.paneId + 1 })]) := by
  -- a partition opened is a split of the ledger
  have hledger : s'.ledger held' = (s.ledger held).split t.paneId w := by
    refine ledger_split (hw.nextPaneId.trans h.counted.nextPaneId)
      (hw.activatedWorker.trans h.counted.activatedWorker) ?_ (fun q hq => ?_) hinst fun q hq => ?_
    · rw [hnew]
      ext v
      simp
    · rw [hoff q hq]
    · exact (hw.instances q hq).trans (h.counted.instances q)
  refine ⟨hw.sound h hoff ?_ ?_, hw.scheduled h ?_ ⟨_, w, _, rfl, ?_⟩ fun x hx => ?_⟩
  · rw [hnew]
    exact List.append_ne_nil_of_right_ne_nil _ (List.cons_ne_nil _ _)
  · rw [hinst]
    exact Nat.succ_ne_zero _
  · rw [hledger]
    refine (Ledger.Move.split (s.ledger held) (held t.paneId) w
      { t with noInstances := s.instances t.paneId + 1 } (Or.inl h.type) h.mayOpen rfl ?_ hwa
      rfl).moves
    exact fun hm => hmem (List.mem_toFinset.mp hm)
  -- all messages ahead of the tuple are NEWINST, to the holders the pane had
  · intro x hx
    obtain ⟨v, -, rfl⟩ := List.mem_map.mp hx
    rfl
  · rcases List.mem_append.mp hx with hx | hx
    · obtain ⟨v, hv, rfl⟩ := List.mem_map.mp hx
      exact hheldact v hv
    · rw [List.mem_singleton.mp hx]
      exact hwa

end

/-! ## Removing workers -/

/-- What removing the workers `ws`, which are `num`, does. -/
structure Removed (iop : Bool) (num : Nat) (ws : List (Fin N)) (held held' : Nat → List (Fin N))
    (s s' : Sched N) (out : Sends N DIM) : Prop where
  moves : Ledger.Moves iop (s.ledger held) out (s'.ledger held')
  nextPaneId : s'.nextPaneId = s.nextPaneId
  nwPlq : s'.nwPlq = s.nwPlq - num
  activatedWorker : s'.activatedWorker = fun v => s.activatedWorker v && !decide (v ∈ ws)
  paneSize : s'.paneSize = s.paneSize
  length : s'.pInstances.length = s.pInstances.length
  control : ∀ x ∈ out, x.2.type ≠ .regular ∧ x.2.type ≠ .punct
  toActive : ∀ x ∈ out, x.2.type = .flush ∨ s'.activatedWorker x.1 = true

/-- In the in-order pipeline the tables end with the current pane. -/
def Single (iop : Bool) (s : Sched N) : Prop :=
  iop = true → s.pInstances.length ≤ s.nextPaneId + 1

/-- So a pane of the tables that is not closed may get a partition. -/
theorem Single.mayOpen {iop : Bool} (h : s.Single iop) {p : Nat} (hp : s.nextPaneId ≤ p)
    (hlt : p < s.pInstances.length) : (s.ledger held).MayOpen iop p := by
  refine ⟨hp, fun hi => ?_⟩
  have hlen := h hi
  show p = s.nextPaneId
  omega

/-- What is left of the holders while a removal has dealt with the panes below `p`: from there on the
de-activated workers have not been dropped from the table yet. -/
def kept (s : Sched N) (held : Nat → List (Fin N)) (p q : Nat) : List (Fin N) :=
  if p ≤ q then (held q).filter s.activatedWorker else held q

/-- An open pane keeps the partitions of the workers that stay. -/
theorem kept_of_le {p q : Nat} (h : p ≤ q) :
    s.kept held p q = (held q).filter s.activatedWorker := if_pos h

/-- A closed one is not looked at. -/
theorem kept_of_lt {p q : Nat} (h : q < p) : s.kept held p q = held q := if_neg (by omega)

/-- Moving past a pane whose holders are all activated changes nothing. -/
theorem kept_succ {p : Nat} (h : ∀ w ∈ held p, s.activatedWorker w = true) (q : Nat) :
    s.kept held (p + 1) q = s.kept held p q := by
  rcases lt_trichotomy q p with hq | rfl | hq
  · rw [kept_of_lt hq, kept_of_lt (by omega)]
  · rw [kept_of_lt (Nat.lt_succ_self q), kept_of_le le_rfl]
    exact (List.filter_eq_self.mpr h).symm
  · rw [kept_of_le hq.le, kept_of_le (by omega)]

/-- Past the end of the table nothing is left to do. -/
theorem kept_of_nil {p : Nat} (h : ∀ q, p ≤ q → held q = []) : s.kept held p = held := by
  funext q
  by_cases hq : p ≤ q
  · rw [kept_of_le hq, h q hq]
    rfl
  · exact kept_of_lt (Nat.not_le.mp hq)

/-- De-activating workers retires them from the ledger. -/
theorem ledger_deactivated (hact : ∀ p, s.nextPaneId ≤ p → ∀ w ∈ held p, s.activatedWorker w = true)
    (num : Nat) (ws : List (Fin N)) :
    (s.deactivated num ws).ledger ((s.deactivated num ws).kept held s.nextPaneId)
      = (s.ledger held).retire ws := by
  refine Ledger.ext rfl rfl (funext fun q => ?_) rfl
  -- the removed workers give up the panes still open and keep the ones already closed
  by_cases hq : s.nextPaneId ≤ q
  · have hretire : ((s.ledger held).retire ws).holders q = (held q).toFinset \ ws.toFinset :=
      if_pos hq
    rw [hretire]
    show ((s.deactivated num ws).kept held s.nextPaneId q).toFinset = _
    rw [kept_of_le hq]
    ext w
    simp only [List.mem_toFinset, List.mem_filter, Finset.mem_sdiff, deactivated,
      Bool.and_eq_true, Bool.not_eq_true', decide_eq_false_iff_not]
    constructor
    · rintro ⟨hw, -, hws⟩
      exact ⟨hw, hws⟩
    · rintro ⟨hw, hws⟩
      exact ⟨hw, hact q hq w hw, hws⟩
  · have hretire : ((s.ledger held).retire ws).holders q = (held q).toFinset := if_neg hq
    rw [hretire]
    show ((s.deactivated num ws).kept held s.nextPaneId q).toFinset = _
    rw [kept_of_lt (Nat.not_le.mp hq)]

/-- What the loop over the non-closed panes from `p` on does, after the de-activations. -/
structure Reassigned (iop : Bool) (p : Nat) (held held' : Nat → List (Fin N)) (s s' : Sched N)
    (out : Sends N DIM) : Prop where
  moves : Ledger.Moves iop (s.ledger (s.kept held p)) out (s'.ledger held')
  nextPaneId : s'.nextPaneId = s.nextPaneId
  nwPlq : s'.nwPlq = s.nwPlq
  activatedWorker : s'.activatedWorker = s.activatedWorker
  paneSize : s'.paneSize = s.paneSize
  length : s'.pInstances.length = s.pInstances.length
  control : ∀ x ∈ out, x.2.type ≠ .regular ∧ x.2.type ≠ .punct
  toActive : ∀ x ∈ out, s.activatedWorker x.1 = true

/-- Past the end of the table the loop does nothing. -/
theorem Reassigned.refl {iop : Bool} {p : Nat} (h : ∀ q, p ≤ q → held q = []) :
    Reassigned iop p held held s s ([] : Sends N DIM) where
  moves := by
    rw [kept_of_nil h]
    exact Ledger.Moves.refl _
  nextPaneId := rfl
  nwPlq := rfl
  activatedWorker := rfl
  paneSize := rfl
  length := rfl
  control := fun _ hx => absurd hx List.not_mem_nil
  toActive := fun _ hx => absurd hx List.not_mem_nil

/-- What the loop of `removeWorkers` does at pane `p`. -/
structure PaneReassigned (iop : Bool) (p : Nat) (held held' : Nat → List (Fin N)) (s s' : Sched N)
    (out : Sends N DIM) : Prop where
  sound : s'.Sound held'
  moves : Ledger.Moves iop (s.ledger (s.kept held p)) out (s'.ledger (s'.kept held' (p + 1)))
  nextPaneId : s'.nextPaneId = s.nextPaneId
  nwPlq : s'.nwPlq = s.nwPlq
  activatedWorker : s'.activatedWorker = s.activatedWorker
  paneSize : s'.paneSize = s.paneSize
  length : s'.pInstances.length = s.pInstances.length
  control : ∀ x ∈ out, x.2.type ≠ .regular ∧ x.2.type ≠ .punct
  toActive : ∀ x ∈ out, s.activatedWorker x.1 = true

variable {iop : Bool} {p : Nat} {w : Fin N}

/-- A pane whose holders are all activated stays as it is. -/
theorem PaneReassigned.refl (hs : s.Sound held) (hstay : ∀ w ∈ held p, s.activatedWorker w = true) :
    PaneReassigned iop p held held s s ([] : Sends N DIM) where
  sound := hs
  moves := by
    -- nothing is sent, so the panes kept up to here and up to the next one are the same
    have hledger : s.ledger (s.kept held (p + 1)) = s.ledger (s.kept held p) :=
      ledger_congr rfl rfl (fun q => by rw [kept_succ hstay]) fun _ => rfl
    rw [hledger]
    exact Ledger.Moves.refl _
  nextPaneId := rfl
  nwPlq := rfl
  activatedWorker := rfl
  paneSize := rfl
  length := rfl
  control := fun _ hx => absurd hx List.not_mem_nil
  toActive := fun _ hx => absurd hx List.not_mem_nil

/-- The holders of the other panes once a pane has been dealt with. -/
theorem Rewritten.kept_of_ne (hw : Rewritten p s s') (hoff : ∀ q, q ≠ p → held' q = held q) {q : Nat}
    (hq : q ≠ p) : s'.kept held' (p + 1) q = s.kept held p q := by
  rcases lt_or_gt_of_ne hq with hlt | hgt
  · rw [Sched.kept_of_lt (by omega), Sched.kept_of_lt hlt, hoff q hq]
  · rw [Sched.kept_of_le hgt, Sched.kept_of_le hgt.le, hoff q hq, hw.activatedWorker]

/-- The tables fit together if the pane is left with a partition. -/
theorem Rewritten.sound_pane (hw : Rewritten p s s') (hs : s.Sound held)
    (hoff : ∀ q, q ≠ p → held' q = held q) (hne : held' p ≠ []) (hinst : s'.instances p ≠ 0) :
    s'.Sound held' := by
  refine hs.of_eq_off ?_ hw.nextPaneId hne hinst hoff hw.instances fun q _ => ?_
  · rw [hw.paneSize, hw.length, hs.sizes]
  · rw [size, hw.paneSize]

/-- The holders that are still activated keep the pane. -/
theorem Rewritten.kept (hw : Rewritten p s s') (hs : s.Sound held) (hp : s.nextPaneId ≤ p)
    (hoff : ∀ q, q ≠ p → held' q = held q) (hkept : held' p = (held p).filter s.activatedWorker)
    (hne : held' p ≠ []) (hinst : s'.instances p = s.instances p) :
    PaneReassigned iop p held held' s s' ([] : Sends N DIM) where
  sound := by
    refine hw.sound_pane hs hoff hne ?_
    rw [hinst]
    intro hz
    rw [hkept, (hs.held_iff p hp).mpr hz] at hne
    exact hne rfl
  moves := by
    -- the pane keeps its remaining holders and its count, nothing is announced
    have hledger : s'.ledger (s'.kept held' (p + 1)) = s.ledger (s.kept held p) := by
      refine ledger_congr hw.nextPaneId hw.activatedWorker (fun q => ?_) fun q => ?_
      · by_cases hq : q = p
        · rw [hq, Sched.kept_of_lt (Nat.lt_succ_self p), Sched.kept_of_le le_rfl, hkept]
        · rw [hw.kept_of_ne hoff hq]
      · by_cases hq : q = p
        · rw [hq, hinst]
        · exact hw.instances q hq
    rw [hledger]
    exact Ledger.Moves.refl _
  nextPaneId := hw.nextPaneId
  nwPlq := hw.nwPlq
  activatedWorker := hw.activatedWorker
  paneSize := hw.paneSize
  length := hw.length
  control := fun _ hx => absurd hx List.not_mem_nil
  toActive := fun _ hx => absurd hx List.not_mem_nil

variable (DIM) in
/-- The pane is split: an `EMPTYPANE` message opens another partition, and the holders that are still
activated are told. -/
theorem Rewritten.split (hw : Rewritten p s s') (hs : s.Sound held)
    (hp : (s.ledger held).MayOpen iop p) (hoff : ∀ q, q ≠ p → held' q = held q)
    (hnew : held' p = (held p).filter s.activatedWorker ++ [w])
    (hmem : w ∉ (held p).filter s.activatedWorker) (hwa : s.activatedWorker w = true)
    (hinst : s'.instances p = s.instances p + 1) :
    PaneReassigned iop p held held' s s' ((((held p).filter s.activatedWorker).map fun v =>
        (v, (Tuple.createNewinst p (s.instances p + 1)
          ((held p).filter s.activatedWorker).length : Tuple DIM))) ++
      [(w, Tuple.createEmptypane p (s.instances p + 1))]) where
  sound := by
    refine hw.sound_pane hs hoff ?_ ?_
    · rw [hnew]
      exact List.append_ne_nil_of_right_ne_nil _ (List.cons_ne_nil _ _)
    · rw [hinst]
      exact Nat.succ_ne_zero _
  moves := by
    have hkept : s.kept held p p = (held p).filter s.activatedWorker := Sched.kept_of_le le_rfl
    -- the pane whose worker left is split towards the new one, by an EMPTY_PANE message
    have hledger : s'.ledger (s'.kept held' (p + 1)) = (s.ledger (s.kept held p)).split p w := by
      refine ledger_split hw.nextPaneId hw.activatedWorker ?_ (fun q hq => ?_) hinst hw.instances
      · rw [Sched.kept_of_lt (Nat.lt_succ_self p), hkept, hnew]
        ext v
        simp
      · rw [hw.kept_of_ne hoff hq]
    rw [hledger]
    refine (Ledger.Move.split (s.ledger (s.kept held p)) ((held p).filter s.activatedWorker) w
      (Tuple.createEmptypane p (s.instances p + 1)) (Or.inr rfl) hp ?_ ?_ hwa rfl).moves
    · show _ = (s.kept held p p).toFinset
      rw [hkept]
    · show w ∉ (s.kept held p p).toFinset
      rw [hkept]
      exact fun hm => hmem (List.mem_toFinset.mp hm)
  nextPaneId := hw.nextPaneId
  nwPlq := hw.nwPlq
  activatedWorker := hw.activatedWorker
  paneSize := hw.paneSize
  length := hw.length
  -- reassigning a pane sends NEWINST and EMPTY_PANE messages only
  control := by
    intro x hx
    rcases List.mem_append.mp hx with hx | hx
    · obtain ⟨v, -, rfl⟩ := List.mem_map.mp hx
      exact ⟨TypeMsg.noConfusion, TypeMsg.noConfusion⟩
    · rw [List.mem_singleton.mp hx]
      exact ⟨TypeMsg.noConfusion, TypeMsg.noConfusion⟩
  toActive := by
    intro x hx
    rcases List.mem_append.mp hx with hx | hx
    · obtain ⟨v, hv, rfl⟩ := List.mem_map.mp hx
      exact (List.mem_filter.mp hv).2
    · rw [List.mem_singleton.mp hx]
      exact hwa

/-- One pane, then the rest of the loop. -/
theorem PaneReassigned.cons {s₁ : Sched N} {held₁ : Nat → List (Fin N)} {out outs : Sends N DIM}
    (h : PaneReassigned iop p held held₁ s s₁ out)
    (hrest : Reassigned iop (p + 1) held₁ held' s₁ s' outs) :
    Reassigned iop p held held' s s' (out ++ outs) where
  moves := h.moves.trans hrest.moves
  nextPaneId := hrest.nextPaneId.trans h.nextPaneId
  nwPlq := hrest.nwPlq.trans h.nwPlq
  activatedWorker := hrest.activatedWorker.trans h.activatedWorker
  paneSize := hrest.paneSize.trans h.paneSize
  length := hrest.length.trans h.length
  control := by
    intro x hx
    -- the messages of this pane, then those of the panes above
    rcases List.mem_append.mp hx with hx | hx
    · exact h.control x hx
    · exact hrest.control x hx
  toActive := by
    intro x hx
    rcases List.mem_append.mp hx with hx | hx
    · exact h.toActive x hx
    · rw [← h.activatedWorker]
      exact hrest.toActive x hx

/-- The de-activations and flushes, then the loop. -/
theorem Reassigned.removed {iop : Bool} {num : Nat} {ws : List (Fin N)} {out : Sends N DIM}
    (hws : ws.Nodup)
    (hact : ∀ p, s.nextPaneId ≤ p → ∀ w ∈ held p, s.activatedWorker w = true)
    (h : Reassigned iop s.nextPaneId held held' (s.deactivated num ws) s' out) :
    Removed iop num ws held held' s s'
      ((ws.map fun w => (w, Tuple.createFlush ws.length s.nextPaneId)) ++ out) where
  moves := by
    -- the FLUSH messages retire the workers, the reassignment follows from that ledger
    have hm := h.moves
    rw [ledger_deactivated hact] at hm
    exact (Ledger.Move.retire (s.ledger held) ws hws).moves.trans hm
  nextPaneId := h.nextPaneId
  nwPlq := h.nwPlq
  activatedWorker := h.activatedWorker
  paneSize := h.paneSize
  length := h.length
  control := by
    intro x hx
    rcases List.mem_append.mp hx with hx | hx
    · obtain ⟨w, -, rfl⟩ := List.mem_map.mp hx
      exact ⟨TypeMsg.noConfusion, TypeMsg.noConfusion⟩
    · exact h.control x hx
  toActive := by
    intro x hx
    rcases List.mem_append.mp hx with hx | hx
    -- a FLUSH goes to a worker just removed, the rest to workers that stay activated
    · obtain ⟨w, -, rfl⟩ := List.mem_map.mp hx
      exact Or.inl rfl
    · right
      rw [h.activatedWorker]
      exact h.toActive x hx

/-- Holders are sound whoever is activated. -/
theorem Sound.deactivated (hs : s.Sound held) (num : Nat) (ws : List (Fin N)) :
    (s.deactivated num ws).Sound held :=
  ⟨hs.sizes, hs.held_iff, hs.sized⟩

end Sched

end ElasticPPQ
