import ElasticPPQ.Plq.Adaptive
import ElasticPPQ.Plq.PbRr
import ElasticPPQ.Plq.TbRr

/-! # What a strategy offers, and what refining the ledger means

The abstract class `Sched` as a record of methods (`Strategy`), with the three strategies as
instances, and the properties of a strategy that the count protocol rests on
(`Strategy.Refinement`). -/

namespace ElasticPPQ

variable {N DIM : Nat}

/-- A scheduling strategy: its state and its virtual methods. What a method reads from outside the
state is its environment. -/
structure Strategy (N DIM : Nat) where
  /-- The state of the object. -/
  State : Type
  /-- What a method reads from outside of the state. -/
  Env : Type
  /-- The part of the state declared in `Sched`. -/
  base : State → Sched N
  /-- The part of the state declared in `Sched` is overwritten. -/
  setBase : Sched N → State → State
  /-- The constructor. -/
  new : Nat → State
  /-- `sched_to_worker`. -/
  schedToWorker : Env → Tuple DIM → State → Option (State × Sends N DIM)
  /-- `executeStreamProgress`. -/
  executeStreamProgress : Env → Bool → ℚ → Nat → State → Option (State × Sends N DIM)
  /-- `removeWorkers`. -/
  removeWorkers : Env → Nat → List (Fin N) → State → Option (State × Sends N DIM)

/-- `PB_RR_Sched` as a strategy. -/
def PbRrSched.strategy (N DIM : Nat) : Strategy N DIM where
  State := PbRrSched N
  Env := Unit
  base := PbRrSched.toSched
  setBase := fun b s => { s with toSched := b }
  new := PbRrSched.new N
  schedToWorker := fun _ t s => s.schedToWorker t
  executeStreamProgress := fun _ iop ts pId s => s.executeStreamProgress iop ts pId
  removeWorkers := fun _ num ws s => s.removeWorkers num ws

/-- `TB_RR_Sched` as a strategy. -/
def TbRrSched.strategy (N DIM : Nat) : Strategy N DIM where
  State := TbRrSched N
  Env := Unit
  base := TbRrSched.toSched
  setBase := fun b s => { s with toSched := b }
  new := TbRrSched.new N
  schedToWorker := fun _ t s => s.schedToWorker t
  executeStreamProgress := fun _ iop ts pId s => s.executeStreamProgress iop ts pId
  removeWorkers := fun _ num ws s => s.removeWorkers num ws

/-- `Adaptive_Sched` and `Adaptive_Sched_PID` as a strategy. -/
def AdaptiveSched.strategy (N DIM : Nat) : Strategy N DIM where
  State := AdaptiveSched N
  Env := AdaptiveEnv N
  base := AdaptiveSched.toSched
  setBase := fun b s => { s with toSched := b }
  new := AdaptiveSched.new N
  schedToWorker := fun env t s => s.schedToWorker env t
  executeStreamProgress := fun env iop ts pId s => s.executeStreamProgress env iop ts pId
  removeWorkers := fun env num ws s => s.removeWorkers env num ws

namespace Strategy

/-- `addWorkers`, which no strategy overrides. -/
def addWorkers (S : Strategy N DIM) (num : Nat) (ws : List (Fin N)) (s : S.State) :
    Option S.State :=
  ((S.base s).addWorkers num ws).map fun b => S.setBase b s

/-- `broadcast_end_to_w`, which no strategy overrides. -/
def broadcastEndToW (S : Strategy N DIM) (s : S.State) : S.State × Sends N DIM :=
  let (b, out) := (S.base s).broadcastEndToW
  (S.setBase b s, out)

/-- The methods refine moves of the ledger. What scheduling the first tuple of a pane asks for
depends on the strategy (`FirstOk`); the other preconditions are the same for all. -/
structure Refinement (S : Strategy N DIM) where
  /-- The workers that have a partition of each pane. -/
  held : S.State → Nat → List (Fin N)
  /-- The invariant of the tables. -/
  Inv : S.State → Prop
  /-- What scheduling a first tuple of a pane asks for. -/
  FirstOk : S.Env → Nat → S.State → Prop
  base_setBase : ∀ b s, S.base (S.setBase b s) = b
  held_setBase : ∀ b s, held (S.setBase b s) = held s
  inv_setBase : ∀ {b s}, Inv s → b.pInstances = (S.base s).pInstances →
    b.paneSize = (S.base s).paneSize → b.nextPaneId = (S.base s).nextPaneId → Inv (S.setBase b s)
  base_new : ∀ nw, S.base (S.new nw) = Sched.new N nw
  inv_new : ∀ nw, Inv (S.new nw)
  sound : ∀ {s}, Inv s → (S.base s).Sound (held s)
  firstOk : ∀ {s p}, Inv s → (S.base s).nextPaneId ≤ p →
    ((S.base s).size p = 0 → (S.base s).instances p = 0) → ∀ env, FirstOk env p s
  schedToWorker : ∀ {iop s t}, Inv s → (S.base s).HasActive →
    (∀ p, (S.base s).nextPaneId ≤ p → ∀ w ∈ held s p, (S.base s).activatedWorker w = true) →
    t.type = .regular → ((S.base s).ledger (held s)).MayOpen iop t.paneId → ∀ env,
    ∃ s' out, S.schedToWorker env t s = some (s', out) ∧ Inv s' ∧
      Sched.Scheduled iop (FirstOk env t.paneId s) t (held s) (held s') (S.base s) (S.base s') out
  executeStreamProgress : ∀ {s}, Inv s → (S.base s).HasActive → ∀ env iop ts pId,
    ∃ s' out, S.executeStreamProgress env iop ts pId s = some (s', out) ∧ Inv s' ∧
      held s' = held s ∧ Sched.Progressed iop (held s) pId (S.base s) (S.base s') out
  removeWorkers : ∀ {iop s ws}, Inv s → ws.Nodup →
    (∀ w ∈ ws, (S.base s).activatedWorker w = true) →
    (∃ w, w ∉ ws ∧ (S.base s).activatedWorker w = true) →
    (∀ p, (S.base s).nextPaneId ≤ p → ∀ w ∈ held s p, (S.base s).activatedWorker w = true) →
    (S.base s).Single iop → ∀ env num, ∃ s' out, S.removeWorkers env num ws s = some (s', out) ∧
      Inv s' ∧ Sched.Removed iop num ws (held s) (held s') (S.base s) (S.base s') out

/-- **Adding de-activated workers** leaves the tables as they are. -/
theorem Refinement.addWorkers {S : Strategy N DIM} (Rf : S.Refinement) {s : S.State}
    (h : Rf.Inv s) {ws : List (Fin N)} (hws : ws.Nodup)
    (hinactive : ∀ w ∈ ws, (S.base s).activatedWorker w = false) (num : Nat) :
    ∃ s', S.addWorkers num ws s = some s' ∧ Rf.Inv s' ∧ Rf.held s' = Rf.held s ∧
      S.base s' = { S.base s with
        nwPlq := (S.base s).nwPlq + num
        activatedWorker := fun v => (S.base s).activatedWorker v || decide (v ∈ ws) } := by
  have hadd := Sched.addWorkers_spec hws hinactive num
  refine ⟨_, ?_, ?_, ?_, Rf.base_setBase _ s⟩
  · rw [Strategy.addWorkers, hadd, Option.map_some]
  · exact Rf.inv_setBase h rfl rfl rfl
  · exact Rf.held_setBase _ s

/-- **The end of the stream** goes to every worker; the tables stay, and all workers count as
activated. -/
theorem Refinement.broadcastEndToW {S : Strategy N DIM} (Rf : S.Refinement) {s : S.State}
    (h : Rf.Inv s) :
    ∃ s', S.broadcastEndToW s = (s', (List.finRange N).map fun i => (i, Tuple.createEnd N)) ∧
      Rf.Inv s' ∧ Rf.held s' = Rf.held s ∧
      S.base s' = { S.base s with activatedWorker := fun _ => true } := by
  refine ⟨_, rfl, ?_, ?_, Rf.base_setBase _ s⟩
  · exact Rf.inv_setBase h rfl rfl rfl
  · exact Rf.held_setBase _ s

end Strategy

/-- Soundness of the tables reads no other field. -/
theorem Sched.Sound.of_tables {s s' : Sched N} {held : Nat → List (Fin N)} (h : s.Sound held)
    (hi : s'.pInstances = s.pInstances) (hs : s'.paneSize = s.paneSize)
    (hn : s'.nextPaneId = s.nextPaneId) : s'.Sound held where
  sizes := by rw [hi, hs, h.sizes]
  held_iff := fun p hp => by rw [Sched.instances, hi]; exact h.held_iff p (hn ▸ hp)
  sized := fun p hp => by rw [Sched.instances, Sched.size, hi, hs]; exact h.sized p (hn ▸ hp)

/-- Pane-based round-robin refines the ledger. -/
def PbRrSched.refinement (N DIM : Nat) : (PbRrSched.strategy N DIM).Refinement where
  held := PbRrSched.held
  Inv := PbRrSched.Inv
  -- a first tuple is scheduled like any other, it asks for nothing
  FirstOk := fun _ _ _ => True
  base_setBase := fun _ _ => rfl
  held_setBase := fun _ _ => rfl
  inv_setBase := fun h hi hs hn => {
    sound := h.sound.of_tables hi hs hn
    length := h.length.trans (congrArg List.length hi.symm)
    filled := fun p hp => by
      rw [Sched.instances, Sched.size]
      show _ → _
      simp only [strategy] at hi hs hn hp ⊢
      rw [hi, hs]
      exact h.filled p (hn ▸ hp) }
  base_new := fun _ => rfl
  inv_new := PbRrSched.new_inv N
  sound := fun h => h.sound
  firstOk := fun _ _ _ _ => trivial
  schedToWorker := fun h hact hheld ht hp _ => PbRrSched.schedToWorker_refines h hact hheld ht hp
  executeStreamProgress := fun h hact _ iop ts pId =>
    PbRrSched.executeStreamProgress_refines h hact iop ts pId
  removeWorkers := fun h hws hactive hleft hheld hsingle _ num =>
    PbRrSched.removeWorkers_refines h hws hactive hleft hheld hsingle num

/-- Tuple-based round-robin refines the ledger. -/
def TbRrSched.refinement (N DIM : Nat) : (TbRrSched.strategy N DIM).Refinement where
  held := TbRrSched.held
  Inv := TbRrSched.Inv
  -- a first tuple is scheduled like any other, it asks for nothing
  FirstOk := fun _ _ _ => True
  base_setBase := fun _ _ => rfl
  held_setBase := fun _ _ => rfl
  inv_setBase := fun h hi hs hn =>
    ⟨h.sound.of_tables hi hs hn, h.length.trans (congrArg List.length hi.symm)⟩
  base_new := fun _ => rfl
  inv_new := TbRrSched.new_inv N
  sound := fun h => h.sound
  firstOk := fun _ _ _ _ => trivial
  schedToWorker := fun h hact hheld ht hp _ => TbRrSched.schedToWorker_refines h hact hheld ht hp
  executeStreamProgress := fun h hact _ iop ts pId =>
    TbRrSched.executeStreamProgress_refines h hact iop ts pId
  removeWorkers := fun h hws hactive hleft hheld hsingle _ num =>
    TbRrSched.removeWorkers_refines h hws hactive hleft hheld hsingle num

/-- Adaptive scheduling refines the ledger. -/
def AdaptiveSched.refinement (N DIM : Nat) : (AdaptiveSched.strategy N DIM).Refinement where
  held := AdaptiveSched.held
  Inv := AdaptiveSched.Inv
  -- the first tuple writes the count of the pane anew, so it must not have been raised before
  FirstOk := AdaptiveSched.FirstOk
  base_setBase := fun _ _ => rfl
  held_setBase := fun _ _ => rfl
  inv_setBase := fun h hi hs hn =>
    ⟨h.sound.of_tables hi hs hn, h.length.trans (congrArg List.length hi.symm),
      fun p hp => h.active p (hn ▸ hp)⟩
  base_new := fun _ => rfl
  inv_new := AdaptiveSched.new_inv N
  sound := fun h => h.sound
  firstOk := fun h hp hfilled _ hz => Or.inl ((h.sound.held_iff _ hp).mpr (hfilled hz))
  schedToWorker := fun h hact hheld ht hp env =>
    AdaptiveSched.schedToWorker_refines h hact hheld ht hp env
  executeStreamProgress := fun h hact env iop ts pId =>
    AdaptiveSched.executeStreamProgress_refines h hact env iop ts pId
  removeWorkers := fun h hws hactive hleft hheld hsingle env num =>
    AdaptiveSched.removeWorkers_refines h hws hactive hleft hheld hsingle env num

end ElasticPPQ
