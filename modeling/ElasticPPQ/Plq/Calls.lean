import ElasticPPQ.Plq.Events

/-! # The calls of a strategy by themselves

A strategy apart from the stage: the emitter calls its methods in any order, for tuples of non-closed
panes and for reconfigurations that leave a worker (`Strategy.Allowed`). No allowed call aborts
(`Refinement.Settled.call`). -/

namespace ElasticPPQ

variable {N DIM : Nat}

namespace Ledger

/-- The holders of the non-closed panes are activated. -/
def HoldersActive (L : Ledger N) : Prop :=
  ∀ p, L.next ≤ p → ∀ w ∈ L.holders p, L.active w = true

variable {L L' : Ledger N} {l : Sends N DIM}

/-- Another holder. -/
theorem HoldersActive.insert (h : L.HoldersActive) {p : Nat} {w : Fin N} (hw : L.active w = true)
    (hnext : L'.next = L.next) (hactive : L'.active = L.active)
    (hself : L'.holders p = Insert.insert w (L.holders p))
    (hother : ∀ q, q ≠ p → L'.holders q = L.holders q) : L'.HoldersActive := by
  intro q hq v hv
  rw [hnext] at hq
  rw [hactive]
  -- the pane that gets a holder, and the others
  by_cases hqp : q = p
  · subst hqp
    rw [hself] at hv
    rcases Finset.mem_insert.mp hv with rfl | hv
    · exact hw
    · exact h q hq v hv
  · rw [hother q hqp] at hv
    exact h q hq v hv

/-- A move leaves partitions with activated workers only. -/
theorem HoldersActive.move (h : L.HoldersActive) {iop : Bool} (hm : Move iop L l L') :
    L'.HoldersActive := by
  cases hm with
  | feed w t ht hp hw => exact h
  | split ws w t ht hp hws hw ha hn =>
      exact h.insert ha rfl rfl (split_holders_self L t.paneId w)
        fun q hq => split_holders_of_ne L w hq
  -- who is de-activated holds no open pane any more
  | retire ws hws =>
      intro p hp v hv
      have hp : L.next ≤ p := hp
      have hv : v ∈ (if L.next ≤ p then L.holders p \ ws.toFinset else L.holders p) := hv
      rw [if_pos hp, Finset.mem_sdiff, List.mem_toFinset] at hv
      simp [Ledger.retire, h p hp v hv.1, hv.2]
  | close pId ts nw lulls hp hnodup hlulls hheld =>
      exact fun p hpn v hv => h p (hp.trans hpn) v hv
  | activate ws =>
      intro p hp v hv
      simp [Ledger.activate, h p hp v hv]

/-- So do any number of moves. -/
theorem HoldersActive.moves (h : L.HoldersActive) {iop : Bool} (hm : Moves iop L l L') :
    L'.HoldersActive := by
  induction hm with
  | refl => exact h
  | tail _ hm ih => exact ih.move hm

/-- Every step of a strategy keeps the holders activated. -/
theorem HoldersActive.route (h : L.HoldersActive) (hr : Route L l L') : L'.HoldersActive := by
  cases hr with
  | moves hm => exact h.moves hm
  | reopen w t n ht hp ha hn =>
      exact h.insert ha rfl rfl (deliver_holders_self L t.paneId w n)
        fun q hq => deliver_holders_of_ne L w n hq
  | close _ ts nw lulls hp hactive hholders hcount hlulls hall =>
      intro p hpn v hv
      rw [hholders] at hv
      rw [hactive]
      exact h p (hp.trans hpn) v hv

end Ledger

namespace Strategy

/-- What the emitter asks of a strategy before the end of the stream. -/
inductive Call (S : Strategy N DIM)
  | schedToWorker (env : S.Env) (t : Tuple DIM)
  | executeStreamProgress (env : S.Env) (ts : ℚ) (pId : Nat)
  | addWorkers (ws : List (Fin N))
  | removeWorkers (env : S.Env) (ws : List (Fin N))

variable (S : Strategy N DIM)

/-- The effect of a call: the new state and the messages, `none` where the source aborts. -/
def call (iop : Bool) (s : S.State) : S.Call → Option (S.State × Sends N DIM)
  | .schedToWorker env t => S.schedToWorker env t s
  | .executeStreamProgress env ts pId => S.executeStreamProgress env iop ts pId s
  | .addWorkers ws => (S.addWorkers ws.length ws s).map fun s' => (s', [])
  | .removeWorkers env ws => S.removeWorkers env ws.length ws s

/-- Which calls the emitter makes: tuples are of non-closed panes, and the reconfigurations are those
of the controller. -/
def Allowed (s : S.State) : S.Call → Prop
  | .schedToWorker _ t => t.type = .regular ∧ (S.base s).nextPaneId ≤ t.paneId
  | .executeStreamProgress _ _ _ => True
  | .addWorkers ws => ws.Nodup ∧ ∀ w ∈ ws, (S.base s).activatedWorker w = false
  | .removeWorkers _ ws => ws.Nodup ∧ (∀ w ∈ ws, (S.base s).activatedWorker w = true) ∧
      ∃ w, w ∉ ws ∧ (S.base s).activatedWorker w = true

instance decidableAllowed (s : S.State) : (e : S.Call) → Decidable (S.Allowed s e)
  | .schedToWorker _ _ => inferInstanceAs (Decidable (_ ∧ _))
  | .executeStreamProgress _ _ _ => isTrue trivial
  | .addWorkers ws => inferInstanceAs
      (Decidable (ws.Nodup ∧ ∀ w ∈ ws, (S.base s).activatedWorker w = false))
  | .removeWorkers _ ws => inferInstanceAs (Decidable (ws.Nodup ∧
      (∀ w ∈ ws, (S.base s).activatedWorker w = true) ∧
        ∃ w, w ∉ ws ∧ (S.base s).activatedWorker w = true))

variable {S}

/-- What a state satisfies between two calls. -/
structure Refinement.Settled (Rf : S.Refinement) (s : S.State) : Prop where
  inv : Rf.Inv s
  hasActive : (S.base s).HasActive
  heldActive : ((S.base s).ledger (Rf.held s)).HoldersActive

namespace Refinement

variable {Rf : S.Refinement} {s : S.State}

/-- The strategy as constructed is ready for a call. -/
theorem settled_new {nw : Nat} (hpos : 0 < nw) (hle : nw ≤ N) : Rf.Settled (S.new nw) where
  inv := Rf.inv_new nw
  hasActive := by
    refine ⟨⟨0, by omega⟩, ?_⟩
    rw [Rf.base_new]
    exact decide_eq_true hpos
  heldActive := by
    intro p hp w hw
    have hsound := Rf.sound (Rf.inv_new nw)
    have hnil : Rf.held (S.new nw) p = [] := by
      refine (hsound.held_iff p hp).mpr ?_
      rw [Rf.base_new]
      rfl
    have hw : w ∈ (Rf.held (S.new nw) p).toFinset := hw
    rw [hnil] at hw
    exact absurd hw (Finset.notMem_empty w)

/-- The holders as the tables list them. -/
theorem Settled.held (h : Rf.Settled s) {p : Nat} (hp : (S.base s).nextPaneId ≤ p) {w : Fin N}
    (hw : w ∈ Rf.held s p) : (S.base s).activatedWorker w = true :=
  h.heldActive p hp w (List.mem_toFinset.mpr hw)

/-- **No allowed call aborts.** -/
theorem Settled.call (h : Rf.Settled s) (iop : Bool) {e : S.Call} (he : S.Allowed s e) :
    ∃ s' out, S.call iop s e = some (s', out) ∧ Rf.Settled s' := by
  have hsingle : (S.base s).Single false := fun hi => absurd hi Bool.false_ne_true
  -- one case per method, with the refinement of each; the ledger carries the holders
  cases e with
  | schedToWorker env t =>
      obtain ⟨s', out, hrun, hinv, hsch⟩ := @Refinement.schedToWorker _ _ _ Rf false _ _ h.inv h.hasActive
        (fun p hp w hw => h.held hp hw) he.1 ⟨he.2, fun hi => absurd hi Bool.false_ne_true⟩ env
      refine ⟨s', out, hrun, hinv, ?_, h.heldActive.route (hsch.route rfl)⟩
      rw [Sched.HasActive, hsch.activatedWorker]
      exact h.hasActive
  | executeStreamProgress env ts pId =>
      obtain ⟨s', out, hrun, hinv, hheld, hpr⟩ :=
        Rf.executeStreamProgress h.inv h.hasActive env iop ts pId
      refine ⟨s', out, hrun, hinv, ?_, fun p hp w hw => ?_⟩
      · rw [Sched.HasActive, hpr.activatedWorker]
        exact h.hasActive
      · have hp : (S.base s').nextPaneId ≤ p := hp
        have hw : w ∈ (Rf.held s' p).toFinset := hw
        rw [hheld] at hw
        rw [hpr.nextPaneId] at hp
        show (S.base s').activatedWorker w = true
        rw [hpr.activatedWorker]
        exact h.heldActive p ((le_max_left _ _).trans hp) w hw
  | addWorkers ws =>
      obtain ⟨hws, hinactive⟩ := he
      obtain ⟨s', hadd, hinv, hheld, hbase⟩ := Rf.addWorkers h.inv hws hinactive ws.length
      refine ⟨s', [], ?_, hinv, ?_, ?_⟩
      · rw [Strategy.call, hadd]
        rfl
      · obtain ⟨w, hw⟩ := h.hasActive
        refine ⟨w, ?_⟩
        rw [hbase]
        simp [hw]
      · intro p hp w hw
        have hp : (S.base s').nextPaneId ≤ p := hp
        have hw : w ∈ (Rf.held s' p).toFinset := hw
        rw [hheld] at hw
        rw [hbase] at hp
        show (S.base s').activatedWorker w = true
        rw [hbase]
        have := h.heldActive p hp w hw
        simp only [Bool.or_eq_true]
        exact Or.inl this
  | removeWorkers env ws =>
      obtain ⟨hws, hactive, hleft⟩ := he
      obtain ⟨s', out, hrun, hinv, hrem⟩ := Rf.removeWorkers h.inv hws hactive hleft
        (fun p hp w hw => h.held hp hw) hsingle env ws.length
      refine ⟨s', out, hrun, hinv, ?_, h.heldActive.moves hrem.moves⟩
      obtain ⟨w, hw, ha⟩ := hleft
      refine ⟨w, ?_⟩
      rw [hrem.activatedWorker]
      simp [hw, ha]

end Refinement

end Strategy

end ElasticPPQ
