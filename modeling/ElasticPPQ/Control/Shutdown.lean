import ElasticPPQ.Control.Agreement

/-! # The controller after the end of the stream

Once the PLQ emitter is terminated, a control step takes all the workers from the first stage, and goes on
controlling the second one. The counters remain those of the pool (`Controller.Balanced`), and the WLQ
emitter is told of every change (`Controller.Balanced.svc`). -/

namespace ElasticPPQ

variable {N : Nat}

namespace FuzzyStrategy

/-- The second one of two reduced degrees. -/
theorem reduced_second_pos {N a b : Nat} (hb : 1 ≤ b) (hab : a + b ≤ 2 * N) :
    1 ≤ round (N / (a + b : Nat) * b) := by
  have hbpos : (1 : ℚ) ≤ b := by exact_mod_cast hb
  have hhalf : (1 : ℚ) / 2 ≤ N / (a + b : Nat) := by
    have hab' : ((a + b : Nat) : ℚ) ≤ 2 * N := by exact_mod_cast hab
    have hanonneg : (0 : ℚ) ≤ a := Nat.cast_nonneg a
    rw [le_div_iff₀ (by rw [Nat.cast_add]; linarith)]
    linarith
  apply round_pos
  exact hhalf.trans (le_mul_of_one_le_right (by linarith) hbpos)

/-- A stage without workers is asked to have one. -/
theorem degree_zero (var : ℚ) : degree 0 var = 1 := by
  have hround : round ((0 : Nat) * var) = 0 := by
    rw [Nat.cast_zero, zero_mul]
    decide +kernel
  unfold degree
  dsimp only
  rw [hround]
  simp

/-- **The second stage keeps workers**, also when the first one has none any more. -/
theorem evaluate_second_pos {N nwPlq nwWlq : Nat} (hN : 2 ≤ N) (hwlq : 1 ≤ nwWlq)
    (hle : nwPlq + nwWlq ≤ N) {plqVar wlqVar : ℚ} (hp : 1 / 2 ≤ plqVar ∧ plqVar ≤ 3 / 2)
    (hw : 1 / 2 ≤ wlqVar ∧ wlqVar ≤ 3 / 2) :
    1 ≤ (evaluate N plqVar wlqVar nwPlq nwWlq).2 := by
  have hb := degree_pos nwWlq wlqVar
  have hb' := degree_le hwlq hw
  have hab : degree nwPlq plqVar + degree nwWlq wlqVar ≤ 2 * N := by
    -- a PLQ without workers is given the degree zero
    rcases Nat.eq_zero_or_pos nwPlq with rfl | hpos
    · rw [degree_zero]
      omega
    · have ha' := degree_le hpos hp
      omega
  have hsecond := reduced_second_pos hb hab
  unfold evaluate
  dsimp only
  split_ifs
  · exact hsecond
  · exact hsecond
  · exact hb

end FuzzyStrategy

namespace Controller

open ResourcePool

/-- **All the workers of a stage** are released without abort. -/
theorem reconf_zero {o : Owner} (ho : o ≠ .none) (p : ResourcePool N) (qlens : Nat → Fin N → Nat) :
    ∃ m p', reconf o 0 (p.owned o) qlens p = some (m, p') ∧ m.degree (p.owned o) = 0 ∧
      p'.owned o = 0 ∧ ∀ q, q ≠ o → q ≠ .none → p'.owns q = p.owns q := by
  unfold reconf
  -- where the stage has no resources no message is sent
  by_cases hzero : 0 = p.owned o
  · rw [if_pos hzero]
    exact ⟨_, _, rfl, hzero.symm, hzero.symm, fun _ _ _ => rfl⟩
  · rw [if_neg hzero, if_pos (by omega)]
    obtain ⟨p', ids, hrun, hmoves, hlen⟩ :=
      releaseResources_moves ho qlens (Nat.sub_le (p.owned o) 0)
    have howned := hmoves.owned_source ho
    refine ⟨⟨.remove, ids⟩, p', by rw [hrun]; rfl, ?_, by omega, fun q hq hq' => ?_⟩
    · show p.owned o - ids.length = 0
      omega
    · exact hmoves.owns_other hq hq'

/-- The counters are the numbers of resources owned, and the second stage has workers. -/
structure Balanced (c : Controller N) : Prop where
  nwPlq : c.nwPlq = c.rPool.owned .plq
  nwWlq : c.nwWlq = c.rPool.owned .wlq
  wlq_pos : 1 ≤ c.nwWlq

/-- A controller that agrees with its pool is balanced. -/
theorem Coherent.balanced {c : Controller N} (h : c.Coherent) : c.Balanced :=
  ⟨h.nwPlq, h.nwWlq, h.wlq_pos⟩

/-- There are enough resources. -/
theorem Balanced.le {c : Controller N} (h : c.Balanced) : c.nwPlq + c.nwWlq ≤ N := by
  rw [h.nwPlq, h.nwWlq]
  apply c.rPool.owned_add_le
  exact Owner.noConfusion

/-- **A control step after the end of the stream** does not abort. The first stage has no workers
afterwards. -/
theorem Balanced.svc {c : Controller N} (h : c.Balanced) (hN : 2 ≤ N) {env : ControlEnv N}
    (hp : 1 / 2 ≤ env.plqVar ∧ env.plqVar ≤ 3 / 2) (hw : 1 / 2 ≤ env.wlqVar ∧ env.wlqVar ≤ 3 / 2) :
    ∃ c' ms ms', c.svc true env = some (c', ms, ms') ∧ c'.Balanced ∧ c'.nwPlq = 0 ∧
      Reconf.Informs .wlq c.rPool ms' c'.rPool := by
  have hsecond := FuzzyStrategy.evaluate_second_pos hN h.wlq_pos h.le hp hw
  -- the PLQ releases everything, then the WLQ is reconfigured as usual
  obtain ⟨m, p₁, hrun₁, hdegree, hnone, hother⟩ :=
    reconf_zero (o := .plq) Owner.noConfusion c.rPool env.plqLens
  have hwlq : p₁.owns .wlq = c.rPool.owns .wlq := hother .wlq Owner.noConfusion Owner.noConfusion
  have howned : p₁.owned .wlq = c.rPool.owned .wlq := by rw [owned, hwlq, owned]
  obtain ⟨m', p₂, hrun₂, h₂⟩ := reconf_spec (o := .wlq) (p := p₁) Owner.noConfusion hsecond
    (by rw [howned, ← h.nwWlq]; exact h.wlq_pos) env.wlqLens
  have hplq : p₂.owns .plq = p₁.owns .plq := h₂.other .plq Owner.noConfusion Owner.noConfusion
  have howned' : p₂.owned .plq = p₁.owned .plq := by rw [owned, hplq, owned]
  rw [← h.nwPlq] at hrun₁ hdegree
  rw [howned, ← h.nwWlq] at hrun₂ h₂
  refine ⟨⟨m.degree c.nwPlq, m'.degree c.nwWlq, p₂⟩, m.sent, m'.sent, ?_, ⟨?_, h₂.degree, ?_⟩,
    hdegree, Reconf.Informs.of_eq hwlq h₂.informs⟩
  · simp only [Controller.svc, getReconfsFromStrategy, if_true, hrun₁, hrun₂, Option.bind_eq_bind,
      Option.bind_some]
  · show m.degree c.nwPlq = p₂.owned .plq
    rw [hdegree, howned', hnone]
  · show 1 ≤ m'.degree c.nwWlq
    rw [h₂.degree]
    exact h₂.pos

end Controller

end ElasticPPQ
