import ElasticPPQ.Control.Controller
import ElasticPPQ.Plq.Handling

/-! # What a control step does

The counters of the controller are the numbers of resources in the pool (`Controller.Coherent`). A
control step does not abort, keeps this and leaves workers to both stages; and it tells the emitter of
a stage about every change of what the stage owns (`Reconf.Informs`). -/

namespace ElasticPPQ

variable {N : Nat}

namespace Reconf

/-- The activated workers after a message. -/
def apply (active : Fin N → Bool) (m : Reconf N) : Fin N → Bool :=
  match m.type with
  | .add => fun v => active v || decide (v ∈ m.wIds)
  | .remove => fun v => active v && !decide (v ∈ m.wIds)
  | .noreconf => active

/-- When a message can be processed: it activates de-activated workers, or it de-activates activated
ones and leaves at least one. -/
structure Applicable (active : Fin N → Bool) (m : Reconf N) : Prop where
  nodup : m.wIds.Nodup
  type : m.type ≠ .noreconf
  add : m.type = .add → ∀ w ∈ m.wIds, active w = false
  remove : m.type = .remove → (∀ w ∈ m.wIds, active w = true) ∧ ∃ w, w ∉ m.wIds ∧ active w = true

/-- The emitter does not abort on a message that can be processed. -/
theorem Applicable.handle {active : Fin N → Bool} {m : Reconf N} (h : m.Applicable active) :
    Reconf.handle active m = some (apply active m) := by
  obtain ⟨ty, wIds⟩ := m
  cases ty with
  | add => exact Sched.activate_spec h.nodup (h.add rfl)
  | remove => exact Sched.deactivate_spec h.nodup (h.remove rfl).1
  | noreconf => exact absurd rfl h.type

/-- The messages `ms` tell the emitter of stage `o` what has changed from pool `p` to pool `p'`: at
most one message is sent, and it can be processed. -/
inductive Informs (o : Owner) (p : ResourcePool N) : List (Reconf N) → ResourcePool N → Prop
  | silent {p' : ResourcePool N} (h : p'.owns o = p.owns o) : Informs o p [] p'
  | message {p' : ResourcePool N} (m : Reconf N) (hm : m.Applicable (p.owns o))
      (h : p'.owns o = apply (p.owns o) m) : Informs o p [m] p'

/-- What happens to the resources of the others does not matter. -/
theorem Informs.trans {o : Owner} {p p' p'' : ResourcePool N} {ms : List (Reconf N)}
    (h : Informs o p ms p') (h' : p''.owns o = p'.owns o) : Informs o p ms p'' := by
  cases h with
  | silent h => exact .silent (h'.trans h)
  | message m hm h => exact .message m hm (h'.trans h)

/-- What the messages inform of depends on the resources of that stage only. -/
theorem Informs.of_eq {o : Owner} {p p' p'' : ResourcePool N} {ms : List (Reconf N)}
    (h' : p'.owns o = p.owns o) (h : Informs o p' ms p'') : Informs o p ms p'' := by
  cases h with
  | silent h => exact .silent (h.trans h')
  | message m hm h => exact .message m (h' ▸ hm) (h.trans (congrArg (apply · m) h'))

end Reconf

namespace Controller

open ResourcePool

/-- The part of `get_reconfs_from_strategy` about stage `o` leads from pool `p` with degree `nw` to
pool `p'`, with the reconfiguration `m`. -/
structure Reconfigures (o : Owner) (nw : Nat) (p : ResourcePool N) (m : Reconf N)
    (p' : ResourcePool N) : Prop where
  degree : m.degree nw = p'.owned o
  pos : 1 ≤ p'.owned o
  informs : Reconf.Informs o p m.sent p'
  other : ∀ q, q ≠ o → q ≠ .none → p'.owns q = p.owns q

/-- **One stage.** A stage that has workers and should keep some is reconfigured without abort. -/
theorem reconf_spec {o : Owner} (ho : o ≠ .none) {new : Nat} (hnew : 1 ≤ new) {p : ResourcePool N}
    (hpos : 1 ≤ p.owned o) (qlens : Nat → Fin N → Nat) :
    ∃ m p', reconf o new (p.owned o) qlens p = some (m, p') ∧
      Reconfigures o (p.owned o) p m p' := by
  unfold reconf
  by_cases heq : new = p.owned o
  · rw [if_pos heq]
    exact ⟨_, _, rfl, rfl, hpos, .silent rfl, fun _ _ _ => rfl⟩
  rw [if_neg heq]
  by_cases hlt : new < p.owned o
  · -- workers are removed: `new` of them are left
    rw [if_pos hlt]
    obtain ⟨p', ids, hrun, hmoves, hlen⟩ :=
      releaseResources_moves ho qlens (Nat.sub_le (p.owned o) new)
    have howned := hmoves.owned_source ho
    obtain ⟨r, hr⟩ := List.exists_mem_of_length_pos (l := (List.finRange N).filter (p'.owns o)) (by
      show 0 < p'.owned o
      omega)
    have hown := (List.mem_filter.mp hr).2
    rw [hmoves.owns_source ho, Bool.and_eq_true, Bool.not_eq_true', decide_eq_false_iff_not] at hown
    refine ⟨⟨.remove, ids⟩, p', by rw [hrun]; rfl, ?_, by omega, ?_, ?_⟩
    · show p.owned o - ids.length = p'.owned o
      omega
    · refine .message ⟨.remove, ids⟩ ?_ (hmoves.owns_source ho)
      refine ⟨hmoves.nodup, TypeReconf.noConfusion, TypeReconf.noConfusion,
        fun _ => ⟨?_, r, hown.2, hown.1⟩⟩
      exact fun w hw => decide_eq_true (hmoves.from_owner w hw)
    · exact fun q hq hq' => hmoves.owns_other hq hq'
  · -- workers are added, as far as there are resources
    rw [if_neg hlt]
    have hmoves := acquireResources_moves ho (new - p.owned o) p
    generalize p.acquireResources (new - p.owned o) o = x at hmoves
    obtain ⟨p', ids⟩ := x
    have howned : p'.owned o = p.owned o + ids.length := hmoves.owned_target ho.symm
    have hother : ∀ q, q ≠ o → q ≠ .none → p'.owns q = p.owns q := fun q hq hq' =>
      hmoves.owns_other hq' hq
    by_cases hids : ids.length = 0
    · have hnil : ids = [] := List.length_eq_zero_iff.mp hids
      have hsame : p'.owns o = p.owns o := by
        rw [hmoves.owns_target, hnil]
        funext v
        simp
      refine ⟨⟨.noreconf, []⟩, p', if_pos hids, ?_, by omega, .silent hsame, hother⟩
      show p.owned o = p'.owned o
      omega
    · refine ⟨⟨.add, ids⟩, p', if_neg hids, howned.symm, by omega, ?_, hother⟩
      refine .message ⟨.add, ids⟩ ?_ hmoves.owns_target
      refine ⟨hmoves.nodup, TypeReconf.noConfusion, fun _ w hw => ?_, TypeReconf.noConfusion⟩
      rw [owns, hmoves.from_owner w hw]
      exact decide_eq_false ho.symm

/-- **The counters are the numbers of resources owned**, and both stages have workers. -/
structure Coherent (c : Controller N) : Prop where
  nwPlq : c.nwPlq = c.rPool.owned .plq
  nwWlq : c.nwWlq = c.rPool.owned .wlq
  plq_pos : 1 ≤ c.nwPlq
  wlq_pos : 1 ≤ c.nwWlq

/-- There are enough resources. -/
theorem Coherent.le {c : Controller N} (h : c.Coherent) : c.nwPlq + c.nwWlq ≤ N := by
  rw [h.nwPlq, h.nwWlq]
  apply c.rPool.owned_add_le
  exact Owner.noConfusion

/-- **A control step** does not abort while the PLQ emitter is not terminated, and keeps the counters
right. -/
theorem Coherent.svc {c : Controller N} (h : c.Coherent) (hN : 2 ≤ N) {env : ControlEnv N}
    (hp : 1 / 2 ≤ env.plqVar ∧ env.plqVar ≤ 3 / 2) (hw : 1 / 2 ≤ env.wlqVar ∧ env.wlqVar ≤ 3 / 2) :
    ∃ c' ms ms', c.svc false env = some (c', ms, ms') ∧ c'.Coherent ∧
      Reconf.Informs .plq c.rPool ms c'.rPool ∧ Reconf.Informs .wlq c.rPool ms' c'.rPool := by
  obtain ⟨hfirst, hsecond⟩ := FuzzyStrategy.evaluate_pos hN h.plq_pos h.wlq_pos h.le hp hw
  -- first the PLQ takes or gives its resources, then the WLQ does so from the pool that is left
  obtain ⟨m, p₁, hrun₁, h₁⟩ := reconf_spec (o := .plq) Owner.noConfusion hfirst
    (h.nwPlq ▸ h.plq_pos) env.plqLens
  -- neither reconfiguration touches the resources of the other stage
  have hwlq : p₁.owns .wlq = c.rPool.owns .wlq := h₁.other .wlq Owner.noConfusion Owner.noConfusion
  have howned : p₁.owned .wlq = c.rPool.owned .wlq := by rw [owned, hwlq, owned]
  obtain ⟨m', p₂, hrun₂, h₂⟩ := reconf_spec (o := .wlq) (p := p₁) Owner.noConfusion hsecond
    (by rw [howned, ← h.nwWlq]; exact h.wlq_pos) env.wlqLens
  have hplq : p₂.owns .plq = p₁.owns .plq := h₂.other .plq Owner.noConfusion Owner.noConfusion
  have howned' : p₂.owned .plq = p₁.owned .plq := by rw [owned, hplq, owned]
  rw [← h.nwPlq] at hrun₁ h₁
  rw [howned, ← h.nwWlq] at hrun₂ h₂
  refine ⟨⟨m.degree c.nwPlq, m'.degree c.nwWlq, p₂⟩, m.sent, m'.sent, ?_, ⟨?_, h₂.degree, ?_, ?_⟩,
    h₁.informs.trans hplq, Reconf.Informs.of_eq hwlq h₂.informs⟩
  · simp only [Controller.svc, getReconfsFromStrategy, Bool.false_eq_true, if_false, hrun₁, hrun₂,
      Option.bind_eq_bind, Option.bind_some]
  · exact h₁.degree.trans howned'.symm
  · show 1 ≤ m.degree c.nwPlq
    rw [h₁.degree]
    exact h₁.pos
  · show 1 ≤ m'.degree c.nwWlq
    rw [h₂.degree]
    exact h₂.pos

/-- As constructed the counters are right. -/
theorem coherent_new {nwPlq nwWlq : Nat} (hplq : 1 ≤ nwPlq) (hwlq : 1 ≤ nwWlq)
    (hle : nwPlq + nwWlq ≤ N) : (Controller.new N nwPlq nwWlq).Coherent where
  nwPlq := by
    show nwPlq = (ResourcePool.new N nwPlq nwWlq).owned .plq
    rw [owned, owns_new_plq]
    exact (PlqState.numActive_new (by omega)).symm
  nwWlq := by
    show nwWlq = (ResourcePool.new N nwPlq nwWlq).owned .wlq
    rw [owned, owns_new_wlq hle]
    -- all the resources but the first ones
    have hfirst : ((List.finRange N).filter fun r => decide (r.val < N - nwWlq)).length = N - nwWlq :=
      PlqState.numActive_new (Nat.sub_le N nwWlq)
    have hall := List.length_eq_length_filter_add (l := List.finRange N)
      fun r => decide (r.val < N - nwWlq)
    rw [List.length_finRange, hfirst] at hall
    have hrest : (List.finRange N).filter (fun r => decide (N - nwWlq ≤ r.val))
        = (List.finRange N).filter fun r => !decide (r.val < N - nwWlq) := by
      congr 1
      funext r
      rw [← decide_not, decide_eq_decide, not_lt]
    rw [hrest]
    omega
  plq_pos := hplq
  wlq_pos := hwlq

end Controller

end ElasticPPQ
