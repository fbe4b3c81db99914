import ElasticPPQ.Pattern.System
import ElasticPPQ.Plq.Completion
import ElasticPPQ.Plq.Recording
import ElasticPPQ.Wlq.Finalization

/-! # What passes from the first stage to the second

What has arrived is part of what every complete run of the first stage emits, and all of it once the
end-of-stream messages have come (`Transferred`). The results set of a window is folded together from
what has arrived for it, so that it has been fed the tuples of these results sets. -/

namespace ElasticPPQ

open FifoNet PlqState

variable {N DIM : Nat}

/-- Where a part has as many elements with each key in `Q` as the whole has, it has all of these. -/
theorem filter_eq_of_count_eq {α : Type} {A B : Multiset α} (hle : A ≤ B) {key : α → Nat}
    {Q : Nat → Prop} [DecidablePred Q]
    (hcount : ∀ p, Q p → (A.map key).count p = (B.map key).count p) :
    (A.filter fun a => Q (key a)) = B.filter fun a => Q (key a) := by
  obtain ⟨C, rfl⟩ := Multiset.le_iff_exists_add.mp hle
  have hnone : (C.filter fun a => Q (key a)) = 0 := by
    refine Multiset.filter_eq_nil.mpr fun a ha hQ => ?_
    have h := hcount (key a) hQ
    rw [Multiset.map_add, Multiset.count_add] at h
    have hpos : 0 < (C.map key).count (key a) :=
      Multiset.count_pos.mpr (Multiset.mem_map_of_mem key ha)
    omega
  rw [Multiset.filter_add, hnone, add_zero]

/-! ## The contents of a window -/

section Contents

variable {R : Type} [PrefQuery (Row ℚ DIM) R] {D : List (Rset (Build (Row ℚ DIM)))}

/-- The contents delivered are images of the recorded ones. -/
theorem deliveredSet_eval (D : List (Rset (Build (Row ℚ DIM)))) (i : Nat) :
    deliveredSet (D.map (Rset.eval R)) i = (deliveredSet D i).eval R := by
  rw [deliveredSet, deliveredSet, List.getElem?_map]
  cases D[i]? <;> rfl

/-- **The results set of a window is the image of one that has been fed the tuples of the results sets
delivered for it.** -/
theorem WlqState.WindowFolded.build {c : WlqParams} {plan : Multiset Nat} {σ : WlqState N R} {k : Nat}
    (h : WindowFolded c plan σ k) (hD : σ.delivered = D.map (Rset.eval R)) :
    ∃ b : Build (Row ℚ DIM), (σ.mem.heap (.win k)).set = b.eval R ∧
      b.tuples = ((D.filter fun r => InWindow c.wp c.sp k r.id).map fun r => r.set.tuples).sum := by
  obtain ⟨t, hnodup, hmem, hset⟩ := h.folded
  refine ⟨t.eval PrefQuery.new PrefQuery.addComputeSet (deliveredSet D), ?_, ?_⟩
  -- the window is folded from the sets delivered, each of which evaluates its own build
  · rw [hset, hD, FoldTree.map_eval (g := Build.eval R) rfl (fun _ _ => rfl)]
    exact FoldTree.eval_congr _ _ fun i _ => deliveredSet_eval D i
  · rw [FoldTree.eval_eq_sum (g := Build.tuples) rfl (fun _ _ => rfl)]
    refine FoldTree.sum_leaves_filter hnodup (fun i => ?_) fun i r hr => ?_
    · rw [hmem i, hD, List.getElem?_map]
      cases D[i]? with
      | none => simp
      | some r => simp
    · rw [deliveredSet, hr]
      rfl

end Contents

/-! ## What has been transferred -/

section Transferred

variable {S : Strategy N DIM} {c : PlqParams} {β β' φ : PlqState S (Build (Row ℚ DIM))}
  {received : Fin N → Nat} {eos : Finset (Fin N)} {D : List (Rset (Build (Row ℚ DIM)))}

/-- What the second stage has received from the first one: the results sets of `D`. -/
structure Transferred (β : PlqState S (Build (Row ℚ DIM))) (received : Fin N → Nat)
    (eos : Finset (Fin N)) (D : List (Rset (Build (Row ℚ DIM)))) : Prop where
  delivered : (D : Multiset (Rset (Build (Row ℚ DIM)))) =
    ∑ w, ((β.emitted w).take (received w) : Multiset (Rset (Build (Row ℚ DIM))))
  le : ∀ w, received w ≤ (β.emitted w).length
  eos : ∀ w ∈ eos, β.ended = true ∧ β.net.queue w = [] ∧ received w = (β.emitted w).length

/-- It is part of what a complete run emits. -/
theorem Transferred.le_emissions {C : S.State → PlqEvent S → Prop}
    (h : Transferred β received eos D) (hφ : Completes c C β φ) :
    (D : Multiset (Rset (Build (Row ℚ DIM)))) ≤ φ.emissions := by
  rw [h.delivered, emissions]
  refine Finset.sum_le_sum fun w _ => ?_
  exact ((List.take_sublist _ _).trans (hφ.emitted w).sublist).subperm

/-- An event of the first stage. -/
theorem Transferred.plq (h : Transferred β received eos D) {e : PlqEvent S} (he : β.Enabled c e)
    (hβ' : β.exec c e = some β') : Transferred β' received eos D where
  delivered := by
    rw [h.delivered]
    refine Finset.sum_congr rfl fun w _ => ?_
    obtain ⟨l, hl⟩ := emitted_exec hβ' w
    rw [← hl, List.take_append_of_le_length (h.le w)]
  le := fun w => (h.le w).trans (emitted_exec hβ' w).length_le
  eos := by
    intro w hw
    obtain ⟨hend, hq, hlen⟩ := h.eos w hw
    -- another worker takes a message
    obtain ⟨v, rfl, hne⟩ := he.eq_worker hend
    have hv : w ≠ v := by
      rintro rfl
      exact hne hq
    obtain ⟨m, ms, hqv⟩ := List.exists_cons_of_ne_nil hne
    simp only [PlqState.exec, hqv] at hβ'
    obtain ⟨y, -, rfl⟩ := Option.map_eq_some_iff.mp hβ'
    refine ⟨hend, ?_, ?_⟩
    · show Function.update β.net.queue v ms w = []
      rw [Function.update_of_ne hv]
      exact hq
    · show received w = (Function.update β.net.node v y w).2.length
      rw [Function.update_of_ne hv]
      exact hlen

/-- A results set is received. -/
theorem Transferred.arrive (h : Transferred β received eos D) {w : Fin N}
    {r : Rset (Build (Row ℚ DIM))} (hr : (β.emitted w)[received w]? = some r) :
    Transferred β (Function.update received w (received w + 1)) eos (D ++ [r]) where
  delivered := by
    -- one set more is delivered from this worker's emissions
    have hone : ∀ v, ((β.emitted v).take (Function.update received w (received w + 1) v) :
        Multiset (Rset (Build (Row ℚ DIM)))) =
        (β.emitted v).take (received v) + if v = w then {r} else 0 := by
      intro v
      by_cases hv : v = w
      · rw [hv, Function.update_self, if_pos rfl, List.take_add_one, hr]
        rfl
      · rw [Function.update_of_ne hv, if_neg hv, add_zero]
    rw [Finset.sum_congr rfl fun v _ => hone v, Finset.sum_add_distrib, ← h.delivered,
      Finset.sum_ite_eq', if_pos (Finset.mem_univ w)]
    rfl
  le := by
    intro v
    by_cases hv : v = w
    · rw [hv, Function.update_self]
      exact (List.getElem?_eq_some_iff.mp hr).1
    · rw [Function.update_of_ne hv]
      exact h.le v
  eos := by
    intro v hv
    obtain ⟨hend, hq, hlen⟩ := h.eos v hv
    -- a worker whose END has arrived has nothing left to deliver
    have hvw : v ≠ w := by
      rintro rfl
      rw [List.getElem?_eq_none hlen.ge] at hr
      cases hr
    rw [Function.update_of_ne hvw]
    exact ⟨hend, hq, hlen⟩

/-- Once all the end-of-stream messages have been received, so has everything. -/
theorem Transferred.all (h : Transferred β received eos D) (hN : 0 < N) (heos : eos.card = N) :
    β.ended = true ∧ β.Drained ∧ (D : Multiset (Rset (Build (Row ℚ DIM)))) = β.emissions := by
  have hmem : ∀ w, w ∈ eos := by
    intro w
    rw [(Finset.card_eq_iff_eq_univ eos).mp (heos.trans (Fintype.card_fin N).symm)]
    exact Finset.mem_univ w
  refine ⟨(h.eos ⟨0, hN⟩ (hmem _)).1, fun w => (h.eos w (hmem w)).2.1, ?_⟩
  rw [h.delivered, emissions]
  refine Finset.sum_congr rfl fun w _ => ?_
  rw [(h.eos w (hmem w)).2.2, List.take_length]

end Transferred

/-! ## The second stage on its own -/

namespace WlqState

variable {τ R : Type} [PrefQuery τ R] {c : WlqParams} {plan : Multiset Nat} {σ σ' : WlqState N R}

/-- Windows handed to the client are not taken back. -/
theorem client_exec {e : WlqEvent N R} (h : σ.exec c e = .ok σ') : σ.client <+: σ'.client := by
  cases effect_of_exec h with
  | collect w a as x hq hx => exact List.prefix_append _ _
  | idle | arrive | exec | feedback | eos | add | remove => exact List.prefix_refl _

/-- **An event from within the stage** keeps the invariant, and what has come from outside. -/
theorem Inv.inner (h : σ.Inv c plan) {e : WlqEvent N R} (hin : e.Inner) (he : σ.Possible plan e) :
    ∃ σ', σ.exec c e = .ok σ' ∧ σ'.Inv c plan ∧ σ'.delivered = σ.delivered ∧
      σ'.emitter.eosReceived = σ.emitter.eosReceived := by
  -- the inner events are the feedback, the work, the collection and the reconfigurations
  cases e with
  | arrive r => exact absurd hin id
  | eos => exact absurd hin id
  | exec w =>
      obtain ⟨σ', hσ', hinv, -, hemit, hdel⟩ := h.exec he
      exact ⟨σ', hσ', hinv, hdel, by rw [hemit]⟩
  | feedback w =>
      obtain ⟨σ', s, hσ', hinv, -, heos, hdel, -⟩ := h.feedback he
      exact ⟨σ', hσ', hinv, hdel, heos⟩
  | add ws =>
      obtain ⟨σ', hσ', hinv, hsame⟩ := h.add he
      exact ⟨σ', hσ', hinv, hsame.delivered, hsame.eosReceived⟩
  | remove ws =>
      obtain ⟨σ', hσ', hinv, hsame⟩ := h.remove he
      exact ⟨σ', hσ', hinv, hsame.delivered, hsame.eosReceived⟩
  | collect w =>
      obtain ⟨σ', hσ', hinv, -, hdel, hemit⟩ := h.collect he
      exact ⟨σ', hσ', hinv, hdel, by rw [hemit]⟩

omit [PrefQuery τ R] in
/-- Such an event may come whatever the plan. -/
theorem Possible.inner {plan' : Multiset Nat} {e : WlqEvent N R} (hin : e.Inner)
    (he : σ.Possible plan e) : σ.Possible plan' e := by
  cases e with
  | arrive r => exact absurd hin id
  | eos => exact absurd hin id
  | _ => exact he

/-- A window handed to the client has been finalized. -/
theorem Inv.executed_of_mem_client (h : σ.Inv c plan) {a : Addr} (ha : a ∈ σ.client) :
    ∃ k, a = .win k ∧ k ∈ σ.executed := by
  rw [h.collected.ordered.client] at ha
  obtain ⟨k, hk, rfl⟩ := List.mem_map.mp ha
  have hrec : σ.collector.received k = true := by
    rw [WlqCollector.received, decide_eq_true (List.mem_range.mp hk)]
    rfl
  have hcount := h.collected.received k
  rw [if_pos hrec] at hcount
  exact ⟨k, rfl, List.count_pos_iff.mp (by omega)⟩

/-- The identifiers of the windows at the places of the client. -/
theorem Inv.map_id_client (h : σ.Inv c plan) :
    σ.client.map (fun a => (σ.mem.heap a).id) = List.range σ.client.length := by
  rw [h.collected.ordered.client, List.map_map, List.length_map, List.length_range]
  exact (List.map_congr_left fun k _ => h.folded.id k).trans (List.map_id _)

end WlqState

end ElasticPPQ
