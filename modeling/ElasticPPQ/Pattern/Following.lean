import ElasticPPQ.Pattern.Transfer

/-! # The pattern follows its first stage

Whatever the interleaving of the two stages and of their reconfigurations, the second stage runs as
planned by each complete run of the first one (`KeptBy`). The first stage is followed by its recording
image. This asks of the first stage that its complete runs count right and emit what they have been
fed (`PlqState.Forecast`), and does not look into it any further. -/

namespace ElasticPPQ

open FifoNet PlqState

variable {N DIM : Nat}

namespace PfState

variable {S : Strategy N DIM} {R : Type} [PrefQuery (Row ℚ DIM) R] {c : PlqParams}
  {C : S.State → PlqEvent S → Prop} {T : PlqState S (Build (Row ℚ DIM)) → Prop}
  {σ : PfState S R} {β φ : PlqState S (Build (Row ℚ DIM))} {D : List (Rset (Build (Row ℚ DIM)))}

/-- The results set of a window has been fed the tuples of its panes among those scheduled. -/
def Fed (c : PlqParams) (scheduled : List (Tuple DIM)) (r : Rset R) : Prop :=
  ∃ b : Build (Row ℚ DIM), r.set = b.eval R ∧ b.tuples = windowRows c.wp c.sp scheduled r.id

/-- **The invariant of the pattern.** The first stage is the image of the recording stage `β`, the
results sets `D` of which have been received. The second stage runs as planned by every run that
completes the first one, and what the client has got is final in each of them. -/
structure KeptBy (c : PlqParams) (C : S.State → PlqEvent S → Prop)
    (T : PlqState S (Build (Row ℚ DIM)) → Prop) (σ : PfState S R)
    (β : PlqState S (Build (Row ℚ DIM))) (D : List (Rset (Build (Row ℚ DIM)))) : Prop where
  tracked : T β
  plq : σ.plq = β.eval R
  transferred : Transferred β σ.received σ.eos D
  delivered : σ.wlq.delivered = D.map (Rset.eval R)
  eosReceived : σ.wlq.emitter.eosReceived = σ.eos.card
  inv : ∀ φ, Completes c C β φ → σ.wlq.Inv c.wlq (φ.emissions.map Rset.id)
  ids : σ.results.map Rset.id = List.range σ.wlq.client.length
  fed : ∀ φ, Completes c C β φ → ∀ r ∈ σ.results, Fed c φ.scheduled r

/-- The event of the first stage satisfies `C`, if it is one. -/
def Meets (C : S.State → PlqEvent S → Prop) (σ : PfState S R) : PfEvent S R → Prop
  | .plq e => C σ.plq.sched e
  | _ => True

omit [PrefQuery (Row ℚ DIM) R] in
/-- Nothing is asked of the events. -/
theorem meets_true (σ : PfState S R) (e : PfEvent S R) : σ.Meets (fun _ _ => True) e := by
  cases e <;> exact trivial

/-- The pattern as constructed. -/
theorem init_keptBy {nwPlq : Nat} (hT : T (.init S (Build (Row ℚ DIM)) nwPlq)) (nwWlq : Nat) :
    KeptBy c C T (init S R nwPlq nwWlq) (.init S (Build (Row ℚ DIM)) nwPlq) [] where
  tracked := hT
  plq := init_eval R S nwPlq
  transferred := by
    refine ⟨?_, fun w => Nat.zero_le _, fun w hw => absurd hw (Finset.notMem_empty w)⟩
    exact (Finset.sum_eq_zero fun w _ => rfl).symm
  delivered := rfl
  eosReceived := rfl
  inv := fun _ _ => WlqState.inv_init _ _ nwWlq
  ids := rfl
  fed := fun _ _ _ hr => absurd hr List.not_mem_nil

/-- An event of the first stage. -/
theorem KeptBy.execPlq (h : KeptBy c C T σ β D) (F : Forecast c C T) {e : PlqEvent S}
    (he : σ.Possible c (.plq e)) (hC : C σ.plq.sched e) :
    ∃ σ', σ.exec c (.plq e) = .ok σ' ∧
      ∃ β', KeptBy c C T σ' β' D ∧ ∀ φ, Completes c C β' φ → Completes c C β φ := by
  -- the recording run has the same tables, so the event is enabled there as well
  have he' : β.Enabled c e := by
    rw [← enabled_eval R β e, ← h.plq]
    exact he
  have hC' : C β.sched e := by
    rw [h.plq] at hC
    exact hC
  obtain ⟨β', hβ', htracked⟩ := F.step β e h.tracked he' hC'
  have hexec : σ.plq.exec c e = some (β'.eval R) := by
    rw [h.plq, exec_eval R β, hβ']
    rfl
  refine ⟨{ σ with plq := β'.eval R }, ?_, β', ⟨htracked, rfl, h.transferred.plq he' hβ',
    h.delivered, h.eosReceived, fun φ hφ => h.inv φ (hφ.step he' hC' hβ'), h.ids,
    fun φ hφ => h.fed φ (hφ.step he' hC' hβ')⟩, fun φ hφ => hφ.step he' hC' hβ'⟩
  rw [exec, hexec]

/-- What arrives is as the plan of every complete run says. -/
theorem KeptBy.possible_arrive (h : KeptBy c C T σ β D) (F : Forecast c C T) {w : Fin N}
    {r : Rset (Build (Row ℚ DIM))} (hr : (β.emitted w)[σ.received w]? = some r)
    (hφ : Completes c C β φ) :
    σ.wlq.Possible (φ.emissions.map Rset.id) (.arrive (r.eval R)) := by
  have htracked := F.completed h.tracked hφ
  have hle := (h.transferred.arrive hr).le_emissions hφ
  have hmem : r ∈ φ.emissions := Multiset.mem_of_le hle (by simp)
  obtain ⟨-, -, hvalues, hfinal⟩ := F.counted φ htracked hφ.ended hφ.drained r hmem
  have hids : σ.wlq.deliveredIds = D.map Rset.id := by
    rw [WlqState.deliveredIds, h.delivered, List.map_map]
    rfl
  have hcount := Multiset.count_le_of_le r.id (Multiset.map_le_map (f := Rset.id) hle)
  rw [Multiset.map_coe, Multiset.coe_count, List.map_append, List.count_append] at hcount
  have hself : ([r].map Rset.id).count r.id = 1 := List.count_singleton_self
  refine ⟨?_, ?_, ?_, fun hlast => ?_⟩
  · -- the worker has not sent its end-of-stream message
    rw [h.eosReceived]
    have hlt : σ.eos.card < (Finset.univ : Finset (Fin N)).card := by
      refine Finset.card_lt_card (Finset.ssubset_univ_iff.mpr fun huniv => ?_)
      have hlen := (h.transferred.eos w (huniv ▸ Finset.mem_univ w)).2.2
      rw [List.getElem?_eq_none hlen.ge] at hr
      cases hr
    rwa [Finset.card_univ, Fintype.card_fin] at hlt
  · rw [hids]
    show (D.map Rset.id).count r.id < (φ.emissions.map Rset.id).count r.id
    omega
  · obtain ⟨v, hv⟩ := mem_emissions.mp hmem
    exact hvalues v r hv rfl
  · -- with the last one all those of the pane have come
    rw [hids] at hlast
    have hlast' : (D.map Rset.id).count r.id + 1 = (φ.emissions.map Rset.id).count r.id := hlast
    obtain ⟨v, r', hr', hid, hn⟩ := hfinal
    have hall : ((D ++ [r] : List (Rset (Build (Row ℚ DIM)))) : Multiset _).filter
        (fun a => a.id = r.id) = φ.emissions.filter fun a => a.id = r.id := by
      refine filter_eq_of_count_eq (Q := fun p => p = r.id) hle fun p hp => ?_
      rw [hp, Multiset.map_coe, Multiset.coe_count, List.map_append, List.count_append]
      omega
    have hr'D : r' ∈ ((D ++ [r] : List (Rset (Build (Row ℚ DIM)))) : Multiset _) := by
      have hfilter : r' ∈ φ.emissions.filter fun a => a.id = r.id :=
        Multiset.mem_filter.mpr ⟨mem_emissions.mpr ⟨v, hr'⟩, hid⟩
      rw [← hall] at hfilter
      exact (Multiset.mem_filter.mp hfilter).1
    refine ⟨r'.eval R, ?_, hid, hn⟩
    rw [h.delivered]
    rcases List.mem_append.mp (Multiset.mem_coe.mp hr'D) with hD | hD
    · exact List.mem_cons_of_mem _ (List.mem_map_of_mem hD)
    · rw [List.mem_singleton.mp hD]
      exact List.mem_cons_self

/-- The workers whose end-of-stream message has come have emitted all. -/
theorem KeptBy.transferred_eos (h : KeptBy c C T σ β D) {w : Fin N} (he : σ.Possible c (.eos w)) :
    w ∉ σ.eos ∧ Transferred β σ.received (insert w σ.eos) D := by
  obtain ⟨hnot, hend, hq, hlen⟩ := he
  rw [h.plq] at hend hq hlen
  rw [emitted_eval, List.length_map] at hlen
  refine ⟨hnot, h.transferred.delivered, h.transferred.le, fun v hv => ?_⟩
  rcases Finset.mem_insert.mp hv with rfl | hv
  · exact ⟨hend, hq, hlen⟩
  · exact h.transferred.eos v hv

/-- The last end-of-stream message comes when the first stage is complete. -/
theorem KeptBy.possible_eos (h : KeptBy c C T σ β D) {w : Fin N} (he : σ.Possible c (.eos w))
    (hφ : Completes c C β φ) : σ.wlq.Possible (φ.emissions.map Rset.id) .eos := by
  obtain ⟨hnot, htr⟩ := h.transferred_eos he
  have hcard := Finset.card_insert_of_notMem hnot
  refine ⟨?_, fun hlast => ?_⟩
  · have hle := (insert w σ.eos).card_le_univ
    rw [Fintype.card_fin] at hle
    rw [h.eosReceived]
    omega
  · rw [h.eosReceived, ← hcard] at hlast
    obtain ⟨hend, hd, hall⟩ := htr.all w.pos hlast
    rw [hφ.eq hend hd, ← hall, WlqState.deliveredIds, h.delivered, List.map_map]
    rfl

/-- **Whatever the second stage does is as planned** by every complete run of the first one. -/
theorem KeptBy.enabled (h : KeptBy c C T σ β D) (F : Forecast c C T)
    {e : PfEvent S R} (he : σ.Enabled c e) {e' : WlqEvent N R} (he' : σ.wlqEvent e = some e')
    (hφ : Completes c C β φ) :
    σ.wlq.Enabled (φ.emissions.map Rset.id) e' ∧ σ.wlq.LeavesWorker e' := by
  obtain ⟨hreturn, he⟩ := he
  cases e with
  -- only the events that reach the WLQ are asked for
  | plq e => cases he'
  | arrive w =>
      obtain ⟨r, hget, rfl⟩ := Option.map_eq_some_iff.mp he'
      rw [h.plq, emitted_eval, List.getElem?_map] at hget
      obtain ⟨r, hr, rfl⟩ := Option.map_eq_some_iff.mp hget
      exact ⟨⟨hreturn, h.possible_arrive F hr hφ⟩, trivial⟩
  | eos w =>
      cases he'
      exact ⟨⟨hreturn, h.possible_eos he hφ⟩, trivial⟩
  | wlq e =>
      -- a reconfiguration leaves a worker in the pattern as it does in the WLQ
      cases he'
      exact ⟨⟨hreturn, he.2.1.inner he.1⟩, he.2.2⟩

/-- **A step of the second stage** that is as every complete run of the first one plans it. What the
client has got by it is final. -/
theorem KeptBy.reached (h : KeptBy c C T σ β D) (F : Forecast c C T)
    {s : WlqState N R} {received : Fin N → Nat} {eos : Finset (Fin N)}
    {D' : List (Rset (Build (Row ℚ DIM)))} (hclient : σ.wlq.client <+: s.client)
    (htr : Transferred β received eos D') (hdel : s.delivered = D'.map (Rset.eval R))
    (heos : s.emitter.eosReceived = eos.card)
    (hinv : ∀ φ, Completes c C β φ → s.Inv c.wlq (φ.emissions.map Rset.id)) :
    KeptBy c C T { σ.reached s with received := received, eos := eos } β D' := by
  refine ⟨h.tracked, h.plq, htr, hdel, heos, hinv, ?_, fun φ hφ r hr => ?_⟩
  · obtain ⟨φ, hφ, -⟩ := F.completes h.tracked
    show (σ.results ++ _).map Rset.id = List.range s.client.length
    have hall := (hinv φ hφ).map_id_client
    obtain ⟨out, hout⟩ := hclient
    rw [← hout, List.length_append, List.range_add, List.map_append] at hall
    rw [List.map_append, h.ids, ← hout, List.drop_left, List.length_append, List.range_add,
      List.map_map]
    exact congrArg _ (List.append_inj_right' hall (by simp))
  · rcases List.mem_append.mp hr with hr | hr
    · exact h.fed φ hφ r hr
    · obtain ⟨a, ha, rfl⟩ := List.mem_map.mp hr
      obtain ⟨k, rfl, hk⟩ := (hinv φ hφ).executed_of_mem_client (List.mem_of_mem_drop ha)
      have hfolded := (hinv φ hφ).windowFolded hk
      obtain ⟨b, hb, htuples⟩ := hfolded.build hdel
      -- nothing more of the window is to come
      have hall : (D' : Multiset (Rset (Build (Row ℚ DIM)))).filter
          (fun r => InWindow c.wp c.sp k r.id) =
          φ.emissions.filter fun r => InWindow c.wp c.sp k r.id := by
        refine filter_eq_of_count_eq (Q := fun p => InWindow c.wp c.sp k p)
          (htr.le_emissions hφ) fun p hp => ?_
        have hcount := (hfolded.delivered p hp).1
        rw [WlqState.deliveredIds, hdel, List.map_map] at hcount
        rw [Multiset.map_coe, Multiset.coe_count]
        exact hcount
      refine ⟨b, hb, ?_⟩
      have htracked := F.completed h.tracked hφ
      rw [htuples, (hinv φ hφ).folded.id, ←
        window_fed (F.fed φ htracked hφ.ended hφ.drained), ← hall, Multiset.filter_coe,
        Multiset.map_coe, Multiset.sum_coe]
      rfl

/-- An event that the second stage takes part in: it does not fail, and the invariants of the second
stage stay. -/
theorem KeptBy.execWlq (h : KeptBy c C T σ β D) (F : Forecast c C T) {e : WlqEvent N R}
    {P : WlqState N R → Prop}
    (hstep : ∀ φ, Completes c C β φ →
      ∃ s, σ.wlq.exec c.wlq e = .ok s ∧ s.Inv c.wlq (φ.emissions.map Rset.id) ∧ P s) :
    ∃ s, σ.wlq.exec c.wlq e = .ok s ∧ P s ∧
      ∀ φ, Completes c C β φ → s.Inv c.wlq (φ.emissions.map Rset.id) := by
  obtain ⟨φ, hφ, -⟩ := F.completes h.tracked
  obtain ⟨s, hs, -, hP⟩ := hstep φ hφ
  refine ⟨s, hs, hP, fun φ' hφ' => ?_⟩
  obtain ⟨s', hs', hinv, -⟩ := hstep φ' hφ'
  rw [hs] at hs'
  cases hs'
  exact hinv

/-- **Every event keeps the invariant**, and none fails. -/
theorem KeptBy.step (h : KeptBy c C T σ β D) (F : Forecast c C T) (hsp : 1 ≤ c.sp)
    (hle : c.sp ≤ c.wp) {e : PfEvent S R} (he : σ.Possible c e) (hC : σ.Meets C e) :
    ∃ σ', σ.exec c e = .ok σ' ∧
      ∃ β' D', KeptBy c C T σ' β' D' ∧ ∀ φ, Completes c C β' φ → Completes c C β φ := by
  -- the first stage moves the recording run, the other events move the WLQ
  cases e with
  | plq e =>
      obtain ⟨σ', hσ', β', h', hsub⟩ := h.execPlq F he hC
      exact ⟨σ', hσ', β', D, h', hsub⟩
  | arrive w =>
      have hlen : σ.received w < (β.emitted w).length := by
        have hlt : σ.received w < (σ.plq.emitted w).length := he
        rwa [h.plq, emitted_eval, List.length_map] at hlt
      -- the results set that arrives is the next one its PLQ worker has emitted
      obtain ⟨r, hr⟩ : ∃ r, (β.emitted w)[σ.received w]? = some r :=
        ⟨_, List.getElem?_eq_getElem hlen⟩
      obtain ⟨s, hs, ⟨heos, hdel⟩, hinv⟩ := h.execWlq F (e := .arrive (r.eval R))
        (P := fun s => s.emitter.eosReceived = σ.wlq.emitter.eosReceived ∧
          s.delivered = σ.wlq.delivered ++ [r.eval R]) fun φ hφ => by
        obtain ⟨s, hs, hinv, -, heos, hdel, -⟩ :=
          (h.inv φ hφ).arrive hsp hle (h.possible_arrive F hr hφ)
        exact ⟨s, hs, hinv, heos, hdel⟩
      refine ⟨_, ?_, β, D ++ [r], h.reached F (WlqState.client_exec hs)
        (h.transferred.arrive hr) ?_ (heos.trans h.eosReceived) hinv, fun _ hφ => hφ⟩
      · have hget : (σ.plq.emitted w)[σ.received w]? = some (r.eval R) := by
          rw [h.plq, emitted_eval, List.getElem?_map, hr]
          rfl
        simp only [exec, hget, hs]
        rfl
      · rw [hdel, h.delivered, List.map_append]
        rfl
  | eos w =>
      -- the END of a worker whose results sets have all arrived
      obtain ⟨hnot, htr⟩ := h.transferred_eos he
      obtain ⟨s, hs, ⟨hdel, heos⟩, hinv⟩ := h.execWlq F (e := .eos)
        (P := fun s => s.delivered = σ.wlq.delivered ∧
          s.emitter.eosReceived = σ.wlq.emitter.eosReceived + 1) fun φ hφ => by
        obtain ⟨s, -, hs, hinv, -, -, hdel, heos, -⟩ := (h.inv φ hφ).eos
        exact ⟨s, hs, hinv, hdel, heos⟩
      refine ⟨_, ?_, β, D, h.reached F (WlqState.client_exec hs) htr (hdel.trans h.delivered) ?_
        hinv, fun _ hφ => hφ⟩
      · simp only [exec, hs]
        rfl
      · rw [heos, h.eosReceived, Finset.card_insert_of_notMem hnot]
  | wlq e =>
      -- an event of the WLQ itself delivers nothing new
      obtain ⟨hin, he, -⟩ := he
      obtain ⟨s, hs, ⟨hdel, heos⟩, hinv⟩ := h.execWlq F
        (P := fun s => s.delivered = σ.wlq.delivered ∧
          s.emitter.eosReceived = σ.wlq.emitter.eosReceived) fun φ hφ =>
        (h.inv φ hφ).inner hin (he.inner hin)
      refine ⟨_, ?_, β, D, h.reached F (WlqState.client_exec hs) h.transferred
        (hdel.trans h.delivered) (heos.trans h.eosReceived) hinv, fun _ hφ => hφ⟩
      simp only [exec, hs]
      rfl

/-- **A run keeps the invariant**, and none of its events fails. In it the second stage runs as every
complete run of the first one plans it. -/
theorem KeptBy.run (h : KeptBy c C T σ β D) (F : Forecast c C T) (hsp : 1 ≤ c.sp)
    (hle : c.sp ≤ c.wp) {es : List (PfEvent S R)}
    (hes : Run.Valid (exec c) (fun σ e => σ.Enabled c e ∧ σ.Meets C e) es σ) :
    ∃ σ' β' D', Run.run (exec c) es σ = .ok σ' ∧ KeptBy c C T σ' β' D' ∧
      ∀ φ, Completes c C β' φ → Completes c C β φ ∧
        Run.Valid (WlqState.exec c.wlq)
          (fun s e => s.Enabled (φ.emissions.map Rset.id) e ∧ s.LeavesWorker e)
          (wlqEvents c es σ) σ.wlq ∧
        Run.run (WlqState.exec c.wlq) (wlqEvents c es σ) σ.wlq = .ok σ'.wlq := by
  -- induction on the events, whose WLQ part is collected along the run
  induction es generalizing σ β D with
  | nil => exact ⟨σ, β, D, rfl, h, fun φ hφ => ⟨hφ, trivial, rfl⟩⟩
  | cons e es ih =>
      obtain ⟨σ₁, hσ₁, β₁, D₁, h₁, hsub⟩ := h.step F hsp hle hes.1.1.2 hes.1.2
      obtain ⟨σ', β', D', hrun, h', hwlq⟩ := ih h₁ ((Run.valid_cons hσ₁).mp hes).2
      refine ⟨σ', β', D', (Run.run_cons hσ₁).trans hrun, h', fun φ hφ => ?_⟩
      obtain ⟨hφ₁, hvalid, hrunWlq⟩ := hwlq φ hφ
      refine ⟨hsub φ hφ₁, ?_⟩
      rw [wlqEvents, hσ₁]
      -- an event of the first stage adds nothing to the WLQ's run
      cases hev : σ.wlqEvent e with
      | none =>
          have hsame := wlq_exec_of_none hev hσ₁
          rw [hsame] at hvalid hrunWlq
          exact ⟨hvalid, hrunWlq⟩
      | some e' =>
          have hexec := wlq_exec_of_some hev hσ₁
          exact ⟨(Run.valid_cons hexec).mpr ⟨h.enabled F hes.1.1 hev (hsub φ hφ₁), hvalid⟩,
            (Run.run_cons hexec).trans hrunWlq⟩

end PfState

end ElasticPPQ
