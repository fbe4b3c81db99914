import ElasticPPQ.Wlq.EmitterSpec

/-! # Only reconfigurations change the activated workers

Until the end of the stream has been received from all the workers of the first stage, the WLQ emitter
changes its vector `activatedWorker` in `addWorkers` and `removeWorkers` only. -/

namespace ElasticPPQ

variable {N : Nat}

namespace WlqEmitter

/-- The same workers are activated, the same end-of-stream messages have been received, and the end of the
stream has not been broadcast in the meantime. -/
structure SameActivation (s s' : WlqEmitter N) : Prop where
  activatedWorker : s'.activatedWorker = s.activatedWorker
  eosReceived : s'.eosReceived = s.eosReceived
  wlqTerminated : s'.wlqTerminated = s.wlqTerminated
  noReturn : s'.noReturn = s.noReturn

/-- Unless the emitter is terminated, the same workers are activated. -/
def Until (s s' : WlqEmitter N) : Prop :=
  s'.wlqTerminated = false →
    s.wlqTerminated = false ∧ s'.activatedWorker = s.activatedWorker

variable {s s' s'' : WlqEmitter N}

/-- Nothing has changed. -/
theorem SameActivation.refl (s : WlqEmitter N) : SameActivation s s := ⟨rfl, rfl, rfl, rfl⟩

/-- Nothing has changed in two steps. -/
theorem SameActivation.trans (h : SameActivation s s') (h' : SameActivation s' s'') :
    SameActivation s s'' where
  activatedWorker := h'.activatedWorker.trans h.activatedWorker
  eosReceived := h'.eosReceived.trans h.eosReceived
  wlqTerminated := h'.wlqTerminated.trans h.wlqTerminated
  noReturn := h'.noReturn.trans h.noReturn

/-- What never changes does not change before the termination. -/
theorem SameActivation.toUntil (h : SameActivation s s') : Until s s' :=
  fun hno => ⟨h.wlqTerminated ▸ hno, h.activatedWorker⟩

/-- Writing a descriptor activates nobody. -/
theorem modifyDescr_same {err : WlqError} {k : Nat} {f : WinDescr → Except WlqError WinDescr}
    (h : s.modifyDescr err k f = .ok s') : SameActivation s s' := by
  unfold modifyDescr at h
  by_cases hk : k < s.firstWinId
  · rw [if_pos hk] at h
    cases h
  · rw [if_neg hk] at h
    split at h
    · cases h
    · cases h
    · obtain ⟨wd', -, h⟩ := Run.exists_of_bind_eq_ok h
      cases h
      exact ⟨rfl, rfl, rfl, rfl⟩

/-- Deleting a descriptor activates nobody. -/
theorem deleteDescr_same {k : Nat} (h : s.deleteDescr k = .ok s') : SameActivation s s' := by
  unfold deleteDescr at h
  split_ifs at h
  cases h
  exact ⟨rfl, rfl, rfl, rfl⟩

/-- Sending a task activates nobody. -/
theorem sendTaskToWorker_same {t : WTask} {w : Fin N} (h : sendTaskToWorker t w s = .ok s') :
    SameActivation s s' := by
  unfold sendTaskToWorker at h
  dsimp only at h
  split_ifs at h
  · have hs := deleteDescr_same h
    exact ⟨hs.activatedWorker, hs.eosReceived, hs.wlqTerminated, hs.noReturn⟩
  · cases h
    exact ⟨rfl, rfl, rfl, rfl⟩

/-- Scheduling a task activates nobody. -/
theorem schedule_same {t : WTask} {w : Fin N} (h : schedule t w s = .ok s') :
    SameActivation s s' := by
  have hsend : ∀ {s₁ : WlqEmitter N}, sendTaskToWorker t w
      { s₁ with nPendingtasks := s₁.nPendingtasks - 1 } = .ok s' → SameActivation s₁ s' := by
    intro s₁ h₁
    have hs := sendTaskToWorker_same h₁
    exact ⟨hs.activatedWorker, hs.eosReceived, hs.wlqTerminated, hs.noReturn⟩
  unfold schedule at h
  dsimp only at h
  split_ifs at h
  · obtain ⟨s₁, h₁, h₂⟩ := Run.exists_of_bind_eq_ok h
    exact (modifyDescr_same h₁).trans (hsend h₂)
  · exact hsend h

/-- Scheduling tasks activates nobody. -/
theorem scheduleAll_same {ts : List WTask} {sent : List (Fin N × WTask)}
    (h : scheduleAll ts s = .ok (s', sent)) : SameActivation s s' := by
  -- induction on the tasks scheduled, each of which takes an idle worker
  induction ts generalizing s s' sent with
  | nil =>
      cases h
      exact SameActivation.refl s
  | cons t ts ih =>
      rw [scheduleAll] at h
      cases hw : s.selectIdleWorker with
      | none =>
          rw [hw] at h
          cases h
      | some x =>
          rw [hw] at h
          obtain ⟨w, s₀⟩ := x
          obtain ⟨v, -, hv⟩ := Option.map_eq_some_iff.mp hw
          obtain ⟨rfl, rfl, rfl, rfl⟩ := Prod.mk.inj hv
          obtain ⟨s₁, h₁, h₂⟩ := Run.exists_of_bind_eq_ok h
          obtain ⟨⟨s₂, sent₂⟩, h₃, h₄⟩ := Run.exists_of_bind_eq_ok h₂
          cases h₄
          have hs := (schedule_same h₁).trans (ih h₃)
          exact ⟨hs.activatedWorker, hs.eosReceived, hs.wlqTerminated, hs.noReturn⟩

/-- Adding a results set to its windows activates nobody. -/
theorem addPending_same {p : Addr} {paneId noInstances : Nat} {ks : List Nat}
    (h : addPending p paneId noInstances ks s = .ok s') : SameActivation s s' := by
  induction ks generalizing s with
  | nil =>
      cases h
      exact SameActivation.refl s'
  | cons k ks ih =>
      rw [addPending] at h
      obtain ⟨s₁, h₁, h₂⟩ := Run.exists_of_bind_eq_ok h
      have hs := ih h₂
      exact (modifyDescr_same h₁).trans ⟨hs.activatedWorker, hs.eosReceived, hs.wlqTerminated, hs.noReturn⟩

/-- A results set arrives. -/
theorem arrive_same {wp sp : Nat} {p : Addr} {paneId noInstances : Nat}
    {sent : List (Fin N × WTask)}
    (h : s.arrive wp sp p paneId noInstances = .ok (s', sent)) : SameActivation s s' := by
  unfold arrive at h
  obtain ⟨s₁, h₁, h⟩ := Run.exists_of_bind_eq_ok h
  obtain ⟨s₂, h₂, h⟩ := Run.exists_of_bind_eq_ok h
  obtain ⟨⟨s₃, sent₃⟩, h₃, h⟩ := Run.exists_of_bind_eq_ok h
  cases h
  -- opening windows only touches the descriptors
  have hopen : SameActivation s s₁ := by
    unfold openWindows at h₁
    split_ifs at h₁
    cases h₁
    exact ⟨rfl, rfl, rfl, rfl⟩
  have hs := scheduleAll_same h₃
  have hsched : SameActivation s₂ s₃ := ⟨hs.activatedWorker, hs.eosReceived, hs.wlqTerminated, hs.noReturn⟩
  have hall := hopen.trans ((addPending_same h₂).trans hsched)
  exact ⟨hall.activatedWorker, hall.eosReceived, hall.wlqTerminated, hall.noReturn⟩

/-- Taking note of a complete task activates nobody. -/
theorem complete_same {w : Fin N} {fb : WTask} (h : s.complete w fb = .ok s') :
    SameActivation s s' := by
  unfold complete at h
  dsimp only at h
  -- an update frees the window, a merge makes its result pending, the last update finds no
  -- descriptor
  split_ifs at h
  · obtain ⟨s₁, h₁, h⟩ := Run.exists_of_bind_eq_ok h
    cases h
    have hs := modifyDescr_same h₁
    exact ⟨hs.activatedWorker, hs.eosReceived, hs.wlqTerminated, hs.noReturn⟩
  · obtain ⟨s₁, h₁, h⟩ := Run.exists_of_bind_eq_ok h
    cases h
    have hs := modifyDescr_same h₁
    exact ⟨hs.activatedWorker, hs.eosReceived, hs.wlqTerminated, hs.noReturn⟩
  · cases h
    exact ⟨rfl, rfl, rfl, rfl⟩

/-- The stream has not ended for the second stage, so that a check for termination does nothing. -/
theorem terminates_of_lt (h : s.eosReceived < N) : s.terminates = false :=
  decide_eq_false fun hend => h.ne hend.1

/-- The end of a feedback activates nobody, before the last end-of-stream message. -/
theorem endFeedback_same (h : s.eosReceived < N) : SameActivation s s.endFeedback := by
  rw [endFeedback, terminates_of_lt h, if_neg Bool.false_ne_true]
  exact SameActivation.refl s

/-- Termination activates all the workers. -/
theorem checkTermination_until (s : WlqEmitter N) : Until s s.checkTermination := by
  intro hno
  unfold checkTermination at hno ⊢
  split at hno
  · exact absurd hno Bool.true_eq_false.mp
  · rename_i hend
    rw [if_neg hend]
    exact ⟨hno, rfl⟩

/-- A feedback that does not terminate the stage activates nobody. -/
theorem endFeedback_until (s : WlqEmitter N) : Until s s.endFeedback := by
  intro hno
  unfold endFeedback at hno ⊢
  by_cases hend : s.terminates = true
  · rw [if_pos hend] at hno ⊢
    exact checkTermination_until s hno
  · rw [if_neg hend] at hno ⊢
    exact ⟨hno, rfl⟩

/-- The feedback of a worker, up to the check for termination. -/
theorem feedback_before {w : Fin N} {fb : WTask} {sent : List (Fin N × WTask)}
    (h : s.feedback w fb = .ok (s', sent)) :
    ∃ s₁, SameActivation s s₁ ∧ s' = s₁.endFeedback := by
  unfold feedback at h
  obtain ⟨s₁, h₁, h⟩ := Run.exists_of_bind_eq_ok h
  have hdone := complete_same h₁
  -- an activated worker is given the next task, a de-activated one is left idle
  by_cases hw : s₁.activatedWorker w = true
  · rw [if_pos hw] at h
    cases htasks : s₁.getWTasksToSchedule 1 with
    | mk ts s₂ =>
        have hfound : SameActivation s₁ s₂ := by
          cases htasks
          exact ⟨rfl, rfl, rfl, rfl⟩
        rw [htasks] at h
        -- `get_wtasks_to_schedule` is asked for one task, so more than one cannot be returned
        rcases ts with _ | ⟨t, _ | ⟨t', ts⟩⟩
        · cases h
          exact ⟨s₂, hdone.trans hfound, rfl⟩
        · obtain ⟨s₃, h₃, h⟩ := Run.exists_of_bind_eq_ok h
          cases h
          exact ⟨s₃, hdone.trans (hfound.trans (schedule_same h₃)), rfl⟩
        · cases h
          exact ⟨s₂, hdone.trans hfound, rfl⟩
  · rw [if_neg hw] at h
    cases h
    exact ⟨s₁, hdone, rfl⟩

/-- The feedback of a worker. -/
theorem feedback_same {w : Fin N} {fb : WTask} {sent : List (Fin N × WTask)}
    (heos : s.eosReceived < N) (h : s.feedback w fb = .ok (s', sent)) : SameActivation s s' := by
  obtain ⟨s₁, hsame, rfl⟩ := feedback_before h
  exact hsame.trans (endFeedback_same (hsame.eosReceived ▸ heos))

end WlqEmitter

namespace WlqState

open WlqEmitter

variable {τ R : Type} [PrefQuery τ R] {c : WlqParams} {plan : Multiset Nat} {σ σ' : WlqState N R}

/-- The event is neither a reconfiguration nor an end-of-stream message. -/
def Ordinary : WlqEvent N R → Prop
  | .arrive _ | .exec _ | .feedback _ | .collect _ => True
  | .eos | .add _ | .remove _ => False

instance decidableOrdinary : (e : WlqEvent N R) → Decidable (Ordinary e)
  | .arrive _ => isTrue trivial
  | .exec _ => isTrue trivial
  | .feedback _ => isTrue trivial
  | .collect _ => isTrue trivial
  | .eos => isFalse id
  | .add _ => isFalse id
  | .remove _ => isFalse id

/-- **Only reconfigurations change the activated workers**, until the end of the stream. -/
theorem exec_same {e : WlqEvent N R} (he : Ordinary e) (heos : σ.emitter.eosReceived < N)
    (h : exec c σ e = .ok σ') : σ.emitter.SameActivation σ'.emitter := by
  cases effect_of_exec h with
  | arrive r x hx => exact arrive_same hx
  | feedback w t ts x hq hx => exact feedback_same heos hx
  | idle | exec | collect => exact SameActivation.refl _
  | eos => exact absurd he id
  | add => exact absurd he id
  | remove => exact absurd he id

/-- **Some worker stays activated**, as long as each removal leaves one. -/
theorem hasActive_exec {e : WlqEvent N R} (h : ∃ w, σ.emitter.activatedWorker w = true)
    (he : σ.Possible plan e) (hleaves : σ.LeavesWorker e) (hσ' : exec c σ e = .ok σ') :
    ∃ w, σ'.emitter.activatedWorker w = true := by
  -- only the reconfigurations write the activation flags, the check for the end at most adds to
  -- them
  cases effect_of_exec hσ' with
  | idle | exec | collect => exact h
  | arrive r x hx =>
      show ∃ w, x.1.activatedWorker w = true
      rw [(arrive_same hx).activatedWorker]
      exact h
  | feedback w t ts x hq hx =>
      obtain ⟨s₁, hsame, hs⟩ := feedback_before hx
      obtain ⟨v, hv⟩ := h
      refine ⟨v, ?_⟩
      show x.1.activatedWorker v = true
      rw [hs]
      exact (checked_endFeedback s₁).activatedWorker v (hsame.activatedWorker ▸ hv)
  | eos =>
      obtain ⟨v, hv⟩ := h
      exact ⟨v, (checked_checkTermination _).activatedWorker v hv⟩
  | add ws s hs =>
      rw [WlqEmitter.addWorkers, Sched.activate_spec he.1 he.2] at hs
      obtain rfl := Except.ok.inj hs
      obtain ⟨v, hv⟩ := h
      refine ⟨v, ?_⟩
      show (σ.emitter.activatedWorker v || _) = true
      rw [hv, Bool.true_or]
  -- the worker that the removal leaves stays activated
  | remove ws s hs =>
      rw [WlqEmitter.removeWorkers, Sched.deactivate_spec he.1 he.2] at hs
      obtain rfl := Except.ok.inj hs
      obtain ⟨v, hv, hactive⟩ := hleaves
      refine ⟨v, ?_⟩
      show (σ.emitter.activatedWorker v && _) = true
      rw [hactive, decide_eq_false hv]
      rfl

/-- **The missing `return` comes after the broadcast only.** -/
theorem noReturn_exec {e : WlqEvent N R}
    (h : σ.emitter.noReturn = true → σ.emitter.wlqTerminated = true) (hσ' : exec c σ e = .ok σ') :
    σ'.emitter.noReturn = true → σ'.emitter.wlqTerminated = true := by
  -- the flag is set together with the broadcast, after which the stage is terminated
  have hcheck : ∀ {s₁ s₂ : WlqEmitter N}, s₁.noReturn = σ.emitter.noReturn →
      s₁.wlqTerminated = σ.emitter.wlqTerminated → Checked s₁ s₂ →
      s₂.noReturn = true → s₂.wlqTerminated = true := by
    intro s₁ s₂ hsame hterm hs hno
    rw [hs.wlqTerminated, Bool.or_eq_true, hterm]
    exact (hs.noReturn hno).imp_left fun hold => h (hsame ▸ hold)
  cases effect_of_exec hσ' with
  | idle | exec | collect => exact h
  | arrive r x hx =>
      show x.1.noReturn = true → x.1.wlqTerminated = true
      rw [(arrive_same hx).noReturn, (arrive_same hx).wlqTerminated]
      exact h
  | feedback w t ts x hq hx =>
      obtain ⟨s₁, hsame, hs⟩ := feedback_before hx
      show x.1.noReturn = true → x.1.wlqTerminated = true
      rw [hs]
      exact hcheck hsame.noReturn hsame.wlqTerminated (checked_endFeedback s₁)
  | eos =>
      refine hcheck ?_ ?_ (checked_checkTermination { σ.emitter with
        eosReceived := σ.emitter.eosReceived + 1 })
      · rfl
      · rfl
  | add ws s hs =>
      unfold WlqEmitter.addWorkers at hs
      split at hs
      · cases hs
      · cases hs
        exact h
  | remove ws s hs =>
      unfold WlqEmitter.removeWorkers at hs
      split at hs
      · cases hs
      · cases hs
        exact h

/-- In every run the missing `return` comes after the broadcast. -/
theorem noReturn_run {nw : Nat} {es : List (WlqEvent N R)}
    (hrun : Run.run (exec c) es (init N R nw) = .ok σ) (hno : σ.emitter.noReturn = true) :
    σ.emitter.wlqTerminated = true :=
  Run.run_preserves (P := fun s : WlqState N R =>
    s.emitter.noReturn = true → s.emitter.wlqTerminated = true)
    (fun _ _ _ h hσ' => noReturn_exec h hσ') hrun (fun h => absurd h Bool.false_ne_true) hno

/-- The event is not a reconfiguration. -/
def NoReconf : WlqEvent N R → Prop
  | .add _ | .remove _ => False
  | _ => True

/-- **Only reconfigurations change the activated workers**, until the emitter is terminated. -/
theorem exec_until {e : WlqEvent N R} (he : NoReconf e) (h : exec c σ e = .ok σ') :
    σ.emitter.Until σ'.emitter := by
  -- as long as the stage runs, only the reconfigurations move workers
  cases effect_of_exec h with
  | arrive r x hx => exact (arrive_same hx).toUntil
  | feedback w t ts x hq hx =>
      obtain ⟨s₁, hsame, hs⟩ := feedback_before hx
      intro hno
      have hno : x.1.wlqTerminated = false := hno
      rw [hs] at hno
      obtain ⟨hno₁, hactive⟩ := endFeedback_until s₁ hno
      obtain ⟨hno₀, hactive₀⟩ := hsame.toUntil hno₁
      refine ⟨hno₀, ?_⟩
      show x.1.activatedWorker = _
      rw [hs]
      exact hactive.trans hactive₀
  | eos => exact checkTermination_until { σ.emitter with eosReceived := σ.emitter.eosReceived + 1 }
  | idle | exec | collect => exact (SameActivation.refl _).toUntil
  | add => exact absurd he id
  | remove => exact absurd he id

end WlqState

end ElasticPPQ
