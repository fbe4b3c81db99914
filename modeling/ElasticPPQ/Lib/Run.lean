import Mathlib.Init

/-! # Runs of a machine that may fail

A machine reacts to events, and a reaction either leads to a new state or fails. `Ok` says which
events may happen in which state; a run is a list of events each of which may happen when it does.
The run rule (`Valid.induction`) turns what one step preserves into what a run preserves, the absence
of failures included. -/

namespace ElasticPPQ.Run

variable {σ ε χ : Type*}

/-- The state after a list of events, or the first failure. -/
def run (exec : σ → ε → Except χ σ) : List ε → σ → Except χ σ
  | [], s => .ok s
  | e :: es, s =>
      match exec s e with
      | .error x => .error x
      | .ok s' => run exec es s'

/-- Every event may happen when it does. -/
def Valid (exec : σ → ε → Except χ σ) (Ok : σ → ε → Prop) : List ε → σ → Prop
  | [], _ => True
  | e :: es, s => Ok s e ∧
      match exec s e with
      | .error _ => True
      | .ok s' => Valid exec Ok es s'

instance decidableValid (exec : σ → ε → Except χ σ) (Ok : σ → ε → Prop)
    [∀ s e, Decidable (Ok s e)] : (es : List ε) → (s : σ) → Decidable (Valid exec Ok es s)
  | [], _ => isTrue trivial
  | e :: es, s =>
      have : Decidable (match exec s e with
          | .error _ => True
          | .ok s' => Valid exec Ok es s') :=
        match exec s e with
        | .error _ => isTrue trivial
        | .ok s' => decidableValid exec Ok es s'
      inferInstanceAs (Decidable (_ ∧ _))

variable {exec : σ → ε → Except χ σ} {Ok : σ → ε → Prop} {s s' : σ} {e : ε} {es es' : List ε}

/-- A run begins with its first event. -/
theorem run_cons (h : exec s e = .ok s') : run exec (e :: es) s = run exec es s' := by
  rw [run, h]

/-- The first event of a run that does not fail did not fail. -/
theorem exists_of_run_cons (h : run exec (e :: es) s = .ok s') :
    ∃ s₁, exec s e = .ok s₁ ∧ run exec es s₁ = .ok s' := by
  cases he : exec s e with
  | error x =>
      rw [run, he] at h
      cases h
  | ok s₁ =>
      rw [run_cons he] at h
      exact ⟨s₁, rfl, h⟩

/-- A run of one event. -/
theorem exec_of_run (h : run exec [e] s = .ok s') : exec s e = .ok s' := by
  obtain ⟨s₁, he, hnil⟩ := exists_of_run_cons h
  rw [he]
  exact hnil

/-- A run is valid if its first event may happen and the rest is valid. -/
theorem valid_cons (h : exec s e = .ok s') :
    Valid exec Ok (e :: es) s ↔ Ok s e ∧ Valid exec Ok es s' := by
  rw [Valid, h]

/-- A run is valid if its first event may happen and the rest is valid wherever that leads. -/
theorem Valid.cons (he : Ok s e) (hrest : ∀ s', exec s e = .ok s' → Valid exec Ok es s') :
    Valid exec Ok (e :: es) s := by
  refine ⟨he, ?_⟩
  cases hs : exec s e with
  | error x => exact trivial
  | ok s' => exact hrest s' hs

/-- An event that may happen is a run. -/
theorem Valid.one (he : Ok s e) : Valid exec Ok [e] s := .cons he fun _ _ => trivial

/-- **Run rule.** What every step of a run preserves, the run preserves; in particular no step of the
run fails. -/
theorem Valid.induction {P : σ → Prop}
    (step : ∀ s e, P s → Ok s e → ∃ s', exec s e = .ok s' ∧ P s')
    (hes : Valid exec Ok es s) (h : P s) : ∃ s', run exec es s = .ok s' ∧ P s' := by
  induction es generalizing s with
  | nil => exact ⟨s, rfl, h⟩
  | cons e es ih =>
      obtain ⟨s₁, hs₁, h₁⟩ := step s e h hes.1
      rw [run_cons hs₁]
      exact ih ((valid_cons hs₁).mp hes).2 h₁

/-- What no step destroys is left after a run that does not fail, whatever may happen in which state. -/
theorem run_preserves {P : σ → Prop} (step : ∀ s e s', P s → exec s e = .ok s' → P s')
    (hrun : run exec es s = .ok s') (h : P s) : P s' := by
  induction es generalizing s with
  | nil =>
      cases hrun
      exact h
  | cons e es ih =>
      obtain ⟨s₁, he, hrest⟩ := exists_of_run_cons hrun
      exact ih hrest (step s e s₁ h he)

/-- What is asked of the steps may be less. -/
theorem Valid.mono {Ok' : σ → ε → Prop} (hes : Valid exec Ok es s) (h : ∀ s e, Ok s e → Ok' s e) :
    Valid exec Ok' es s := by
  induction es generalizing s with
  | nil => exact trivial
  | cons e es ih =>
      exact .cons (h s e hes.1) fun s' hs => ih ((valid_cons hs).mp hes).2

/-! ## Computations that may fail -/

/-- A sequence of two computations succeeds if both do. -/
theorem exists_of_bind_eq_ok {χ α β : Type} {x : Except χ α} {f : α → Except χ β} {b : β}
    (h : x >>= f = .ok b) : ∃ a, x = .ok a ∧ f a = .ok b := by
  cases x with
  | error e => cases h
  | ok a => exact ⟨a, rfl, h⟩

/-- A computation that is followed by a function succeeds if it does itself. -/
theorem exists_of_map_eq_ok {χ α β : Type} {x : Except χ α} {f : α → β} {b : β}
    (h : x.map f = .ok b) : ∃ a, x = .ok a ∧ f a = b := by
  cases x with
  | error e => cases h
  | ok a =>
      cases h
      exact ⟨a, rfl, rfl⟩

/-- The result of a computation that does not fail. -/
def result : (x : Except χ σ) → x.isOk = true → σ
  | .ok s, _ => s

/-- A run that does not fail has its result. -/
theorem eq_ok_result : (x : Except χ σ) → (h : x.isOk = true) → x = .ok (result x h)
  | .ok _, _ => rfl

/-- Where everything is allowed, every run is. -/
theorem valid_true (es : List ε) (s : σ) : Valid exec (fun _ _ => True) es s := by
  induction es generalizing s with
  | nil => exact trivial
  | cons e es ih => exact .cons trivial fun s₁ _ => ih s₁

/-- **When a run is sound.** The steps that satisfy `C` preserve `P`, the other ones fail or lead to a
state that is not good: then every state on the way is good if and only if all the steps satisfy `C`. -/
theorem Valid.sound_iff {P Good : σ → Prop} {C : σ → ε → Prop} (good : ∀ s, P s → Good s)
    (step : ∀ s e, P s → Ok s e → C s e → ∃ s', exec s e = .ok s' ∧ P s')
    (bad : ∀ s e s', P s → Ok s e → ¬ C s e → exec s e = .ok s' → ¬ Good s')
    (hes : Valid exec Ok es s) (h : P s) :
    (∀ es', es' <+: es → ∃ s', run exec es' s = .ok s' ∧ Good s') ↔ Valid exec C es s := by
  -- induction on the run: after each event the condition decides whether the state is good
  induction es generalizing s with
  | nil =>
      refine ⟨fun _ => trivial, fun _ es' hes' => ⟨s, ?_, good s h⟩⟩
      rw [List.prefix_nil.mp hes', run]
  | cons e es ih =>
      constructor
      · intro hall
        obtain ⟨s₁, hs₁, hgood⟩ := hall [e] (by simp)
        have hexec := exec_of_run hs₁
        -- an event without the condition would lead to a state that is not good
        have hC : C s e :=
          Classical.byContradiction fun hno => bad s e s₁ h hes.1 hno hexec hgood
        obtain ⟨s', hs', h'⟩ := step s e h hes.1 hC
        rw [hexec] at hs'
        cases hs'
        refine (valid_cons hexec).mpr ⟨hC, (ih ((valid_cons hexec).mp hes).2 h').mp ?_⟩
        intro es' hes'
        rw [← run_cons hexec]
        exact hall (e :: es') ((List.prefix_cons_inj e).mpr hes')
      · intro hC es' hes'
        obtain ⟨s₁, hs₁, h₁⟩ := step s e h hes.1 hC.1
        cases es' with
        | nil => exact ⟨s, rfl, good s h⟩
        | cons e' es' =>
            obtain ⟨rfl, hes''⟩ := List.cons_prefix_cons.mp hes'
            rw [run_cons hs₁]
            exact (ih ((valid_cons hs₁).mp hes).2 h₁).mpr ((valid_cons hs₁).mp hC).2 es' hes''

end ElasticPPQ.Run
