import ElasticPPQ.Lib.Run

/-! # Machines behind a front

A front has a state of its own and turns each of its events into a list of events of the machine behind
it, unless it fails. If what it passes on is always allowed there, then a run of the two together is a
run of the machine, with the invariant that the front keeps (`Valid.drive`). -/

namespace ElasticPPQ.Run

variable {φ ψ σ ε χ : Type*} {exec : σ → ε → Except χ σ} {Ok : σ → ε → Prop}

/-- A run in two parts. -/
theorem run_append {es es' : List ε} {s s' : σ} (h : run exec es s = .ok s') :
    run exec (es ++ es') s = run exec es' s' := by
  induction es generalizing s with
  | nil =>
      obtain rfl := Except.ok.inj h
      rfl
  | cons e es ih =>
      obtain ⟨s₁, he, hrest⟩ := exists_of_run_cons h
      rw [List.cons_append, run_cons he, ih hrest]

/-- The parts of a run that does not fail. -/
theorem exists_of_run_append {es es' : List ε} {s s' : σ} (h : run exec (es ++ es') s = .ok s') :
    ∃ s₁, run exec es s = .ok s₁ ∧ run exec es' s₁ = .ok s' := by
  induction es generalizing s with
  | nil => exact ⟨s, rfl, h⟩
  | cons e es ih =>
      rw [List.cons_append] at h
      obtain ⟨s₁, he, hrest⟩ := exists_of_run_cons h
      rw [run_cons he]
      exact ih hrest

/-- A run in two parts is valid if its parts are. -/
theorem Valid.append {es es' : List ε} {s : σ} (h : Valid exec Ok es s)
    (h' : ∀ s', run exec es s = .ok s' → Valid exec Ok es' s') : Valid exec Ok (es ++ es') s := by
  induction es generalizing s with
  | nil => exact h' s rfl
  | cons e es ih =>
      refine .cons h.1 fun s₁ he => ih ((valid_cons he).mp h).2 fun s' hs' => ?_
      exact h' s' ((run_cons he).trans hs')

/-- The events are allowed one after the other from `s` on, and lead to `s'`. -/
structure Leads (exec : σ → ε → Except χ σ) (Ok : σ → ε → Prop) (es : List ε) (s s' : σ) : Prop where
  valid : Valid exec Ok es s
  run : run exec es s = .ok s'

variable {s s' s'' : σ} {es es' : List ε}

/-- The empty run leads nowhere. -/
theorem Leads.nil (s : σ) : Leads exec Ok [] s s := ⟨trivial, rfl⟩

/-- A single event leads to its effect. -/
theorem Leads.one {e : ε} (hok : Ok s e) (h : exec s e = .ok s') : Leads exec Ok [e] s s' :=
  ⟨.one hok, run_cons h⟩

/-- Runs follow one another. -/
theorem Leads.append (h : Leads exec Ok es s s') (h' : Leads exec Ok es' s' s'') :
    Leads exec Ok (es ++ es') s s'' := by
  refine ⟨h.valid.append fun s₁ hs₁ => ?_, (run_append h.run).trans h'.run⟩
  obtain rfl := Except.ok.inj (h.run.symm.trans hs₁)
  exact h'.valid

/-- The front and the machine: an event of the front is followed by the events it passes on. -/
def drive (front : φ → ψ → Option (φ × List ε)) (exec : σ → ε → Except χ σ) (failure : χ)
    (x : φ × σ) (e : ψ) : Except χ (φ × σ) :=
  match front x.1 e with
  | none => .error failure
  | some (f, es) => (run exec es x.2).map fun s => (f, s)

/-- The machine has come from `s₀` to `s` by a run in which every event was allowed. -/
def Reached (exec : σ → ε → Except χ σ) (Ok : σ → ε → Prop) (s₀ s : σ) : Prop :=
  ∃ es, Valid exec Ok es s₀ ∧ run exec es s₀ = .ok s

/-- **The rule of the front.** If the machine never fails on events that are allowed, and the front
neither fails nor passes on anything else, then the two together do not fail either, the machine has come
where one of its own runs leads, and the invariant `I` of the two holds. -/
theorem Valid.drive {front : φ → ψ → Option (φ × List ε)} {failure : χ} {En : φ × σ → ψ → Prop}
    {I : φ → σ → Prop} {f₀ : φ} {s₀ : σ}
    (safe : ∀ es, Valid exec Ok es s₀ → ∃ s, run exec es s₀ = .ok s)
    (step : ∀ f s e, I f s → En (f, s) e → ∃ f' es, front f e = some (f', es) ∧
      Valid exec Ok es s ∧ ∀ s', run exec es s = .ok s' → I f' s')
    {events : List ψ} (hes : Valid (Run.drive front exec failure) En events (f₀, s₀))
    (h : I f₀ s₀) : ∃ f s, run (Run.drive front exec failure) events (f₀, s₀) = .ok (f, s) ∧
      Reached exec Ok s₀ s ∧ I f s := by
  have hstep : ∀ x e, Reached exec Ok s₀ x.2 ∧ I x.1 x.2 → En x e →
      ∃ x', Run.drive front exec failure x e = .ok x' ∧ Reached exec Ok s₀ x'.2 ∧ I x'.1 x'.2 := by
    rintro ⟨f, s⟩ e ⟨⟨es, hvalid, hrun⟩, hI⟩ he
    obtain ⟨f', es', hfront, hvalid', hkeep⟩ := step f s e hI he
    -- the run so far goes on with what the front passes on
    have hall := hvalid.append fun s' hs' => by
      obtain rfl := Except.ok.inj (hrun.symm.trans hs')
      exact hvalid'
    obtain ⟨s', hs'⟩ := safe _ hall
    have hrest := hs'
    rw [run_append hrun] at hrest
    refine ⟨(f', s'), ?_, ⟨es ++ es', hall, hs'⟩, hkeep s' hrest⟩
    rw [Run.drive, hfront]
    dsimp only
    rw [hrest]
    rfl
  obtain ⟨⟨f, s⟩, hrun, hreached, hI⟩ :=
    hes.induction (P := fun x => Reached exec Ok s₀ x.2 ∧ I x.1 x.2) hstep ⟨⟨[], trivial, rfl⟩, h⟩
  exact ⟨f, s, hrun, hreached, hI⟩

end ElasticPPQ.Run
