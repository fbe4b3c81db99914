import Mathlib.Data.List.Basic

/-! # Loops that can go wrong

A loop body is a partial function on the state: it is undefined where the program accesses memory
outside of its objects. `forUpTo` is the counting loop, and `runWhile` runs a while loop for a number
of iterations at most, so that a loop that never ends is one that no number of iterations ends. The
rules for both are those of total correctness: an invariant, and a variant for the while loop. -/

namespace ElasticPPQ

variable {σ τ : Type*}

/-! ## Counting loops -/

/-- `for (i = 0; i < n; i++) body i`. -/
def forUpTo (n : Nat) (body : Nat → σ → Option σ) (s : σ) : Option σ :=
  (List.range n).foldlM (fun s i => body i s) s

/-- No iterations. -/
@[simp] theorem forUpTo_zero (body : Nat → σ → Option σ) (s : σ) : forUpTo 0 body s = some s := rfl

/-- The last iteration of a counting loop. -/
theorem forUpTo_succ (n : Nat) (body : Nat → σ → Option σ) (s : σ) :
    forUpTo (n + 1) body s = (forUpTo n body s).bind (body n) := by
  rw [forUpTo, List.range_succ, List.foldlM_append]
  refine congrArg _ (funext fun s' => ?_)
  rw [List.foldlM_cons]
  exact Option.bind_fun_some _

/-- **The rule of the counting loop**: an invariant that holds at the start, and that each iteration,
which goes well, takes to the next counter, holds at the end. -/
theorem forUpTo_rule (n : Nat) (body : Nat → σ → Option σ) (s : σ) (Q : Nat → σ → Prop) (h0 : Q 0 s)
    (hstep : ∀ i s, i < n → Q i s → ∃ s', body i s = some s' ∧ Q (i + 1) s') :
    ∃ s', forUpTo n body s = some s' ∧ Q n s' := by
  induction n with
  | zero => exact ⟨s, rfl, h0⟩
  | succ n ih =>
      obtain ⟨s₁, hrun, hs₁⟩ := ih fun i s hi => hstep i s (Nat.lt_succ_of_lt hi)
      obtain ⟨s₂, hbody, hs₂⟩ := hstep n s₁ (Nat.lt_succ_self n) hs₁
      refine ⟨s₂, ?_, hs₂⟩
      rw [forUpTo_succ, hrun, Option.bind_some, hbody]

/-! ## While loops -/

/-- What is known of a loop after some iterations. -/
inductive Outcome (σ : Type*) where
  /-- The loop has ended in this state. -/
  | done (s : σ)
  /-- An iteration went wrong. -/
  | fault
  /-- The loop goes on from this state. -/
  | more (s : σ)
  deriving DecidableEq

/-- The result of a program that ends with a loop. -/
def Outcome.map (f : σ → τ) : Outcome σ → Outcome τ
  | done s => .done (f s)
  | fault => .fault
  | more s => .more (f s)

/-- The final state, if the loop has ended. -/
def Outcome.result : Outcome σ → Option σ
  | done s => some s
  | fault => none
  | more _ => none

/-- A program that starts with a part without loops. -/
def Outcome.after : Option σ → (σ → Outcome τ) → Outcome τ
  | none, _ => .fault
  | some s, f => f s

/-- `while (cond) body`, for `n` iterations at most. -/
def runWhile (cond : σ → Bool) (body : σ → Option σ) : Nat → σ → Outcome σ
  | 0, s => if cond s then .more s else .done s
  | n + 1, s => if cond s then .after (body s) (runWhile cond body n) else .done s

variable {cond : σ → Bool} {body : σ → Option σ}

/-- The loop is left. -/
theorem runWhile_of_not {s : σ} (h : cond s = false) (n : Nat) :
    runWhile cond body n s = .done s := by
  cases n <;> rw [runWhile, h] <;> rfl

/-- One iteration. -/
theorem runWhile_step {s s' : σ} (h : cond s = true) (hs : body s = some s') (n : Nat) :
    runWhile cond body (n + 1) s = runWhile cond body n s' := by
  rw [runWhile, h, hs]
  rfl

/-- An iteration that fails. -/
theorem runWhile_fault {s : σ} (h : cond s = true) (hs : body s = none) (n : Nat) :
    runWhile cond body (n + 1) s = .fault := by
  rw [runWhile, h, hs]
  rfl

/-- The loop goes on where it was interrupted. -/
theorem runWhile_add {n : Nat} {s s' : σ} (h : runWhile cond body n s = .more s') (m : Nat) :
    runWhile cond body (n + m) s = runWhile cond body m s' := by
  -- induction on the iterations already made
  induction n generalizing s with
  | zero =>
      rw [runWhile] at h
      split at h
      · cases h
        rw [Nat.zero_add]
      · cases h
  | succ n ih =>
      rw [runWhile] at h
      split at h
      · rename_i hc
        cases hb : body s with
        | none => rw [hb] at h; cases h
        | some s₁ =>
            rw [hb] at h
            rw [Nat.succ_add, runWhile_step hc hb]
            exact ih h
      · cases h

/-- A loop that goes wrong does not end, however long it runs. -/
theorem not_done_of_fault {n : Nat} {s : σ} (h : runWhile cond body n s = .fault) (m : Nat) (s' : σ) :
    runWhile cond body m s ≠ .done s' := by
  intro hm
  induction n generalizing s m with
  | zero =>
      rw [runWhile] at h
      split at h <;> cases h
  | succ n ih =>
      rw [runWhile] at h
      split at h
      -- the body was run once; either run goes on from the same state
      · rename_i hc
        cases m with
        | zero =>
            rw [runWhile, if_pos hc] at hm
            cases hm
        | succ m =>
            rw [runWhile, if_pos hc] at hm
            cases hb : body s with
            | none => rw [hb] at hm; cases hm
            | some s₁ =>
                rw [hb] at h hm
                exact ih h m hm
      · cases h

/-- **The rule of the while loop.** `Q n` is the invariant together with a bound `n` of the number of
iterations still to come: each iteration goes well and takes the invariant to a smaller bound. Then the
loop ends, where the condition is false. -/
theorem runWhile_rule (cond : σ → Bool) (body : σ → Option σ) (Q : Nat → σ → Prop)
    (hstep : ∀ n s, Q n s → cond s = true → ∃ s' m, body s = some s' ∧ Q m s' ∧ m < n)
    {n : Nat} {s : σ} (hs : Q n s) :
    ∃ s' m, (∀ fuel, n ≤ fuel → runWhile cond body fuel s = .done s') ∧ Q m s' ∧
      cond s' = false := by
  -- strong induction on the measure, as an iteration may lower it by more than one
  induction n using Nat.strongRecOn generalizing s with
  | ind n ih =>
      cases hc : cond s with
      | false => exact ⟨s, n, fun fuel _ => runWhile_of_not hc fuel, hs, hc⟩
      | true =>
          obtain ⟨s₁, m, hb, hs₁, hlt⟩ := hstep n s hs hc
          obtain ⟨s', m', hrun, hs', hc'⟩ := ih m hlt hs₁
          refine ⟨s', m', fun fuel hfuel => ?_, hs', hc'⟩
          obtain ⟨fuel, rfl⟩ : ∃ f, fuel = f + 1 := ⟨fuel - 1, by omega⟩
          rw [runWhile_step hc hb]
          exact hrun fuel (by omega)

/-- **The rule of a number of iterations**: where the condition stays true, an invariant with the
number of iterations done holds after `n` of them. -/
theorem runWhile_more {n : Nat} (Q : Nat → σ → Prop)
    (hstep : ∀ i s, i < n → Q i s → ∃ s', cond s = true ∧ body s = some s' ∧ Q (i + 1) s')
    (hcond : ∀ s, Q n s → cond s = true) {s : σ} (hs : Q 0 s) :
    ∃ s', runWhile cond body n s = .more s' ∧ Q n s' := by
  -- after `m` iterations the rest of the fuel is left
  have hrun : ∀ m ≤ n, ∃ s', Q m s' ∧ ∀ r, runWhile cond body (m + r) s = runWhile cond body r s' := by
    intro m hm
    induction m with
    | zero => exact ⟨s, hs, fun r => by rw [Nat.zero_add]⟩
    | succ m ih =>
        obtain ⟨s₁, hs₁, hrun₁⟩ := ih (by omega)
        obtain ⟨s₂, hc, hb, hs₂⟩ := hstep m s₁ (by omega) hs₁
        refine ⟨s₂, hs₂, fun r => ?_⟩
        rw [Nat.add_right_comm, Nat.add_assoc, hrun₁, runWhile_step hc hb]
  obtain ⟨s', hs', hrun'⟩ := hrun n (Nat.le_refl n)
  refine ⟨s', ?_, hs'⟩
  have hzero := hrun' 0
  rw [Nat.add_zero] at hzero
  rw [hzero, runWhile, hcond s' hs']
  rfl

end ElasticPPQ
