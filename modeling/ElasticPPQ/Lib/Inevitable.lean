import ElasticPPQ.Lib.Run
import Mathlib.Order.RelClasses

/-! # What a machine inevitably comes to

A state with `P` is inevitable from `s` if it is reached whatever events happen: the machine neither fails
nor comes to a state in which no event may happen, nor does it go on for ever, before it is there. A
measure that each event decreases shows this (`Inevitable.of_measure`). -/

namespace ElasticPPQ.Run

variable {σ ε χ : Type*} {exec : σ → ε → Except χ σ} {Ok : σ → ε → Prop} {P : σ → Prop} {s s' : σ}

/-- Whatever events happen, a state with `P` is reached. -/
inductive Inevitable (exec : σ → ε → Except χ σ) (Ok : σ → ε → Prop) (P : σ → Prop) : σ → Prop
  /-- It is reached already. -/
  | now {s : σ} (h : P s) : Inevitable exec Ok P s
  /-- Some event may happen, none fails, and after each of them `P` is inevitable. -/
  | next {s : σ} (can : ∃ e, Ok s e) (safe : ∀ e, Ok s e → ∃ s', exec s e = .ok s')
      (rest : ∀ e s', Ok s e → exec s e = .ok s' → Inevitable exec Ok P s') : Inevitable exec Ok P s

/-- **The rule of the measure.** As long as there is no `P`, the invariant `I` lets some event happen, and
each of them keeps it and decreases the measure. -/
theorem Inevitable.of_measure {α : Type*} {r : α → α → Prop} (hwf : WellFounded r) (μ : σ → α)
    {I : σ → Prop} (can : ∀ s, I s → ¬ P s → ∃ e, Ok s e)
    (step : ∀ s e, I s → Ok s e → ∃ s', exec s e = .ok s' ∧ I s' ∧ r (μ s') (μ s)) (h : I s) :
    Inevitable exec Ok P s := by
  obtain ⟨a, ha⟩ : ∃ a, a = μ s := ⟨_, rfl⟩
  -- induction on the measure: every event that may happen makes it smaller
  induction a using hwf.induction generalizing s with
  | _ a ih =>
      by_cases hP : P s
      · exact .now hP
      · refine .next (can s h hP) (fun e he => ?_) fun e s' he hs' => ?_
        · obtain ⟨s', hs', -⟩ := step s e h he
          exact ⟨s', hs'⟩
        · obtain ⟨s₁, hs₁, hI, hr⟩ := step s e h he
          obtain rfl := Except.ok.inj (hs₁.symm.trans hs')
          exact ih (μ s₁) (ha ▸ hr) hI rfl

end ElasticPPQ.Run
