import ElasticPPQ.Lib.Saturation
import Mathlib.Algebra.Order.Ring.Defs
import Mathlib.Tactic.Ring
import Mathlib.Tactic.Linarith

/-! # A PID control law with bounded integral

The discrete control law whose output is the sum of a term proportional to the error, of the error
accumulated between boundaries, and of a term against the slope of the input, the whole cut off at the
same boundaries. The law remembers the accumulated error and the last input, if there has been one.

The result is about an actuator that accumulates the outputs between boundaries of its own. An error
of one sign that lasts takes it to its boundary after a number of samples that does not depend on what
has come before: the integral cannot wind up beyond the boundaries. -/

namespace ElasticPPQ

/-- The parameters of the law. -/
structure PidLaw (α : Type*) where
  setpoint : α
  kp : α
  ki : α
  kd : α
  lo : α
  hi : α

namespace PidLaw

/-- What the law remembers. -/
structure Memory (α : Type*) where
  /-- The accumulated error, times its gain. -/
  integral : α
  /-- The last input. -/
  previous : Option α

variable {α : Type*} [CommRing α] [LinearOrder α]

/-- The error of an input. -/
def error (c : PidLaw α) (x : α) : α := c.setpoint - x

/-- The accumulated error, that of the input included. -/
def integrate (c : PidLaw α) (x : α) (m : Memory α) : α :=
  clamp c.lo c.hi (m.integral + c.ki * c.error x)

/-- How much the input has grown. -/
def slope (x : α) (m : Memory α) : α := x - m.previous.getD x

/-- The output to an input. -/
def output (c : PidLaw α) (x : α) (m : Memory α) : α :=
  clamp c.lo c.hi (c.kp * c.error x + c.integrate x m - c.kd * slope x m)

/-- What is remembered of an input. -/
def next (c : PidLaw α) (x : α) (m : Memory α) : Memory α := ⟨c.integrate x m, some x⟩

/-- What is remembered after a list of inputs. -/
def after (c : PidLaw α) : List α → Memory α → Memory α
  | [], m => m
  | x :: xs, m => c.after xs (c.next x m)

/-- The outputs to a list of inputs. -/
def outputs (c : PidLaw α) : List α → Memory α → List α
  | [], _ => []
  | x :: xs, m => c.output x m :: c.outputs xs (c.next x m)

/-- The slopes of a list of inputs. -/
def slopes : List α → Option α → List α
  | [], _ => []
  | x :: xs, previous => (x - previous.getD x) :: slopes xs (some x)

variable {c : PidLaw α} {m : Memory α}

/-- One output for each input. -/
@[simp] theorem outputs_length (xs : List α) : (c.outputs xs m).length = xs.length := by
  induction xs generalizing m with
  | nil => rfl
  | cons x xs ih => rw [outputs, List.length_cons, List.length_cons, ih]

/-- The outputs of a sequence in two parts. -/
theorem outputs_append (xs ys : List α) :
    c.outputs (xs ++ ys) m = c.outputs xs m ++ c.outputs ys (c.after xs m) := by
  induction xs generalizing m with
  | nil => rfl
  | cons x xs ih => exact congrArg _ ih

/-- The integral accumulates the errors. -/
theorem integral_after (xs : List α) : (c.after xs m).integral =
    accumulate c.lo c.hi (xs.map fun x => c.ki * c.error x) m.integral := by
  induction xs generalizing m with
  | nil => rfl
  | cons x xs ih => exact ih

/-- Inputs of a set have their last one in it. -/
theorem previous_after {D : Set α} {xs : List α} (hxs : ∀ x ∈ xs, x ∈ D)
    (hm : ∀ y ∈ m.previous, y ∈ D) : ∀ y ∈ (c.after xs m).previous, y ∈ D := by
  induction xs generalizing m with
  | nil => exact hm
  | cons x xs ih =>
      refine ih (fun y hy => hxs y (List.mem_cons_of_mem _ hy)) fun y hy => ?_
      obtain rfl := Option.mem_some.mp hy
      exact hxs x List.mem_cons_self

variable [IsStrictOrderedRing α]

/-- The slopes of inputs that stay within a range. -/
theorem slopes_mem {a b : α} {xs : List α} (hxs : ∀ x ∈ xs, a ≤ x ∧ x ≤ b)
    {previous : Option α} (hp : ∀ y ∈ previous, a ≤ y ∧ y ≤ b) {v : α}
    (hv : v ∈ slopes xs previous) : a - b ≤ v ∧ v ≤ b - a := by
  induction xs generalizing previous with
  | nil => exact absurd hv List.not_mem_nil
  | cons x xs ih =>
      have hx := hxs x List.mem_cons_self
      rcases List.mem_cons.mp hv with rfl | hv
      -- the first input has no previous one, so its slope is zero
      · have hy : a ≤ previous.getD x ∧ previous.getD x ≤ b := by
          cases previous with
          | none => exact hx
          | some y => exact hp y rfl
        constructor <;> linarith [hx.1, hx.2, hy.1, hy.2]
      · refine ih (fun y hy => hxs y (List.mem_cons_of_mem _ hy)) (fun y hy => ?_) hv
        obtain rfl := Option.mem_some.mp hy
        exact hx

/-- While the errors keep the integral below `u`, the outputs are not further above `u` than the
proportional term and the slopes take them. -/
theorem outputs_le {u ρ κ w : α} (hu : c.lo ≤ u) (hm : m.integral ≤ u) (hlo : c.lo ≤ w)
    (hw : u - ρ + κ ≤ w) {xs : List α} (hki : ∀ x ∈ xs, c.ki * c.error x ≤ 0)
    (hkp : ∀ x ∈ xs, c.kp * c.error x ≤ -ρ) (hkd : ∀ v ∈ slopes xs m.previous, -(c.kd * v) ≤ κ)
    {o : α} (ho : o ∈ c.outputs xs m) : o ≤ w := by
  induction xs generalizing m with
  | nil => exact absurd ho List.not_mem_nil
  | cons x xs ih =>
      -- the integral part only falls, since the error pushes it down
      have hint : c.integrate x m ≤ u :=
        clamp_le_of_le hu (by linarith [hki x List.mem_cons_self])
      rcases List.mem_cons.mp ho with rfl | ho
      · have hp := hkp x List.mem_cons_self
        have hd : -(c.kd * slope x m) ≤ κ := hkd _ List.mem_cons_self
        exact clamp_le_of_le hlo (by linarith)
      · exact ih hint (fun y hy => hki y (List.mem_cons_of_mem _ hy))
          (fun y hy => hkp y (List.mem_cons_of_mem _ hy))
          (fun v hv => hkd v (List.mem_cons_of_mem _ hv)) ho

/-- **A lasting error empties an actuator** that accumulates the outputs between `bot` and `top`. The
first inputs take the integral to its lower boundary, from wherever it is, and the outputs to the
remaining ones do the rest; neither number depends on what the law remembers. -/
theorem accumulate_outputs_eq_bot (hc : c.lo ≤ c.hi) {bot top : α} (hbt : bot ≤ top) {δ ρ κ σ : α}
    (hδ : 0 ≤ δ) (hσ : 0 ≤ σ) (hlo : c.lo ≤ -σ) (hw : c.lo - ρ + κ ≤ -σ) {xs ys : List α}
    (hki : ∀ x ∈ xs ++ ys, c.ki * c.error x ≤ -δ) (hkp : ∀ x ∈ ys, c.kp * c.error x ≤ -ρ)
    (hkd : ∀ v ∈ slopes ys (c.after xs m).previous, -(c.kd * v) ≤ κ)
    (hm : c.lo ≤ m.integral ∧ m.integral ≤ c.hi) (hxs : c.hi ≤ c.lo + xs.length • δ)
    (hys : top ≤ bot + ys.length • σ) {a : α} (ha : bot ≤ a ∧ a ≤ top) :
    accumulate bot top (c.outputs (xs ++ ys) m) a = bot := by
  -- the inputs `xs` drive the integral part to its lower limit
  have hint : (c.after xs m).integral = c.lo := by
    rw [integral_after]
    refine accumulate_eq_lo hc hδ (fun d hd => ?_) hm.1 ?_
    · obtain ⟨x, hx, rfl⟩ := List.mem_map.mp hd
      exact hki x (List.mem_append_left _ hx)
    · rw [List.length_map]
      exact hm.2.trans hxs
  have hmem := accumulate_mem hbt (c.outputs xs m) ha
  rw [outputs_append, accumulate_append]
  -- from there each output is at most `-σ`, and the slack falls with every one
  refine accumulate_eq_lo hbt hσ (fun o ho => ?_) hmem.1 ?_
  · exact outputs_le le_rfl hint.le hlo hw
      (fun x hx => (hki x (List.mem_append_right _ hx)).trans (neg_nonpos.mpr hδ)) hkp hkd ho
  · rw [outputs_length]
    exact hmem.2.trans hys

/-! ## Changing all signs -/

/-- The law whose outputs have the other sign. -/
def neg (c : PidLaw α) : PidLaw α := ⟨c.setpoint, -c.kp, -c.ki, -c.kd, -c.hi, -c.lo⟩

/-- What it remembers. -/
def Memory.neg (m : Memory α) : Memory α := ⟨-m.integral, m.previous⟩

omit [LinearOrder α] [IsStrictOrderedRing α] in
/-- The reversed law has the same error. -/
theorem neg_error (x : α) : c.neg.error x = c.error x := rfl

/-- A step of the reversed law from the negated memory leads to the negated memory. -/
theorem neg_next (hc : c.lo ≤ c.hi) (x : α) : c.neg.next x m.neg = (c.next x m).neg := by
  have hint : c.neg.integrate x m.neg = -c.integrate x m := by
    rw [integrate, integrate, ← clamp_neg hc, neg_add, ← neg_mul]
    rfl
  rw [next, hint]
  rfl

/-- So do any number of steps. -/
theorem neg_after (hc : c.lo ≤ c.hi) (xs : List α) :
    c.neg.after xs m.neg = (c.after xs m).neg := by
  induction xs generalizing m with
  | nil => rfl
  | cons x xs ih => rw [after, neg_next hc, ih, after]

/-- The reversed law has the negated outputs. -/
theorem neg_outputs (hc : c.lo ≤ c.hi) (xs : List α) :
    c.neg.outputs xs m.neg = (c.outputs xs m).map (-·) := by
  induction xs generalizing m with
  | nil => rfl
  | cons x xs ih =>
      have hint : c.neg.integrate x m.neg = -c.integrate x m :=
        congrArg Memory.integral (neg_next hc x)
      have hout : c.neg.output x m.neg = -c.output x m := by
        rw [output, output, ← clamp_neg hc, hint, neg_error]
        refine congrArg _ ?_
        show -c.kp * c.error x + -c.integrate x m - -c.kd * slope x m = _
        ring
      rw [outputs, outputs, List.map_cons, hout, neg_next hc, ih]

/-- **A lasting error of the other sign fills the actuator.** -/
theorem accumulate_outputs_eq_top (hc : c.lo ≤ c.hi) {bot top : α} (hbt : bot ≤ top) {δ ρ κ σ : α}
    (hδ : 0 ≤ δ) (hσ : 0 ≤ σ) (hhi : σ ≤ c.hi) (hw : σ ≤ c.hi + ρ - κ) {xs ys : List α}
    (hki : ∀ x ∈ xs ++ ys, δ ≤ c.ki * c.error x) (hkp : ∀ x ∈ ys, ρ ≤ c.kp * c.error x)
    (hkd : ∀ v ∈ slopes ys (c.after xs m).previous, c.kd * v ≤ κ)
    (hm : c.lo ≤ m.integral ∧ m.integral ≤ c.hi) (hxs : c.hi ≤ c.lo + xs.length • δ)
    (hys : top ≤ bot + ys.length • σ) {a : α} (ha : bot ≤ a ∧ a ≤ top) :
    accumulate bot top (c.outputs (xs ++ ys) m) a = top := by
  -- the reversed law turns the top of the range into the bottom
  have hneg : accumulate (-top) (-bot) (c.neg.outputs (xs ++ ys) m.neg) (-a) = -top := by
    refine accumulate_outputs_eq_bot (neg_le_neg hc) (neg_le_neg hbt) hδ hσ (ρ := ρ) (κ := κ)
      (neg_le_neg hhi) ?_ ?_ ?_ ?_ ⟨neg_le_neg hm.2, neg_le_neg hm.1⟩ ?_ ?_
      ⟨neg_le_neg ha.2, neg_le_neg ha.1⟩
    · show -c.hi - ρ + κ ≤ -σ
      linarith
    · intro x hx
      have h := hki x hx
      show -c.ki * c.error x ≤ -δ
      linarith
    · intro x hx
      have h := hkp x hx
      show -c.kp * c.error x ≤ -ρ
      linarith
    · intro v hv
      rw [neg_after hc] at hv
      have h := hkd v hv
      show -(-c.kd * v) ≤ κ
      linarith
    · show -c.lo ≤ -c.hi + xs.length • δ
      linarith
    · show -bot ≤ -top + ys.length • σ
      linarith
  rw [neg_outputs hc, accumulate_neg hbt] at hneg
  exact neg_injective hneg

end PidLaw

end ElasticPPQ
