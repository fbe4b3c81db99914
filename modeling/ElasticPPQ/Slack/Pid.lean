import ElasticPPQ.Lib.PidLaw
import Mathlib.Algebra.Order.Ring.Rat

/-! # The PID controller

The class `PID` (`pid.hpp`), with which the adaptive K-slack algorithms adapt the slack and
`Adaptive_Sched_PID` its threshold. That there is no last input yet is encoded by the value `-1`. Over
whole runs of calls the class follows a PID law, as long as no input is `-1`
(`PID.follows_law`). Doubles are rational numbers. -/

namespace ElasticPPQ

/-- The fields of `PID`. -/
structure PID where
  /-- Desired value of the input. -/
  setpoint : ℚ
  /-- The integral term. -/
  iTerm : ℚ
  /-- The input of the last sample; `-1` before the first one. -/
  lastInput : ℚ
  /-- Current input. -/
  input : ℚ
  /-- Current output. -/
  output : ℚ
  /-- Proportional gain. -/
  kp : ℚ
  /-- Integral gain. -/
  ki : ℚ
  /-- Derivative gain. -/
  kd : ℚ
  /-- Lower boundary of the output. -/
  outMin : ℚ
  /-- Upper boundary of the output. -/
  outMax : ℚ
  /-- Whether the PID is enabled. -/
  inAuto : Bool
  /-- Direction of the controller. -/
  isReversed : Bool
  deriving DecidableEq

namespace PID

/-- `setGains`: negative gains are ignored. -/
def setGains (kp ki kd : ℚ) (s : PID) : PID :=
  if kp < 0 ∨ ki < 0 ∨ kd < 0 then s
  else if !s.isReversed then { s with kp := kp, ki := ki, kd := kd }
  else { s with kp := 0 - kp, ki := 0 - ki, kd := 0 - kd }

/-- The constructor. Negative gains leave the gains as they are in memory, `mem`. -/
def new (mem : PID) (kp ki kd setpoint outMin outMax : ℚ) (inAuto isReversed : Bool) : PID :=
  let s := { mem with iTerm := 0, lastInput := -1, input := 0, output := 0, isReversed := isReversed }
  let s := s.setGains kp ki kd
  { s with setpoint := setpoint, outMin := outMin, outMax := outMax, inAuto := inAuto }

/-- `initialize`. -/
def initialise (s : PID) : PID :=
  { s with lastInput := s.input, iTerm := clamp s.outMin s.outMax s.output }

/-- `setInput`. -/
def setInput (input : ℚ) (s : PID) : PID := { s with input := input }

/-- `process`. The result tells whether there is a new output. -/
def process (s : PID) : Bool × PID :=
  -- only for the first sampling interval, also if the PID is disabled
  let s := if s.lastInput = -1 then { s with lastInput := s.input } else s
  if !s.inAuto then (false, s)
  else
    let error := s.setpoint - s.input
    let s := { s with iTerm := clamp s.outMin s.outMax (s.iTerm + s.ki * error) }
    let dInput := s.input - s.lastInput
    let s := { s with
      output := clamp s.outMin s.outMax (s.kp * error + s.iTerm - s.kd * dInput) }
    (true, { s with lastInput := s.input })

/-- `getOutput`. -/
def getOutput (s : PID) : ℚ := s.output

/-- `setOutputLimits`: boundaries in the wrong order are ignored. -/
def setOutputLimits (min max : ℚ) (s : PID) : PID :=
  if max < min then s
  else { s with
    outMin := min, outMax := max, output := clamp min max s.output
    iTerm := clamp min max s.iTerm }

/-- `setMode`, given whether the mode is `AUTOMATIC`: any change of the mode initializes the PID. -/
def setMode (automatic : Bool) (s : PID) : PID :=
  let s := if automatic = !s.inAuto then s.initialise else s
  { s with inAuto := automatic }

/-- `setSetPoint`. -/
def setSetPoint (setpoint : ℚ) (s : PID) : PID :=
  { s with setpoint := setpoint, iTerm := 0, lastInput := -1, input := 0, output := 0 }

/-- `setReversed`: the gains keep their signs. -/
def setReversed (isReversed : Bool) (s : PID) : PID := { s with isReversed := isReversed }

/-- The methods that change the object. -/
inductive Call where
  | setGains (kp ki kd : ℚ)
  | initialise
  | setInput (input : ℚ)
  | process
  | setOutputLimits (min max : ℚ)
  | setMode (automatic : Bool)
  | setSetPoint (setpoint : ℚ)
  | setReversed (isReversed : Bool)
  deriving DecidableEq

/-- One call. -/
def call (s : PID) : Call → PID
  | .setGains kp ki kd => s.setGains kp ki kd
  | .initialise => s.initialise
  | .setInput input => s.setInput input
  | .process => s.process.2
  | .setOutputLimits min max => s.setOutputLimits min max
  | .setMode automatic => s.setMode automatic
  | .setSetPoint setpoint => s.setSetPoint setpoint
  | .setReversed isReversed => s.setReversed isReversed

/-- A list of calls. -/
def calls (cs : List Call) (s : PID) : PID := cs.foldl call s

/-! ## The law behind it -/

/-- What is left of a PID when its memory of the inputs is no longer encoded. -/
structure Behaviour where
  /-- The parameters. -/
  law : PidLaw ℚ
  /-- The integral term and the last input. -/
  memory : PidLaw.Memory ℚ
  /-- Current input. -/
  input : ℚ
  /-- Current output. -/
  output : ℚ
  /-- Whether the PID is enabled. -/
  inAuto : Bool
  /-- Direction of the controller. -/
  isReversed : Bool

namespace Behaviour

/-- A change of mode, or a call of `initialize`, starts from the present input and output. -/
def restart (b : Behaviour) : Behaviour :=
  { b with memory := ⟨clamp b.law.lo b.law.hi b.output, some b.input⟩ }

/-- What a call is meant to do. -/
def call (b : Behaviour) : Call → Behaviour
  | .setGains kp ki kd =>
      -- negative gains are refused
      if kp < 0 ∨ ki < 0 ∨ kd < 0 then b
      else if b.isReversed then { b with law := { b.law with kp := -kp, ki := -ki, kd := -kd } }
      else { b with law := { b.law with kp := kp, ki := ki, kd := kd } }
  | .initialise => b.restart
  | .setInput input => { b with input := input }
  | .process =>
      if b.inAuto then
        { b with output := b.law.output b.input b.memory, memory := b.law.next b.input b.memory }
      -- in manual mode only the last input is remembered, on the first call
      else { b with memory := { b.memory with previous := some (b.memory.previous.getD b.input) } }
  | .setOutputLimits min max =>
      if max < min then b
      else { b with
        law := { b.law with lo := min, hi := max }
        memory := { b.memory with integral := clamp min max b.memory.integral }
        output := clamp min max b.output }
  | .setMode automatic =>
      -- any change of the mode initialises, not only that to the automatic one
      { if automatic = b.inAuto then b else b.restart with inAuto := automatic }
  | .setSetPoint setpoint =>
      { b with law := { b.law with setpoint := setpoint }, memory := ⟨0, none⟩, input := 0, output := 0 }
  | .setReversed isReversed => { b with isReversed := isReversed }

/-- What a list of calls is meant to do. -/
def calls (cs : List Call) (b : Behaviour) : Behaviour := cs.foldl call b

end Behaviour

/-- The parameters of the law. -/
def law (s : PID) : PidLaw ℚ := ⟨s.setpoint, s.kp, s.ki, s.kd, s.outMin, s.outMax⟩

/-- What is remembered, the value `-1` being none. -/
def memory (s : PID) : PidLaw.Memory ℚ :=
  ⟨s.iTerm, if s.lastInput = -1 then none else some s.lastInput⟩

/-- The behaviour of a PID. -/
def behaviour (s : PID) : Behaviour := ⟨s.law, s.memory, s.input, s.output, s.inAuto, s.isReversed⟩

/-- The call does not set the input to `-1`. -/
def Call.Usual (c : Call) : Prop := c ≠ .setInput (-1)

instance decidableUsual (c : Call) : Decidable c.Usual := inferInstanceAs (Decidable (_ ≠ _))

variable {s : PID}

/-- The behaviour of a controller that has had an input. -/
theorem behaviour_of_lastInput (h : s.lastInput ≠ -1) : s.behaviour =
    ⟨s.law, ⟨s.iTerm, some s.lastInput⟩, s.input, s.output, s.inAuto, s.isReversed⟩ := by
  rw [behaviour, memory, if_neg h]

/-- The last input, or the current one if there is none. -/
theorem getD_previous (s : PID) :
    s.memory.previous.getD s.input = if s.lastInput = -1 then s.input else s.lastInput := by
  unfold memory
  dsimp only
  split <;> rfl

/-- **Processing** an input makes the step of the law. -/
theorem process_of_inAuto (h : s.inAuto = true) : s.process = (true,
    { s with
      lastInput := s.input, iTerm := s.law.integrate s.input s.memory
      output := s.law.output s.input s.memory }) := by
  have hslope : PidLaw.slope s.input s.memory =
      s.input - if s.lastInput = -1 then s.input else s.lastInput := by
    rw [PidLaw.slope, getD_previous]
  rw [PidLaw.output, hslope]
  unfold process
  split <;> simp only [h] <;> rfl

/-- A PID that is disabled at most takes note of its first input. -/
theorem process_of_not_inAuto (h : s.inAuto = false) :
    s.process = (false, { s with lastInput := s.memory.previous.getD s.input }) := by
  rw [getD_previous]
  unfold process
  split
  · simp [h]
  · simp only [h, Bool.not_false, if_true]
    rw [← h]

/-- An initialisation restarts the behaviour. -/
theorem restart_behaviour (h : s.input ≠ -1) : s.initialise.behaviour = s.behaviour.restart := by
  rw [behaviour_of_lastInput (s := s.initialise) h]
  rfl

/-- **One call** does what it is meant to do, and its input is not `-1` either. -/
theorem call_behaviour (h : s.input ≠ -1) {c : Call} (hc : c.Usual) :
    (s.call c).behaviour = s.behaviour.call c ∧ (s.call c).input ≠ -1 := by
  -- one case per call of the interface; only `process` computes
  cases c with
  | setGains kp ki kd =>
      refine ⟨?_, ?_⟩
      · show (s.setGains kp ki kd).behaviour = _
        unfold setGains Behaviour.call
        dsimp only
        by_cases hneg : kp < 0 ∨ ki < 0 ∨ kd < 0
        · rw [if_pos hneg, if_pos hneg]
        · rw [if_neg hneg, if_neg hneg]
          show _ = if s.isReversed then _ else _
          cases hrev : s.isReversed <;> simp [behaviour, law, memory, hrev]
      · show (s.setGains kp ki kd).input ≠ -1
        unfold setGains
        split_ifs <;> exact h
  | initialise => exact ⟨restart_behaviour h, h⟩
  | setInput input => exact ⟨rfl, fun heq => hc (congrArg _ heq)⟩
  | process =>
      show (s.process.2).behaviour = _ ∧ (s.process.2).input ≠ -1
      cases hauto : s.inAuto with
      | true =>
          rw [process_of_inAuto hauto]
          refine ⟨?_, h⟩
          show _ = if s.inAuto = true then _ else _
          rw [if_pos hauto, behaviour_of_lastInput h]
          rfl
      | false =>
          rw [process_of_not_inAuto hauto]
          refine ⟨?_, h⟩
          have hlast : s.memory.previous.getD s.input ≠ -1 := by
            rw [getD_previous]
            split
            · exact h
            · assumption
          show _ = if s.inAuto = true then _ else _
          rw [if_neg (by rw [hauto]; exact Bool.false_ne_true), behaviour_of_lastInput hlast]
          rfl
  | setOutputLimits min max =>
      show (s.setOutputLimits min max).behaviour = _ ∧ (s.setOutputLimits min max).input ≠ -1
      unfold setOutputLimits Behaviour.call
      dsimp only
      split
      · exact ⟨rfl, h⟩
      · exact ⟨rfl, h⟩
  | setMode automatic =>
      show (s.setMode automatic).behaviour = _ ∧ (s.setMode automatic).input ≠ -1
      unfold setMode
      have hcall : s.behaviour.call (.setMode automatic) =
        { if automatic = s.inAuto then s.behaviour else s.behaviour.restart with
          inAuto := automatic } := rfl
      rw [hcall, ← restart_behaviour h]
      have hchange : automatic = !s.inAuto ↔ ¬ automatic = s.inAuto := by
        cases automatic <;> cases s.inAuto <;> decide
      -- setting the mode it is already in does nothing
      by_cases hsame : automatic = s.inAuto
      · rw [if_pos hsame, if_neg fun hc => hchange.mp hc hsame]
        exact ⟨rfl, h⟩
      · rw [if_neg hsame, if_pos (hchange.mpr hsame)]
        exact ⟨rfl, h⟩
  | setSetPoint setpoint =>
      refine ⟨?_, ?_⟩
      · simp [call, setSetPoint, behaviour, memory, Behaviour.call, law]
      · norm_num [call, setSetPoint]
  | setReversed isReversed => exact ⟨rfl, h⟩

/-- Calls of methods with usual inputs do what they are meant to do. -/
theorem calls_behaviour (h : s.input ≠ -1) {cs : List Call} (hcs : ∀ c ∈ cs, c.Usual) :
    (s.calls cs).behaviour = s.behaviour.calls cs := by
  induction cs generalizing s with
  | nil => rfl
  | cons c cs ih =>
      obtain ⟨hbeh, hinput⟩ := call_behaviour h (hcs c List.mem_cons_self)
      show ((s.call c).calls cs).behaviour = (s.behaviour.call c).calls cs
      rw [ih hinput fun c hc => hcs c (List.mem_cons_of_mem _ hc), hbeh]

/-! ## The boundaries -/

/-- The output and the integral term are within the boundaries, unless they have been reset. -/
structure Within (s : PID) : Prop where
  le : s.outMin ≤ s.outMax
  output : s.output = 0 ∨ s.outMin ≤ s.output ∧ s.output ≤ s.outMax
  iTerm : s.iTerm = 0 ∨ s.outMin ≤ s.iTerm ∧ s.iTerm ≤ s.outMax

/-- The controller as constructed is within its limits. -/
theorem new_within (mem : PID) (kp ki kd setpoint : ℚ) {outMin outMax : ℚ} (h : outMin ≤ outMax)
    (inAuto isReversed : Bool) :
    (new mem kp ki kd setpoint outMin outMax inAuto isReversed).Within := by
  have hsame : ∀ m : PID, (m.setGains kp ki kd).output = m.output ∧
      (m.setGains kp ki kd).iTerm = m.iTerm := by
    intro m
    unfold setGains
    split_ifs <;> exact ⟨rfl, rfl⟩
  refine ⟨h, Or.inl ?_, Or.inl ?_⟩
  · exact (hsame _).1
  · exact (hsame _).2

/-- An initialisation stays within the limits. -/
theorem Within.restart (h : s.Within) : s.initialise.Within :=
  ⟨h.le, h.output, Or.inr ⟨le_clamp h.le _, clamp_le h.le _⟩⟩

/-- **Every call keeps to the boundaries**, whatever its arguments. -/
theorem Within.call (h : s.Within) (c : Call) : (s.call c).Within := by
  -- one case per call: only `process` and `setOutputLimits` write the output
  cases c with
  | setGains kp ki kd =>
      show (s.setGains kp ki kd).Within
      unfold setGains
      split_ifs <;> exact ⟨h.le, h.output, h.iTerm⟩
  | initialise => exact h.restart
  | setInput input => exact ⟨h.le, h.output, h.iTerm⟩
  | process =>
      show s.process.2.Within
      cases hauto : s.inAuto with
      | true =>
          rw [process_of_inAuto hauto]
          exact ⟨h.le, Or.inr ⟨le_clamp h.le _, clamp_le h.le _⟩,
            Or.inr ⟨le_clamp h.le _, clamp_le h.le _⟩⟩
      | false =>
          rw [process_of_not_inAuto hauto]
          exact ⟨h.le, h.output, h.iTerm⟩
  | setOutputLimits min max =>
      show (s.setOutputLimits min max).Within
      unfold setOutputLimits
      split
      · exact h
      · rename_i hle
        have hle := not_lt.mp hle
        exact ⟨hle, Or.inr ⟨le_clamp hle _, clamp_le hle _⟩,
          Or.inr ⟨le_clamp hle _, clamp_le hle _⟩⟩
  | setMode automatic =>
      show (s.setMode automatic).Within
      unfold setMode
      split
      · exact ⟨h.restart.le, h.restart.output, h.restart.iTerm⟩
      · exact ⟨h.le, h.output, h.iTerm⟩
  | setSetPoint setpoint => exact ⟨h.le, Or.inl rfl, Or.inl rfl⟩
  | setReversed isReversed => exact ⟨h.le, h.output, h.iTerm⟩

/-- So does any sequence of calls. -/
theorem Within.calls (h : s.Within) (cs : List Call) : (s.calls cs).Within := by
  induction cs generalizing s with
  | nil => exact h
  | cons c cs ih => exact ih (h.call c)

/-- **What a PID does over a run of calls.** Whatever methods are called, the boundaries are in order,
and the output and the integral term are between them unless they are zero. If no input is set to `-1`,
the object does what the law behind it says, and the encoding of the missing last input cannot be told
from outside. -/
theorem follows_law (mem : PID) (kp ki kd setpoint : ℚ) {outMin outMax : ℚ} (h : outMin ≤ outMax)
    (inAuto isReversed : Bool) (cs : List Call) :
    ((new mem kp ki kd setpoint outMin outMax inAuto isReversed).calls cs).Within ∧
    ((∀ c ∈ cs, c.Usual) →
      ((new mem kp ki kd setpoint outMin outMax inAuto isReversed).calls cs).behaviour =
        (new mem kp ki kd setpoint outMin outMax inAuto isReversed).behaviour.calls cs) := by
  refine ⟨(new_within mem kp ki kd setpoint h inAuto isReversed).calls cs, calls_behaviour ?_⟩
  have hzero : (new mem kp ki kd setpoint outMin outMax inAuto isReversed).input = 0 := by
    unfold new setGains
    dsimp only
    split_ifs <;> rfl
  rw [hzero]
  norm_num

/-- Memory filled with zeros. -/
def zero : PID := ⟨0, 0, 0, 0, 0, 0, 0, 0, 0, 0, false, false⟩

/-- A controller that is switched off and on again between its samples. -/
theorem follows_law_witness :
    ((new zero 6 0.6 0.2 0.9 (-1) 1 true true).calls
      [.setInput 0.5, .process, .setMode false, .setInput 1, .process, .setMode true, .process]).Within ∧
    ((new zero 6 0.6 0.2 0.9 (-1) 1 true true).calls
      [.setInput 0.5, .process, .setMode false, .setInput 1, .process, .setMode true,
        .process]).behaviour =
      (new zero 6 0.6 0.2 0.9 (-1) 1 true true).behaviour.calls
        [.setInput 0.5, .process, .setMode false, .setInput 1, .process, .setMode true, .process] := by
  obtain ⟨hwithin, hlaw⟩ := follows_law zero 6 0.6 0.2 0.9 (show (-1 : ℚ) ≤ 1 by norm_num) true true
    [.setInput 0.5, .process, .setMode false, .setInput 1, .process, .setMode true, .process]
  exact ⟨hwithin, hlaw (by decide +kernel)⟩

/-! ## Samples -/

/-- A sample: the input is set and processed. -/
def sample (x : ℚ) (s : PID) : PID := (s.setInput x).process.2

/-- **A sample of an enabled PID** is a step of its law. -/
theorem sample_spec (h : s.inAuto = true) {x : ℚ} (hx : x ≠ -1) :
    (s.sample x).inAuto = true ∧ (s.sample x).law = s.law ∧
      (s.sample x).memory = s.law.next x s.memory ∧ (s.sample x).output = s.law.output x s.memory := by
  have hsample : s.sample x = _ := congrArg Prod.snd (process_of_inAuto (s := s.setInput x) h)
  have hmem := congrArg Behaviour.memory (behaviour_of_lastInput (s := s.sample x) (by
    rw [hsample]
    exact hx))
  have hmem : (s.sample x).memory = _ := hmem
  rw [hmem, hsample]
  exact ⟨h, rfl, rfl, rfl⟩

end PID

end ElasticPPQ
