import ElasticPPQ.Plq.DropRate
import ElasticPPQ.Plq.SlackGuarantee
import ElasticPPQ.Slack.Adaptation

/-! # The control of the dropping probability

The out-of-order emitter together with the PID controller of its slack: the controller sees the
dropping probabilities that the emitter measures, and the emitter punctuates with the slack that the
controller attenuates. If a probability measured is too high for long enough, the emitter is back to the
guarantee of the standard slack (`PlqControlled.slack_recovers`), and if the tuples keep to the slack
then a probability below the target is measured (`PlqControlled.target_met`). -/

namespace ElasticPPQ

variable {N DIM : Nat} {S : Strategy N DIM}

/-- The out-of-order emitter and the controller of its slack. -/
structure PlqControlled where
  emitter : PlqEmitter
  pid : PID

/-- A tuple, with what `processNewTuple` reads from outside but the output of the controller. -/
structure Arrival (S : Strategy N DIM) where
  env : ReceiveEnv S
  /-- Whether the sampling interval of the controller has elapsed. -/
  sampling : Bool
  tuple : Tuple DIM

namespace PlqControlled

/-- The constructor of the emitter with a positive target. -/
def new (mem : PID) (dropTarget : ℚ) : PlqControlled :=
  ⟨PlqEmitter.new true, PID.forSlack mem dropTarget⟩

/-- What the emitter reads, the output of the controller included. -/
def input (x : PlqControlled) (a : Arrival S) : ReceiveEnv S × Tuple DIM :=
  ({ a.env with pid := fun _ => (x.pid.adapt a.sampling x.emitter.dropProb).1 }, a.tuple)

/-- `processNewTuple`, the controller being part of the state. -/
def processNewTuple (paneLength : Nat) (x : PlqControlled) (a : Arrival S) : PlqControlled where
  emitter := (x.emitter.processNewTuple paneLength (x.input a).1 a.tuple).1
  pid := (x.pid.adapt a.sampling x.emitter.dropProb).2

/-- The tuples come one after the other. -/
def processAll (paneLength : Nat) (as : List (Arrival S)) (x : PlqControlled) : PlqControlled :=
  as.foldl (processNewTuple paneLength) x

/-- The dropping probabilities measured at the samples. -/
def measured (paneLength : Nat) : List (Arrival S) → PlqControlled → List ℚ
  | [], _ => []
  | a :: as, x =>
      let rest := measured paneLength as (x.processNewTuple paneLength a)
      if a.sampling then x.emitter.dropProb :: rest else rest

/-- The tuple is dropped. -/
def Drops (paneLength : Nat) (x : PlqControlled) (a : Arrival S) : Prop :=
  x.emitter.Drops paneLength (x.input a)

variable {paneLength : Nat} {x y : PlqControlled}

/-- A stream in two parts. -/
theorem processAll_append (as bs : List (Arrival S)) (x : PlqControlled) :
    x.processAll paneLength (as ++ bs) = (x.processAll paneLength as).processAll paneLength bs :=
  List.foldl_append

/-- What is measured in a stream in two parts. -/
theorem measured_append (as bs : List (Arrival S)) (x : PlqControlled) :
    measured paneLength (as ++ bs) x =
      measured paneLength as x ++ measured paneLength bs (x.processAll paneLength as) := by
  induction as generalizing x with
  | nil => rfl
  | cons a as ih =>
      rw [List.cons_append, measured, measured, ih]
      split <;> rfl

/-! ## One tuple -/

/-- What a tuple does to the emitter with the adaptive slack. -/
structure Adapts (paneLength : Nat) (x : PlqControlled) (a : Arrival S) (y : PlqControlled) :
    Prop where
  adaptive : y.emitter.pidEnabled = true
  /-- A sample updates the attenuation and the controller, and nothing else does. -/
  control : (y.emitter.kslackpid.alpha, y.pid) =
    adaptAll (if a.sampling then [x.emitter.dropProb] else []) (x.emitter.kslackpid.alpha, x.pid)
  k : x.emitter.kslackpid.k ≤ y.emitter.kslackpid.k
  tcurr : y.emitter.kslackpid.tcurr = max x.emitter.kslackpid.tcurr a.tuple.appTs
  lastP : y.emitter.lastP = x.emitter.lastP ∨ y.emitter.lastP = max x.emitter.lastP
    (y.emitter.kslackpid.tcurr - (1 - y.emitter.kslackpid.alpha) * y.emitter.kslackpid.k)
  /-- A new maximum gives a punctuation, delayed by the attenuated slack. -/
  punc : ∀ p, x.emitter.rawPunctuation (x.input a) = some p → y.emitter.kslackpid.tcurr = a.tuple.appTs ∧
    p = y.emitter.kslackpid.tcurr - (1 - y.emitter.kslackpid.alpha) * y.emitter.kslackpid.k
  /-- The counters of the sample, which a sample resets. -/
  dropped : y.emitter.droppedSample =
    (if a.sampling then 0 else x.emitter.droppedSample) +
      if a.tuple.appTs < y.emitter.lastP then 1 else 0
  drops : x.Drops paneLength a ↔ a.tuple.appTs < y.emitter.lastP

/-- What `s'` is after the adaptive slack `s` has taken note of a timestamp, with the raw punctuation
`p`. -/
structure TakesNote (s : KSlackPid) (appTs : ℚ) (s' : KSlackPid) (p : Option ℚ) : Prop where
  k : s.k ≤ s'.k
  tcurr : s'.tcurr = max s.tcurr appTs
  alpha : s'.alpha = s.alpha
  punc : ∀ q, p = some q → s'.tcurr = appTs ∧ q = s'.tcurr - (1 - s'.alpha) * s'.k

/-- The slack mechanism takes note of a tuple in one of the two ways. -/
theorem takesNote (s : KSlackPidPunc) (appTs : ℚ) :
    TakesNote s appTs (KSlackPidPunc.checkStreamProgress appTs s).1
      (KSlackPidPunc.checkStreamProgress appTs s).2 := by
  have hcheck : KSlackPidPunc.checkStreamProgress appTs s =
      ({ s with toKSlack := (s.toKSlack.observe appTs).1 },
        if (s.toKSlack.observe appTs).2 then
          some ((s.toKSlack.observe appTs).1.tcurr - s.delay (s.toKSlack.observe appTs).1.k)
        else none) := rfl
  rw [hcheck]
  -- a tuple that is not the newest is recorded, one that is gives the raw punctuation
  rcases le_or_gt appTs s.tcurr with hle | hlt
  · rw [KSlack.observe_of_le hle]
    exact ⟨le_rfl, (max_eq_left hle).symm, rfl, fun q hq => nomatch hq⟩
  · obtain ⟨k, hk, hgrow⟩ := KSlack.observe_of_lt hlt
    rw [hk]
    refine ⟨hgrow, (max_eq_right hlt.le).symm, rfl, fun q hq => ⟨rfl, ?_⟩⟩
    exact (Option.some.inj hq).symm

/-- A raw punctuation `p` raises the highest one, and nothing else that the controller is about. -/
theorem generate_adaptive (paneLength : Nat) (env : ReceiveEnv S) (p : ℚ) (e : PlqEmitter) :
    (e.generate paneLength env p).1.lastP = max e.lastP p ∧
      (e.generate paneLength env p).1.pidEnabled = e.pidEnabled ∧
      (e.generate paneLength env p).1.kslackpid = e.kslackpid ∧
      (e.generate paneLength env p).1.droppedSample = e.droppedSample ∧
      (e.generate paneLength env p).1.droppedTotal = e.droppedTotal := by
  obtain ⟨hlast, hpid, -, htotal⟩ := PlqEmitter.generate_lastP paneLength env p e
  refine ⟨hlast, hpid, ?_, ?_, htotal⟩
  · unfold PlqEmitter.generate
    cases env.elapsed <;> rfl
  · unfold PlqEmitter.generate
    cases env.elapsed <;> rfl

/-- The slack mechanism, given the answer of the controller. -/
theorem checkStreamProgress_adaptive {e : PlqEmitter} (h : e.pidEnabled = true) (output : Option ℚ)
    (appTs : ℚ) : e.checkStreamProgress (fun _ => output) appTs =
      ({ e.sample output.isSome with
          kslackpid := (KSlackPidPunc.checkStreamProgress appTs (e.kslackpid.adapt output).1).1 },
        (KSlackPidPunc.checkStreamProgress appTs (e.kslackpid.adapt output).1).2) := by
  rw [PlqEmitter.checkStreamProgress, if_pos h]
  cases output <;> rfl

/-- The punctuation mechanism, given the answer of the controller. -/
theorem punctuate_adaptive {e : PlqEmitter} (h : e.pidEnabled = true) {env : ReceiveEnv S}
    {output : Option ℚ} (henv : env.pid = fun _ => output) (appTs : ℚ) {ks : KSlackPid}
    {p : Option ℚ} (hks : KSlackPidPunc.checkStreamProgress appTs (e.kslackpid.adapt output).1 =
      (ks, p)) {e₁ : PlqEmitter} (he₁ : (e.punctuate paneLength env appTs).1 = e₁) :
    e₁.pidEnabled = true ∧ e₁.kslackpid = ks ∧
      e₁.lastP = (p.map fun q => max e.lastP q).getD e.lastP ∧
      e₁.droppedSample = (if output.isSome then 0 else e.droppedSample) ∧
      e₁.droppedTotal = e.droppedTotal := by
  obtain ⟨hpid, -, hlast⟩ := PlqEmitter.sample_fields output.isSome e
  -- a sample that ends resets the count of the dropped tuples
  have hdropped : (e.sample output.isSome).droppedSample =
      (if output.isSome then 0 else e.droppedSample) ∧
      (e.sample output.isSome).droppedTotal = e.droppedTotal := by
    cases output <;> exact ⟨rfl, rfl⟩
  rw [PlqEmitter.punctuate, henv, checkStreamProgress_adaptive h, hks] at he₁
  cases p with
  | none =>
      obtain rfl : { e.sample output.isSome with kslackpid := ks } = e₁ := he₁
      exact ⟨hpid.trans h, rfl, hlast, hdropped.1, hdropped.2⟩
  | some q =>
      obtain ⟨hl, hpe, hkse, hde, hte⟩ :=
        generate_adaptive paneLength env q { e.sample output.isSome with kslackpid := ks }
      have he₁ : (PlqEmitter.generate paneLength env q
        { e.sample output.isSome with kslackpid := ks }).1 = e₁ := he₁
      rw [he₁] at hl hpe hkse hde hte
      refine ⟨hpe.trans (hpid.trans h), hkse, ?_, hde.trans hdropped.1, hte.trans hdropped.2⟩
      rw [hl]
      exact congrArg (max · q) hlast

/-- **One tuple.** -/
theorem adapts (paneLength : Nat) (h : x.emitter.pidEnabled = true) (a : Arrival S) :
    Adapts paneLength x a (x.processNewTuple paneLength a) := by
  obtain ⟨e₁, he₁⟩ : ∃ e₁,
      (x.emitter.receive.punctuate paneLength (x.input a).1 a.tuple.appTs).1 = e₁ := ⟨_, rfl⟩
  obtain ⟨ks, hks⟩ : ∃ ks, ks = (x.emitter.kslackpid.adapt
    (x.pid.adapt a.sampling x.emitter.dropProb).1).1 := ⟨_, rfl⟩
  obtain ⟨⟨ks', p⟩, hcheck⟩ : ∃ r, KSlackPidPunc.checkStreamProgress a.tuple.appTs ks = r := ⟨_, rfl⟩
  have hnote := takesNote ks a.tuple.appTs
  have hslack : ks.toKSlack = x.emitter.kslackpid.toKSlack := by
    rw [hks, KSlackPid.adapt_toKSlack]
  have hraw : x.emitter.rawPunctuation (x.input a) = p := by
    rw [PlqEmitter.rawPunctuation]
    show (x.emitter.receive.checkStreamProgress
      (fun _ => (x.pid.adapt a.sampling x.emitter.dropProb).1) a.tuple.appTs).2 = p
    rw [checkStreamProgress_adaptive (e := x.emitter.receive) h]
    show (KSlackPidPunc.checkStreamProgress a.tuple.appTs (x.emitter.kslackpid.adapt _).1).2 = p
    rw [← hks, hcheck]
  rw [hcheck] at hnote
  have hadapted : KSlackPidPunc.checkStreamProgress a.tuple.appTs (x.emitter.receive.kslackpid.adapt
      (x.pid.adapt a.sampling x.emitter.dropProb).1).1 = (ks', p) := by
    rw [← hcheck, hks]
    rfl
  obtain ⟨hpid, hkse, hlast, hds, hdt⟩ :=
    punctuate_adaptive (e := x.emitter.receive) h rfl a.tuple.appTs hadapted he₁
  have hlast : e₁.lastP = (p.map fun q => max x.emitter.lastP q).getD x.emitter.lastP := hlast
  obtain ⟨hk, htcurr, halpha, hpunc⟩ := hnote
  dsimp only at hk htcurr halpha hpunc
  rw [hslack] at hk htcurr
  rw [← hkse] at hk htcurr halpha hpunc
  -- the punctuation is the old one, or the newest timestamp minus the attenuated slack
  have hlast' : e₁.lastP = x.emitter.lastP ∨ e₁.lastP = max x.emitter.lastP
      (e₁.kslackpid.tcurr - (1 - e₁.kslackpid.alpha) * e₁.kslackpid.k) := by
    cases p with
    | none => exact Or.inl hlast
    | some q =>
        rw [← (hpunc q rfl).2]
        exact Or.inr hlast
  -- then the tuple itself is dropped where it is below the punctuation
  have hfinal : (x.processNewTuple paneLength a).emitter =
      if a.tuple.appTs < e₁.lastP then
        { e₁ with droppedSample := e₁.droppedSample + 1, droppedTotal := e₁.droppedTotal + 1 }
      else e₁ := by
    show (x.emitter.processNewTuple paneLength (x.input a).1 a.tuple).1 = _
    unfold PlqEmitter.processNewTuple
    dsimp only
    rw [he₁]
    split <;> rfl
  have hsome : (x.pid.adapt a.sampling x.emitter.dropProb).1.isSome = a.sampling := by
    unfold PID.adapt
    cases a.sampling <;> rfl
  rw [hsome] at hds
  -- the PID samples where the interval has elapsed, and sets the slack factor
  have hctrl : (ks.alpha, (x.pid.adapt a.sampling x.emitter.dropProb).2) =
      adaptAll (if a.sampling then [x.emitter.dropProb] else [])
        (x.emitter.kslackpid.alpha, x.pid) := by
    rw [hks]
    unfold PID.adapt
    cases a.sampling <;> rfl
  rw [← halpha] at hctrl
  rw [← hraw] at hpunc
  have hdrops : x.Drops paneLength a ↔
      (x.processNewTuple paneLength a).emitter.droppedTotal = x.emitter.droppedTotal + 1 := Iff.rfl
  have hdt : e₁.droppedTotal = x.emitter.droppedTotal := hdt
  by_cases hlt : a.tuple.appTs < e₁.lastP
  · rw [if_pos hlt] at hfinal
    rw [hfinal] at hdrops
    refine ⟨?_, ?_, ?_, ?_, ?_, ?_, ?_, ?_⟩ <;> rw [hfinal]
    · exact hpid
    · exact hctrl
    · exact hk
    · exact htcurr
    · exact hlast'
    · exact hpunc
    · show e₁.droppedSample + 1 = _ + if _ then 1 else 0
      rw [if_pos hlt, hds]
      rfl
    · exact ⟨fun _ => hlt, fun _ => hdrops.mpr (congrArg (· + 1) hdt)⟩
  · rw [if_neg hlt] at hfinal
    rw [hfinal] at hdrops
    refine ⟨?_, ?_, ?_, ?_, ?_, ?_, ?_, ?_⟩ <;> rw [hfinal]
    · exact hpid
    · exact hctrl
    · exact hk
    · exact htcurr
    · exact hlast'
    · exact hpunc
    · rw [if_neg hlt, hds]
      rfl
    · refine ⟨fun hd => ?_, fun hd => absurd hd hlt⟩
      have hd := hdrops.mp hd
      rw [hdt] at hd
      exact absurd hd (Nat.succ_ne_self _).symm

/-! ## A run -/

/-- The controller steers a sound emitter that does not drop more tuples than it has received. -/
structure Inv (dropTarget : ℚ) (x : PlqControlled) : Prop where
  adaptive : x.emitter.pidEnabled = true
  steers : Steers dropTarget x.pid
  alpha : 0 ≤ x.emitter.kslackpid.alpha ∧ x.emitter.kslackpid.alpha ≤ 1
  counters : x.emitter.droppedSample ≤ x.emitter.rcvSample + 1

/-- The emitter and its controller as constructed. -/
theorem new_inv (mem : PID) (dropTarget : ℚ) : (new mem dropTarget).Inv dropTarget :=
  ⟨rfl, forSlack_steers mem dropTarget, ⟨le_rfl, zero_le_one⟩, Nat.zero_le _⟩

/-- What is measured is a probability. -/
theorem Inv.dropProb {dropTarget : ℚ} (h : x.Inv dropTarget) :
    0 ≤ x.emitter.dropProb ∧ x.emitter.dropProb ≤ 1 := by
  have hprob := isProbability_iff.mpr h.counters
  exact ⟨hprob.nonneg, hprob.le_one⟩

/-- The samples keep the attenuation between zero and one. -/
theorem adaptAll_alpha (ds : List ℚ) {alpha : ℚ} (ha : 0 ≤ alpha ∧ alpha ≤ 1) (pid : PID) :
    0 ≤ (adaptAll ds (alpha, pid)).1 ∧ (adaptAll ds (alpha, pid)).1 ≤ 1 := by
  induction ds generalizing alpha pid with
  | nil => exact ha
  | cons d ds ih => exact ih (attenuate_bounds _ _) _

/-- **One tuple** keeps the invariant. -/
theorem Inv.processNewTuple {dropTarget : ℚ} (h : x.Inv dropTarget) (paneLength : Nat)
    (a : Arrival S) :
    (x.processNewTuple paneLength a).Inv dropTarget := by
  have ha := adapts paneLength h.adaptive a
  -- what is sampled is a probability, by the invariant of the counters
  have hds : AreProbabilities (if a.sampling then [x.emitter.dropProb] else []) := by
    intro d hd
    split at hd
    · rw [List.mem_singleton.mp hd]
      exact h.dropProb
    · exact absurd hd List.not_mem_nil
  have hpid := congrArg Prod.snd ha.control
  have halpha := congrArg Prod.fst ha.control
  refine ⟨ha.adaptive, ?_, ?_, ?_⟩
  · rw [show (x.processNewTuple paneLength a).pid = _ from hpid]
    exact (h.steers.adaptAll_eq hds _).1
  · rw [show (x.processNewTuple paneLength a).emitter.kslackpid.alpha = _ from halpha]
    exact adaptAll_alpha _ h.alpha _
  · exact PlqEmitter.processNewTuple_counters paneLength (x.input a).1 a.tuple h.counters

/-- A stream keeps the invariant. -/
theorem Inv.processAll {dropTarget : ℚ} (h : x.Inv dropTarget) (paneLength : Nat)
    (as : List (Arrival S)) :
    (x.processAll paneLength as).Inv dropTarget := by
  induction as generalizing x with
  | nil => exact h
  | cons a as ih => exact ih (h.processNewTuple paneLength a)

/-- The attenuation and the controller after a run are those after the samples measured in it, which
are probabilities. -/
theorem Inv.control {dropTarget : ℚ} (h : x.Inv dropTarget) (paneLength : Nat)
    (as : List (Arrival S)) :
    AreProbabilities (measured paneLength as x) ∧
      (((x.processAll paneLength as).emitter.kslackpid.alpha, (x.processAll paneLength as).pid) =
        adaptAll (measured paneLength as x) (x.emitter.kslackpid.alpha, x.pid)) := by
  induction as generalizing x with
  | nil => exact ⟨fun d hd => absurd hd List.not_mem_nil, rfl⟩
  | cons a as ih =>
      obtain ⟨hprob, hctrl⟩ := ih (h.processNewTuple paneLength a)
      have ha := (adapts paneLength h.adaptive a).control
      rw [measured]
      show _ ∧ (((x.processNewTuple paneLength a).processAll paneLength as).emitter.kslackpid.alpha,
        ((x.processNewTuple paneLength a).processAll paneLength as).pid) = _
      rw [hctrl, ha]
      -- only an arrival that ends a sampling interval measures something
      cases hs : a.sampling with
      | true =>
          refine ⟨fun d hd => ?_, rfl⟩
          rcases List.mem_cons.mp hd with rfl | hd
          · exact h.dropProb
          · exact hprob d hd
      | false => exact ⟨hprob, rfl⟩

/-- **Lasting deviations** of the probabilities measured take the attenuation to a boundary. -/
theorem Inv.alpha_extreme {dropTarget : ℚ} (h : x.Inv dropTarget) {ε : ℚ} (hε : 0 < ε)
    (paneLength : Nat) {as : List (Arrival S)} (hn : Enough ε (measured paneLength as x).length) :
    ((∀ d ∈ measured paneLength as x, dropTarget + ε ≤ d) →
      (x.processAll paneLength as).emitter.kslackpid.alpha = 0) ∧
    ((∀ d ∈ measured paneLength as x, d ≤ dropTarget - ε) →
      (x.processAll paneLength as).emitter.kslackpid.alpha = 1) := by
  obtain ⟨hprob, hctrl⟩ := h.control paneLength as
  have halpha := congrArg Prod.fst hctrl
  have halpha : (x.processAll paneLength as).emitter.kslackpid.alpha = _ := halpha
  rw [halpha]
  exact ⟨fun hhigh => h.steers.alpha_eq_zero hε hprob hhigh hn h.alpha,
    fun hlow => h.steers.alpha_eq_one hε hprob hlow hn h.alpha⟩

/-! ## While too many tuples are dropped -/

/-- From a point `x` of the run on, the slack does not shrink, and the highest punctuation is the one of
that point or is delayed by the slack of that point at least. -/
structure Since (x y : PlqControlled) : Prop where
  k : x.emitter.kslackpid.k ≤ y.emitter.kslackpid.k
  lastP : y.emitter.lastP ≤ x.emitter.lastP ∨
    y.emitter.lastP ≤ y.emitter.kslackpid.tcurr - x.emitter.kslackpid.k

/-- Nothing has come since. -/
theorem Since.refl (x : PlqControlled) : Since x x := ⟨le_rfl, Or.inl le_rfl⟩

/-- One more tuple, after which the slack is not attenuated. -/
theorem Since.adapts (h : Since x y) {a : Arrival S} {z : PlqControlled}
    (ha : Adapts paneLength y a z) (hzero : z.emitter.kslackpid.alpha = 0) : Since x z := by
  have hk := h.k.trans ha.k
  have htcurr : y.emitter.kslackpid.tcurr ≤ z.emitter.kslackpid.tcurr := by
    rw [ha.tcurr]
    exact le_max_left _ _
  have hold : y.emitter.lastP ≤ x.emitter.lastP ∨
      y.emitter.lastP ≤ z.emitter.kslackpid.tcurr - x.emitter.kslackpid.k := by
    rcases h.lastP with hle | hle
    · exact Or.inl hle
    · exact Or.inr (hle.trans (by linarith))
  refine ⟨hk, ?_⟩
  -- the punctuation stays, or the slack is zero and it is the full delay behind
  rcases ha.lastP with hsame | hmax
  · rw [hsame]
    exact hold
  · rw [hzero, sub_zero, one_mul] at hmax
    have hdelay : z.emitter.kslackpid.tcurr - z.emitter.kslackpid.k ≤
        z.emitter.kslackpid.tcurr - x.emitter.kslackpid.k := by linarith
    rw [hmax]
    rcases hold with hle | hle
    · rcases le_total y.emitter.lastP
        (z.emitter.kslackpid.tcurr - z.emitter.kslackpid.k) with hcmp | hcmp
      · rw [max_eq_right hcmp]
        exact Or.inr hdelay
      · rw [max_eq_left hcmp]
        exact Or.inl hle
    · exact Or.inr (max_le hle hdelay)

/-- A run in which the slack is never attenuated. -/
theorem Inv.since {dropTarget : ℚ} (h : x.Inv dropTarget) {as : List (Arrival S)}
    (hzero : ∀ bs a, bs ++ [a] <+: as →
      (x.processAll paneLength (bs ++ [a])).emitter.kslackpid.alpha = 0) :
    Since x (x.processAll paneLength as) := by
  induction as using List.reverseRecOn with
  | nil => exact Since.refl x
  | append_singleton as a ih =>
      have hlast := hzero as a (List.prefix_refl _)
      have hsince := ih fun bs b hb => hzero bs b (hb.trans (List.prefix_append _ _))
      rw [processAll_append] at hlast ⊢
      exact hsince.adapts (adapts paneLength (h.processAll paneLength as).adaptive a) hlast

/-- The current maximum is not beyond what bounds the timestamps. -/
theorem Inv.tcurr_le {dropTarget : ℚ} (h : x.Inv dropTarget) (paneLength : Nat)
    {as : List (Arrival S)} {m : ℚ}
    (hx : x.emitter.kslackpid.tcurr ≤ m) (has : ∀ a ∈ as, a.tuple.appTs ≤ m) :
    (x.processAll paneLength as).emitter.kslackpid.tcurr ≤ m := by
  induction as generalizing x with
  | nil => exact hx
  | cons a as ih =>
      have ha := adapts paneLength h.adaptive a
      refine ih (h.processNewTuple paneLength a) ?_ fun b hb => has b (List.mem_cons_of_mem _ hb)
      rw [ha.tcurr]
      exact max_le hx (has a List.mem_cons_self)

/-- Too many tuples are dropped from `x` on, for long enough before `as'`. -/
structure TooMany (dropTarget ε : ℚ) (paneLength : Nat) (x : PlqControlled)
    (as as' : List (Arrival S)) : Prop where
  high : ∀ d ∈ measured paneLength (as ++ as') x, dropTarget + ε ≤ d
  enough : Enough ε (measured paneLength as x).length

/-- More samples are enough as well. -/
theorem Enough.mono {ε : ℚ} (hε : 0 < ε) {n k : Nat} (h : Enough ε n) (hnk : n ≤ k) :
    Enough ε k := by
  have hcast : (n : ℚ) ≤ k := Nat.cast_le.mpr hnk
  have hgrow : ((n : ℚ) - 2) * (0.6 * ε) ≤ ((k : ℚ) - 2) * (0.6 * ε) :=
    mul_le_mul_of_nonneg_right (by linarith) (by linarith)
  exact le_trans h hgrow

/-- While it lasts, the slack is not attenuated. -/
theorem TooMany.alpha {dropTarget ε : ℚ} (hε : 0 < ε) (h : x.Inv dropTarget)
    {as as' : List (Arrival S)} (hmany : TooMany dropTarget ε paneLength x as as')
    {bs : List (Arrival S)} (hbs : bs <+: as') :
    (x.processAll paneLength (as ++ bs)).emitter.kslackpid.alpha = 0 := by
  obtain ⟨cs, rfl⟩ := hbs
  refine (h.alpha_extreme hε paneLength ?_).1 fun d hd => hmany.high d ?_
  · rw [measured_append, List.length_append]
    exact Enough.mono hε hmany.enough (Nat.le_add_right _ _)
  · rw [← List.append_assoc, measured_append]
    exact List.mem_append_left _ hd

/-- While it lasts, a tuple that is not older than the highest punctuation at its beginning and not
later than the slack is not dropped. -/
theorem TooMany.not_drops {dropTarget ε : ℚ} (hε : 0 < ε) (h : x.Inv dropTarget)
    {as as' : List (Arrival S)} {a : Arrival S}
    (hmany : TooMany dropTarget ε paneLength x as (as' ++ [a])) {m : ℚ}
    (hx : x.emitter.kslackpid.tcurr ≤ m) (hm : ∀ b ∈ as ++ as' ++ [a], b.tuple.appTs ≤ m)
    (hdelay : m - a.tuple.appTs ≤ (x.processAll paneLength as).emitter.kslackpid.k)
    (hold : (x.processAll paneLength as).emitter.lastP ≤ a.tuple.appTs) :
    ¬ (x.processAll paneLength (as ++ as')).Drops paneLength a := by
  have hinv := h.processAll paneLength as
  -- with the slack at zero, punctuations stay the whole delay behind the newest tuple
  have hsince : Since (x.processAll paneLength as)
      ((x.processAll paneLength as).processAll paneLength (as' ++ [a])) := by
    refine hinv.since fun bs b hb => ?_
    rw [← processAll_append]
    exact hmany.alpha hε h hb
  have htcurr := h.tcurr_le paneLength hx hm
  have ha := adapts paneLength (h.processAll paneLength (as ++ as')).adaptive a
  rw [← processAll_append, ← List.append_assoc, processAll_append] at hsince
  rw [processAll_append] at htcurr
  intro hd
  have hlt := ha.drops.mp hd
  -- the tuple would be below the old punctuation, or more than the delay late
  rcases hsince.lastP with hle | hle
  · exact absurd (hlt.trans_le hle) (not_lt.mpr hold)
  · have hlt' := hlt.trans_le hle
    have htcurr' : ((x.processAll paneLength (as ++ as')).processAll paneLength
      [a]).emitter.kslackpid.tcurr ≤ m := htcurr
    linarith

/-- The slack does not shrink. -/
theorem Inv.k_le {dropTarget : ℚ} (h : x.Inv dropTarget) (paneLength : Nat)
    (as : List (Arrival S)) :
    x.emitter.kslackpid.k ≤ (x.processAll paneLength as).emitter.kslackpid.k := by
  induction as generalizing x with
  | nil => exact le_rfl
  | cons a as ih =>
      exact (adapts paneLength h.adaptive a).k.trans (ih (h.processNewTuple paneLength a))

/-- As long as too many are dropped, a tuple is dropped only if it is older than the highest punctuation
of that time, or its delay is greater than the slack of that time. -/
theorem within_or_late (mem : PID) (dropTarget : ℚ) {ε : ℚ} (hε : 0 < ε) (paneLength : Nat)
    (xs as as' : List (Arrival S)) (a : Arrival S) (hts : 0 ≤ a.tuple.appTs)
    (hmany : TooMany dropTarget ε paneLength ((new mem dropTarget).processAll paneLength xs) as
      (as' ++ [a]))
    (hd : ((new mem dropTarget).processAll paneLength (xs ++ as ++ as')).Drops paneLength a) :
    a.tuple.appTs < ((new mem dropTarget).processAll paneLength (xs ++ as)).emitter.lastP ∨
      ∃ b ∈ xs ++ as ++ as',
        ((new mem dropTarget).processAll paneLength (xs ++ as)).emitter.kslackpid.k <
          b.tuple.appTs - a.tuple.appTs := by
  have hinv := (new_inv mem dropTarget).processAll paneLength xs
  have hall := (new_inv mem dropTarget).processAll paneLength (xs ++ as)
  obtain ⟨k, hk⟩ : ∃ k, ((new mem dropTarget).processAll paneLength
    (xs ++ as)).emitter.kslackpid.k = k := ⟨_, rfl⟩
  have hnonneg : 0 ≤ k := hk ▸ (new_inv mem dropTarget).k_le paneLength (xs ++ as)
  rw [hk]
  by_contra hnot
  obtain ⟨hold, hnear⟩ := not_or.mp hnot
  have hnear : ∀ b ∈ xs ++ as ++ as' ++ [a], b.tuple.appTs ≤ a.tuple.appTs + k := by
    intro b hb
    rcases List.mem_append.mp hb with hb | hb
    · have hle := not_lt.mp fun hlt => hnear ⟨b, hb, hlt⟩
      linarith
    · rw [List.mem_singleton.mp hb]
      linarith
  -- everything up to the tuple is bounded by its timestamp and the slack
  have htcurr : ((new mem dropTarget).processAll paneLength xs).emitter.kslackpid.tcurr ≤
      a.tuple.appTs + k := by
    have hpos : 0 ≤ a.tuple.appTs + k := by linarith
    exact (new_inv mem dropTarget).tcurr_le paneLength hpos fun b hb => hnear b (by simp [hb])
  rw [List.append_assoc xs, processAll_append xs] at hd
  rw [processAll_append] at hk hold
  refine hmany.not_drops hε hinv htcurr (fun b hb => hnear b ?_) ?_ (not_lt.mp hold) hd
  · simp only [List.append_assoc, List.mem_append] at hb ⊢
    exact Or.inr hb
  · rw [hk]
    linarith

/-- **The controller takes the slack to its extremes.** A run of the emitter with its controller; from
some point on enough samples are taken for a deviation by `ε`, however the controller and the slack have
got to that point. As long as all the probabilities measured are above the target by `ε` at least, a
tuple is dropped only if it is older than the highest punctuation after these samples, or its delay is
greater than the slack after them. As long as all are below by `ε` at least, every raw punctuation is
the timestamp at hand, without any slack. -/
theorem slack_recovers (mem : PID) (dropTarget : ℚ) {ε : ℚ} (hε : 0 < ε) (paneLength : Nat)
    (xs as as' : List (Arrival S)) (a : Arrival S) (hts : 0 ≤ a.tuple.appTs)
    (hn : Enough ε (measured paneLength as ((new mem dropTarget).processAll paneLength xs)).length) :
    ((∀ d ∈ measured paneLength (as ++ (as' ++ [a])) ((new mem dropTarget).processAll paneLength xs),
        dropTarget + ε ≤ d) →
      ((new mem dropTarget).processAll paneLength (xs ++ as ++ as')).Drops paneLength a →
      a.tuple.appTs < ((new mem dropTarget).processAll paneLength (xs ++ as)).emitter.lastP ∨
        ∃ b ∈ xs ++ as ++ as',
          ((new mem dropTarget).processAll paneLength (xs ++ as)).emitter.kslackpid.k <
            b.tuple.appTs - a.tuple.appTs) ∧
    ((∀ d ∈ measured paneLength (as ++ (as' ++ [a])) ((new mem dropTarget).processAll paneLength xs),
        d ≤ dropTarget - ε) →
      ∀ p, ((new mem dropTarget).processAll paneLength (xs ++ as ++ as')).emitter.rawPunctuation
          (((new mem dropTarget).processAll paneLength (xs ++ as ++ as')).input a) = some p →
        p = a.tuple.appTs) := by
  constructor
  · exact fun hhigh => within_or_late mem dropTarget hε paneLength xs as as' a hts ⟨hhigh, hn⟩
  -- with the slack factor at 1 the delay is zero, so the punctuation is the tuple's own time
  · intro hlow p hp
    have hinv := (new_inv mem dropTarget).processAll paneLength xs
    have hall := (new_inv mem dropTarget).processAll paneLength (xs ++ as ++ as')
    have ha := adapts paneLength hall.adaptive a
    have hone : (((new mem dropTarget).processAll paneLength (xs ++ as ++ as')).processNewTuple
        paneLength a).emitter.kslackpid.alpha = 1 := by
      have hext := (hinv.alpha_extreme hε paneLength (by
        rw [measured_append, List.length_append]
        exact Enough.mono hε hn (Nat.le_add_right _ _))).2 hlow
      rw [← processAll_append, ← List.append_assoc, ← List.append_assoc, processAll_append] at hext
      exact hext
    obtain ⟨htcurr, hp⟩ := ha.punc p hp
    rw [hp, hone, htcurr, sub_self, zero_mul, sub_zero]

/-- A tuple with a timestamp only, at the end of a sampling interval or not. -/
def arrival (ts : ℚ) (sampling : Bool) : Arrival (PbRrSched.strategy 1 1) :=
  ⟨⟨fun _ => none, true, (), ()⟩, sampling, stampedTuple ts⟩

/-- Behind the timestamp 100 only tuples that are late come in, a sample ending with each. -/
theorem slack_recovers_witness :
    (arrival 5 false).tuple.appTs < ((new PID.zero 0.1).processAll 1
        ([arrival 100 false, arrival 5 true] ++ List.replicate 9 (arrival 5 true))).emitter.lastP ∨
      ∃ b ∈ [arrival 100 false, arrival 5 true] ++ List.replicate 9 (arrival 5 true) ++ [],
        ((new PID.zero 0.1).processAll 1 ([arrival 100 false, arrival 5 true] ++
          List.replicate 9 (arrival 5 true))).emitter.kslackpid.k <
          b.tuple.appTs - (arrival 5 false).tuple.appTs :=
  (slack_recovers PID.zero 0.1 (ε := 0.5) (by norm_num) 1 [arrival 100 false, arrival 5 true]
    (List.replicate 9 (arrival 5 true)) [] (arrival 5 false) (by decide +kernel)
    (show _ ≤ (_ : ℚ) by decide +kernel)).1 (by decide +kernel)
    (show _ = (_ : Nat) by decide +kernel)

/-- No tuple of a run is dropped. -/
def NoDrops (paneLength : Nat) (x : PlqControlled) (as : List (Arrival S)) : Prop :=
  ∀ bs b, bs ++ [b] <+: as → ¬ (x.processAll paneLength bs).Drops paneLength b

/-- The first tuple is not dropped, and none of the rest is. -/
theorem NoDrops.cons {a : Arrival S} {as : List (Arrival S)} (h : NoDrops paneLength x (a :: as)) :
    ¬ x.Drops paneLength a ∧ NoDrops paneLength (x.processNewTuple paneLength a) as :=
  ⟨h [] a (by simp), fun bs b hb => h (a :: bs) b (by simpa using hb)⟩

/-- If none has been dropped in the sample either, no probability but zero is measured. -/
theorem NoDrops.measured_eq_zero {dropTarget : ℚ} (hx : x.Inv dropTarget)
    (hzero : x.emitter.droppedSample = 0) {as : List (Arrival S)} (h : NoDrops paneLength x as) :
    ∀ d ∈ measured paneLength as x, d = 0 := by
  induction as generalizing x with
  | nil => exact fun d hd => absurd hd List.not_mem_nil
  | cons a as ih =>
      obtain ⟨hdrop, hrest⟩ := h.cons
      have ha := adapts paneLength hx.adaptive a
      have hnext := ha.dropped
      -- nothing is dropped, so the counter stays zero from sample to sample
      rw [if_neg fun hlt => hdrop (ha.drops.mpr hlt), hzero, ite_self] at hnext
      have htail := ih (hx.processNewTuple paneLength a) hnext hrest
      intro d hd
      rw [measured] at hd
      have hhead : x.emitter.dropProb = 0 := by
        show (x.emitter.droppedSample : ℚ) / _ = 0
        rw [hzero, Nat.cast_zero, zero_div]
      cases hs : a.sampling with
      | true =>
          rw [if_pos hs] at hd
          rcases List.mem_cons.mp hd with rfl | hd
          · exact hhead
          · exact htail d hd
      | false =>
          rw [if_neg (by rw [hs]; exact Bool.false_ne_true)] at hd
          exact htail d hd

/-- The first sample may have drops from before; no later one has any. -/
theorem NoDrops.measured_tail {dropTarget : ℚ} (hx : x.Inv dropTarget) {as : List (Arrival S)}
    (h : NoDrops paneLength x as) : ∀ d ∈ (measured paneLength as x).tail, d = 0 := by
  induction as generalizing x with
  | nil => exact fun d hd => absurd hd List.not_mem_nil
  | cons a as ih =>
      obtain ⟨hdrop, hrest⟩ := h.cons
      have ha := adapts paneLength hx.adaptive a
      rw [measured]
      cases hs : a.sampling with
      | true =>
          have hnext := ha.dropped
          rw [if_neg fun hlt => hdrop (ha.drops.mpr hlt), if_pos hs] at hnext
          exact hrest.measured_eq_zero (hx.processNewTuple paneLength a) hnext
      | false => exact ih (hx.processNewTuple paneLength a) hrest

/-- The tuples of a part of a run, after the ones before it, keep to a punctuation and a slack. -/
def KeepTo (lastP k : ℚ) : List (Arrival S) → List (Arrival S) → Prop
  | _, [] => True
  | before, b :: as =>
      (0 ≤ b.tuple.appTs ∧ lastP ≤ b.tuple.appTs ∧
        ∀ c ∈ before, c.tuple.appTs - b.tuple.appTs ≤ k) ∧
      KeepTo lastP k (before ++ [b]) as

instance decidableKeepTo (lastP k : ℚ) :
    (before as : List (Arrival S)) → Decidable (KeepTo lastP k before as)
  | _, [] => isTrue trivial
  | before, b :: as =>
      have := decidableKeepTo lastP k (before ++ [b]) as
      inferInstanceAs (Decidable (_ ∧ _))

/-- The bound on the disorder, for one tuple of the stream. -/
theorem KeepTo.at_split {lastP k : ℚ} {before as bs : List (Arrival S)} {b : Arrival S}
    (h : KeepTo lastP k before as) (hb : bs ++ [b] <+: as) :
    0 ≤ b.tuple.appTs ∧ lastP ≤ b.tuple.appTs ∧
      ∀ c ∈ before ++ bs, c.tuple.appTs - b.tuple.appTs ≤ k := by
  induction as generalizing before bs with
  | nil => simp at hb
  | cons a as ih =>
      obtain ⟨ha, hrest⟩ := h
      -- the tuple asked for is the first one, or comes after it
      cases bs with
      | nil =>
          obtain ⟨rfl, -⟩ := List.cons_prefix_cons.mp hb
          rw [List.append_nil]
          exact ha
      | cons b' bs =>
          obtain ⟨rfl, htail⟩ := List.cons_prefix_cons.mp hb
          have hb' := ih hrest htail
          rw [List.append_assoc] at hb'
          exact hb'

/-- **The target is met.** A run of the emitter with its controller, in any state: enough samples are
taken for a deviation by `ε`, and two more after them. If the tuples of the last part are not older than
the highest punctuation at its beginning and not later than the slack at its beginning, then some
probability measured is less than the target and `ε`. -/
theorem target_met (mem : PID) {dropTarget : ℚ} (htarget : 0 ≤ dropTarget) {ε : ℚ} (hε : 0 < ε)
    (paneLength : Nat) (xs as as' : List (Arrival S))
    (hn : Enough ε (measured paneLength as ((new mem dropTarget).processAll paneLength xs)).length)
    (htwo : 2 ≤ (measured paneLength as'
      ((new mem dropTarget).processAll paneLength (xs ++ as))).length)
    (hkeep : KeepTo ((new mem dropTarget).processAll paneLength (xs ++ as)).emitter.lastP
      ((new mem dropTarget).processAll paneLength (xs ++ as)).emitter.kslackpid.k (xs ++ as) as') :
    ∃ d ∈ measured paneLength (as ++ as') ((new mem dropTarget).processAll paneLength xs),
      d < dropTarget + ε := by
  by_contra hnone
  have hhigh : ∀ d ∈ measured paneLength (as ++ as')
      ((new mem dropTarget).processAll paneLength xs), dropTarget + ε ≤ d :=
    fun d hd => not_lt.mp fun hlt => hnone ⟨d, hd, hlt⟩
  have hinv := (new_inv mem dropTarget).processAll paneLength (xs ++ as)
  -- as long as too many are dropped, none of the last part is
  have hdrops : NoDrops paneLength ((new mem dropTarget).processAll paneLength (xs ++ as)) as' := by
    intro bs b hb hd
    obtain ⟨hts, hlast, hdelay⟩ := hkeep.at_split hb
    rw [← processAll_append] at hd
    have hmany : TooMany dropTarget ε paneLength ((new mem dropTarget).processAll paneLength xs) as
        (bs ++ [b]) := by
      refine ⟨fun d hd => hhigh d ?_, hn⟩
      obtain ⟨cs, rfl⟩ := hb
      rw [← List.append_assoc, measured_append]
      exact List.mem_append_left _ hd
    rcases within_or_late mem dropTarget hε paneLength xs as bs b hts hmany hd with hold | ⟨c, hc, hlate⟩
    · exact absurd hold (not_lt.mpr hlast)
    · exact absurd hlate (not_lt.mpr (hdelay c hc))
  -- so the second sample of it measures zero
  have htail := hdrops.measured_tail hinv
  rw [measured_append, ← processAll_append] at hhigh
  cases hms : measured paneLength as' ((new mem dropTarget).processAll paneLength (xs ++ as)) with
  | nil =>
      rw [hms] at htwo
      exact absurd htwo (by decide)
  | cons d ds =>
      cases ds with
      | nil =>
          rw [hms] at htwo
          exact absurd htwo (show ¬ 2 ≤ 1 by decide)
      | cons d' ds =>
          rw [hms] at htail hhigh
          have hzero : d' = 0 := htail d' (by simp)
          have hle := hhigh d' (by simp)
          linarith

/-- After the tuples that are late, two come in that are new maxima. -/
theorem target_met_witness :
    ∃ d ∈ measured 1 (List.replicate 9 (arrival 5 true) ++ [arrival 110 true, arrival 120 true])
      ((new PID.zero 0.1).processAll 1 [arrival 100 false, arrival 5 true]), d < 0.1 + 0.5 :=
  target_met PID.zero (by norm_num) (by norm_num) 1 [arrival 100 false, arrival 5 true]
    (List.replicate 9 (arrival 5 true)) [arrival 110 true, arrival 120 true]
    (show _ ≤ (_ : ℚ) by decide +kernel) (by decide +kernel) (by decide +kernel)

end PlqControlled

end ElasticPPQ
