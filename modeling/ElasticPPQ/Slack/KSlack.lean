import Mathlib.Algebra.Order.Ring.Rat
import Mathlib.Tactic.Linarith

/-! # K-slack: how late tuples may be

The mechanism that the four classes of `kslack.hpp` share: the highest timestamp seen so far, and the
slack `K`, which is the largest delay behind it that has been measured. The classes that produce
punctuations come here too; the ones that reorder the tuples in a buffer build on the same state. In
the adaptive versions a PID controller attenuates the slack; its output may be any number. -/

namespace ElasticPPQ

/-- The fields of every K-slack algorithm. -/
structure KSlack where
  /-- Parameter of the slack, in the unit of the application timestamps. -/
  k : ℚ
  /-- Highest application timestamp of the tuples seen so far. -/
  tcurr : ℚ
  /-- Application timestamps of the last tuples. -/
  tsVect : List ℚ

namespace KSlack

/-- The constructors. -/
def new : KSlack := ⟨0, 0, []⟩

/-- The loop that finds the maximum delay behind `tcurr`. -/
def maxDelay (tcurr : ℚ) : List ℚ → ℚ → ℚ
  | [], maxD => maxD
  | ts :: tss, maxD => maxDelay tcurr tss (if maxD < tcurr - ts then tcurr - ts else maxD)

/-- The update with the timestamp of a new tuple. The result tells whether it is a new maximum. -/
def observe (appTs : ℚ) (s : KSlack) : KSlack × Bool :=
  let s := { s with tsVect := s.tsVect ++ [appTs] }
  if appTs ≤ s.tcurr then (s, false)
  else
    -- the maximum over the tuples since the last one, this one included
    let maxD := maxDelay appTs s.tsVect 0
    ({ k := if s.k < maxD then maxD else s.k, tcurr := appTs, tsVect := [] }, true)

/-- The slack lies between zero and the highest timestamp, and all timestamps are known to be
nonnegative. -/
structure Inv (s : KSlack) : Prop where
  nonneg : 0 ≤ s.k
  le : s.k ≤ s.tcurr
  tsVect : ∀ ts ∈ s.tsVect, 0 ≤ ts

/-- K-slack as constructed. -/
theorem new_inv : new.Inv := ⟨le_rfl, le_rfl, fun _ h => absurd h List.not_mem_nil⟩

/-- The maximum delay is between the initial value and the distance from zero. -/
theorem maxDelay_bounds {tcurr : ℚ} {tss : List ℚ} (h : ∀ ts ∈ tss, 0 ≤ ts) {maxD : ℚ}
    (hmax : maxD ≤ tcurr) : maxD ≤ maxDelay tcurr tss maxD ∧ maxDelay tcurr tss maxD ≤ tcurr := by
  induction tss generalizing maxD with
  | nil => exact ⟨le_rfl, hmax⟩
  | cons ts tss ih =>
      have hts := h ts List.mem_cons_self
      have hrest := fun u hu => h u (List.mem_cons_of_mem _ hu)
      rw [maxDelay]
      by_cases hlt : maxD < tcurr - ts
      · rw [if_pos hlt]
        obtain ⟨hge, hle⟩ := ih hrest (show tcurr - ts ≤ tcurr by linarith)
        exact ⟨hlt.le.trans hge, hle⟩
      · rw [if_neg hlt]
        exact ih hrest hmax

/-- The maximum delay is not below any of the delays. -/
theorem le_maxDelay (tcurr : ℚ) {tss : List ℚ} (maxD : ℚ) :
    maxD ≤ maxDelay tcurr tss maxD ∧ ∀ ts ∈ tss, tcurr - ts ≤ maxDelay tcurr tss maxD := by
  induction tss generalizing maxD with
  | nil => exact ⟨le_rfl, fun ts hts => absurd hts List.not_mem_nil⟩
  | cons t tss ih =>
      rw [maxDelay]
      obtain ⟨hge, hall⟩ := ih (if maxD < tcurr - t then tcurr - t else maxD)
      -- each timestamp raises the maximal delay to its own delay at least
      have hmax : maxD ≤ (if maxD < tcurr - t then tcurr - t else maxD) ∧
          tcurr - t ≤ if maxD < tcurr - t then tcurr - t else maxD := by
        split
        · rename_i hlt
          exact ⟨hlt.le, le_rfl⟩
        · rename_i hnlt
          exact ⟨le_rfl, not_lt.mp hnlt⟩
      refine ⟨hmax.1.trans hge, fun ts hts => ?_⟩
      rcases List.mem_cons.mp hts with rfl | hts
      · exact hmax.2.trans hge
      · exact hall ts hts

/-- A timestamp that is no new maximum leaves the slack and the maximum alone. -/
theorem observe_of_le {s : KSlack} {appTs : ℚ} (h : appTs ≤ s.tcurr) :
    s.observe appTs = ({ s with tsVect := s.tsVect ++ [appTs] }, false) := by
  rw [observe, if_pos h]

/-- A new maximum becomes the current one, and the slack grows if at all. -/
theorem observe_of_lt {s : KSlack} {appTs : ℚ} (h : s.tcurr < appTs) :
    ∃ k, s.observe appTs = (⟨k, appTs, []⟩, true) ∧ s.k ≤ k := by
  refine ⟨_, by rw [observe, if_neg (not_le.mpr h)], ?_⟩
  split
  · rename_i hlt
    exact hlt.le
  · exact le_rfl

/-- **Every timestamp keeps the bounds of the slack.** -/
theorem Inv.observe {s : KSlack} (h : s.Inv) {appTs : ℚ} (hts : 0 ≤ appTs) :
    (s.observe appTs).1.Inv := by
  have hall : ∀ ts ∈ s.tsVect ++ [appTs], 0 ≤ ts := by
    intro ts hmem
    rcases List.mem_append.mp hmem with hmem | hmem
    · exact h.tsVect ts hmem
    · rw [List.mem_singleton.mp hmem]
      exact hts
  rcases le_or_gt appTs s.tcurr with hle | hlt
  · rw [observe_of_le hle]
    exact ⟨h.nonneg, h.le, hall⟩
  · rw [KSlack.observe, if_neg (not_le.mpr hlt)]
    -- the delays are measured from the new maximum, so none is larger than it
    obtain ⟨hge, hbound⟩ := maxDelay_bounds hall hts
    refine ⟨?_, ?_, fun _ hmem => absurd hmem List.not_mem_nil⟩
    · show 0 ≤ if s.k < _ then _ else s.k
      split
      · exact hge
      · exact h.nonneg
    · show (if s.k < _ then _ else s.k) ≤ appTs
      split
      · exact hbound
      · exact h.le.trans hlt.le

/-- The current maximum is the largest of the timestamps and of the old one. -/
theorem tcurr_observe (s : KSlack) (appTs : ℚ) : (s.observe appTs).1.tcurr = max s.tcurr appTs := by
  rcases le_or_gt appTs s.tcurr with hle | hlt
  · rw [observe_of_le hle, max_eq_left hle]
  · obtain ⟨k, hk, -⟩ := observe_of_lt hlt
    rw [hk, max_eq_right hlt.le]

/-- `checkStreamProgress`, the slack being delayed by `delay`: a new maximum gives a punctuation. -/
def checkStreamProgress (delay : ℚ → ℚ) (appTs : ℚ) (s : KSlack) : KSlack × Option ℚ :=
  let (s, newMax) := s.observe appTs
  (s, if newMax then some (s.tcurr - delay s.k) else none)

/-- **Raw punctuations lie between zero and the current maximum**, whatever part of the slack they
are delayed by, and the maximum is that of the tuple at hand. -/
theorem checkStreamProgress_bounds {s : KSlack} (h : s.Inv) {delay : ℚ → ℚ}
    (hdelay : ∀ k, 0 ≤ k → 0 ≤ delay k ∧ delay k ≤ k) {appTs : ℚ} (hts : 0 ≤ appTs) {p : ℚ}
    (hp : (s.checkStreamProgress delay appTs).2 = some p) :
    0 ≤ p ∧ p ≤ (s.checkStreamProgress delay appTs).1.tcurr := by
  have hinv := h.observe hts
  have hsplit : (s.checkStreamProgress delay appTs).2 =
      if (s.observe appTs).2 then
        some ((s.observe appTs).1.tcurr - delay (s.observe appTs).1.k) else none := rfl
  rw [hsplit] at hp
  -- no timestamp is emitted unless the stream has made progress
  split at hp
  · obtain ⟨hlow, hhigh⟩ := hdelay _ hinv.nonneg
    obtain rfl := Option.some.inj hp
    have hle := hinv.le
    refine ⟨by linarith, ?_⟩
    show _ ≤ (s.observe appTs).1.tcurr
    linarith
  · cases hp

/-- What `checkStreamProgress` of the standard slack does with a timestamp: the slack and the maximum
grow if at all, and a punctuation is the maximum less the slack, which is not after any timestamp since
the last maximum. -/
structure Observes (s : KSlack) (appTs : ℚ) (s' : KSlack) (p : Option ℚ) : Prop where
  k : s.k ≤ s'.k
  tcurr : s'.tcurr = max s.tcurr appTs
  quiet : p = none → s'.tsVect = s.tsVect ++ [appTs]
  punc : ∀ q, p = some q → q = s'.tcurr - s'.k ∧ ∀ ts ∈ s.tsVect ++ [appTs], q ≤ ts

/-- What a tuple tells of the stream. -/
theorem observes (s : KSlack) (appTs : ℚ) :
    Observes s appTs (s.checkStreamProgress id appTs).1 (s.checkStreamProgress id appTs).2 := by
  rcases le_or_gt appTs s.tcurr with hle | hlt
  · rw [checkStreamProgress, observe_of_le hle]
    exact ⟨le_rfl, (max_eq_left hle).symm, fun _ => rfl, fun q hq => nomatch hq⟩
  · rw [checkStreamProgress, observe, if_neg (not_le.mpr hlt)]
    -- the new slack is the larger one of the old slack and of the largest delay
    have hk : s.k ≤ (if s.k < maxDelay appTs (s.tsVect ++ [appTs]) 0 then
          maxDelay appTs (s.tsVect ++ [appTs]) 0 else s.k) ∧
        maxDelay appTs (s.tsVect ++ [appTs]) 0 ≤
          if s.k < maxDelay appTs (s.tsVect ++ [appTs]) 0 then
            maxDelay appTs (s.tsVect ++ [appTs]) 0 else s.k := by
      split
      · rename_i hgrow
        exact ⟨hgrow.le, le_rfl⟩
      · rename_i hkeep
        exact ⟨le_rfl, not_lt.mp hkeep⟩
    refine ⟨hk.1, (max_eq_right hlt.le).symm, (fun hq => nomatch hq), ?_⟩
    rintro q ⟨⟩
    refine ⟨rfl, fun ts hts => ?_⟩
    have hdelay := (le_maxDelay appTs 0).2 ts hts
    have hle := hk.2
    dsimp only [id]
    linarith

end KSlack

/-! ## The attenuation of the adaptive versions -/

/-- The update of `alpha` by an output of the PID controller, within its boundaries. -/
def attenuate (alpha output : ℚ) : ℚ :=
  let alpha := alpha + output
  let alpha := if 1 < alpha then 1 else alpha
  if alpha < 0 then 0 else alpha

/-- The slack factor is between zero and one. -/
theorem attenuate_bounds (alpha output : ℚ) :
    0 ≤ attenuate alpha output ∧ attenuate alpha output ≤ 1 := by
  unfold attenuate
  dsimp only
  by_cases hone : 1 < alpha + output
  · rw [if_pos hone, if_neg (by norm_num)]
    exact ⟨zero_le_one, le_rfl⟩
  · rw [if_neg hone]
    by_cases hzero : alpha + output < 0
    · rw [if_pos hzero]
      exact ⟨le_rfl, zero_le_one⟩
    · rw [if_neg hzero]
      exact ⟨not_lt.mp hzero, not_lt.mp hone⟩

/-- An attenuated slack is a part of the slack. -/
theorem attenuated_bounds {alpha : ℚ} (h : 0 ≤ alpha ∧ alpha ≤ 1) {k : ℚ} (hk : 0 ≤ k) :
    0 ≤ (1 - alpha) * k ∧ (1 - alpha) * k ≤ k := by
  have hfac : 0 ≤ 1 - alpha := by linarith [h.2]
  refine ⟨mul_nonneg hfac hk, ?_⟩
  have hprod := mul_nonneg h.1 hk
  linarith [sub_mul 1 alpha k, one_mul k]

/-- The fields of the adaptive versions. -/
structure KSlackPid extends KSlack where
  /-- Attenuation parameter of the slack. -/
  alpha : ℚ

namespace KSlackPid

/-- The constructors. -/
def new : KSlackPid := { KSlack.new with alpha := 0 }

/-- The real delay. -/
def delay (s : KSlackPid) (k : ℚ) : ℚ := (1 - s.alpha) * k

/-- `adapt`, given the output of the PID controller (`none` while the sampling interval lasts). The
result tells whether a new interval is triggered. -/
def adapt (output : Option ℚ) (s : KSlackPid) : KSlackPid × Bool :=
  match output with
  | none => (s, false)
  | some output => ({ s with alpha := attenuate s.alpha output }, true)

/-- The slack is sound, and the attenuation within its boundaries. -/
structure Inv (s : KSlackPid) : Prop extends KSlack.Inv s.toKSlack where
  alpha : 0 ≤ s.alpha ∧ s.alpha ≤ 1

/-- Adaptive K-slack as constructed. -/
theorem new_inv : new.Inv := ⟨KSlack.new_inv, le_rfl, zero_le_one⟩

/-- An adaptation keeps the invariant. -/
theorem Inv.adapt {s : KSlackPid} (h : s.Inv) (output : Option ℚ) : (s.adapt output).1.Inv := by
  cases output with
  | none => exact h
  | some output => exact ⟨h.toInv, attenuate_bounds _ _⟩

/-- Adapting changes the attenuation only. -/
@[simp] theorem adapt_toKSlack (s : KSlackPid) (output : Option ℚ) :
    (s.adapt output).1.toKSlack = s.toKSlack := by
  cases output <;> rfl

/-- The adaptive slack is not above the standard one. -/
theorem Inv.delay_bounds {s : KSlackPid} (h : s.Inv) {k : ℚ} (hk : 0 ≤ k) :
    0 ≤ s.delay k ∧ s.delay k ≤ k :=
  attenuated_bounds h.alpha hk

end KSlackPid

/-! ## The two punctuation mechanisms -/

/-- The state of `KSlack_Punc`. -/
abbrev KSlackPunc := KSlack

/-- `KSlack_Punc::checkStreamProgress`. -/
def KSlackPunc.checkStreamProgress (appTs : ℚ) (s : KSlackPunc) : KSlackPunc × Option ℚ :=
  KSlack.checkStreamProgress id appTs s

/-- The state of `KSlackPID_Punc`. -/
abbrev KSlackPidPunc := KSlackPid

/-- `KSlackPID_Punc::checkStreamProgress`. -/
def KSlackPidPunc.checkStreamProgress (appTs : ℚ) (s : KSlackPidPunc) : KSlackPidPunc × Option ℚ :=
  let (k, p) := s.toKSlack.checkStreamProgress s.delay appTs
  ({ s with toKSlack := k }, p)

/-- What a mechanism does with a timestamp: its slack `s` becomes `s'`, and a punctuation, if there
is one, is between zero and the new maximum. -/
structure Punctuates (s : KSlack) (appTs : ℚ) (s' : KSlack) (p : Option ℚ) : Prop where
  inv : s'.Inv
  tcurr : s'.tcurr = max s.tcurr appTs
  bounds : ∀ q, p = some q → 0 ≤ q ∧ q ≤ s'.tcurr

/-- The punctuations of standard K-slack. -/
theorem KSlackPunc.checkStreamProgress_spec {s : KSlackPunc} (h : KSlack.Inv s) {appTs : ℚ}
    (hts : 0 ≤ appTs) :
    Punctuates s appTs (KSlackPunc.checkStreamProgress appTs s).1
      (KSlackPunc.checkStreamProgress appTs s).2 where
  inv := h.observe hts
  tcurr := KSlack.tcurr_observe s appTs
  bounds := fun _ => KSlack.checkStreamProgress_bounds h (fun _ hk => ⟨hk, le_rfl⟩) hts

/-- The punctuations of adaptive K-slack. -/
theorem KSlackPidPunc.checkStreamProgress_spec {s : KSlackPidPunc} (h : KSlackPid.Inv s) {appTs : ℚ}
    (hts : 0 ≤ appTs) :
    (KSlackPidPunc.checkStreamProgress appTs s).1.Inv ∧
      Punctuates s.toKSlack appTs (KSlackPidPunc.checkStreamProgress appTs s).1.toKSlack
        (KSlackPidPunc.checkStreamProgress appTs s).2 := by
  have hinv := h.toInv.observe hts
  refine ⟨⟨hinv, h.alpha⟩, hinv, KSlack.tcurr_observe s.toKSlack appTs, fun _ hp => ?_⟩
  exact KSlack.checkStreamProgress_bounds h.toInv (fun _ hk => h.delay_bounds hk) hts hp

end ElasticPPQ
