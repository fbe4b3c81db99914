import ElasticPPQ.Plq.InOrderEmitter

/-! # What the reordering buffer guarantees

The in-order emitter discards what leaves its buffer behind a later tuple. A tuple that was not late when
it came in never is, since the buffer is emptied in order. So with the standard slack a tuple is
discarded only if it is older than what had been scheduled at any earlier point of the run, or later than
the slack of that point (`InOrderRun.reorder_guarantee`). Of a stream in order no tuple is late, whatever the
slack (`InOrderRun.InOrder.not_late`). -/

namespace ElasticPPQ

variable {DIM : Nat}

open KSlackBuffer

namespace PlqEmitterIop

/-- What sifting the first tuples of a sorted buffer does. -/
structure SiftsLate (ts rest : List (Tuple DIM)) (e e' : PlqEmitterIop DIM) (out : Sifted DIM) :
    Prop where
  discarded : ∀ u ∈ out.discarded, u ∈ ts ∧ u.appTs < e.lastTimestamp
  last : e'.lastTimestamp = e.lastTimestamp ∨ ∃ u ∈ ts, e'.lastTimestamp = u.appTs
  rest : ∀ u ∈ rest, e.lastTimestamp ≤ u.appTs → e'.lastTimestamp ≤ u.appTs

/-- **Only the tuples that are late before are discarded**, and no tuple that stays becomes late. -/
theorem siftsLate (flush : Bool) {ts rest : List (Tuple DIM)} (hs : Sorted (ts ++ rest))
    (e : PlqEmitterIop DIM) : SiftsLate ts rest e (sift flush ts e).1 (sift flush ts e).2 := by
  induction ts generalizing e with
  | nil => exact ⟨fun u hu => absurd hu List.not_mem_nil, Or.inl rfl, fun u _ hu => hu⟩
  | cons t ts ih =>
      obtain ⟨hle, hs⟩ := List.pairwise_cons.mp hs
      obtain ⟨hdisc, hlast, hrest⟩ := ih hs (e.emit flush t).1
      have hsift : sift flush (t :: ts) e = ((sift flush ts (e.emit flush t).1).1,
          (sift flush ts (e.emit flush t).1).2.cons t (e.emit flush t).2) := rfl
      rw [hsift]
      by_cases hlt : t.appTs < e.lastTimestamp
      · -- the tuple is discarded, and the last timestamp stays
        have hemit : (e.emit flush t).2 = false ∧
            (e.emit flush t).1.lastTimestamp = e.lastTimestamp := by
          unfold emit
          dsimp only
          rw [if_pos hlt]
          cases flush <;> exact ⟨rfl, rfl⟩
        rw [hemit.1]
        rw [hemit.2] at hdisc hlast hrest
        refine ⟨fun u hu => ?_, ?_, hrest⟩
        · rcases List.mem_cons.mp hu with rfl | hu
          · exact ⟨List.mem_cons_self, hlt⟩
          · exact ⟨List.mem_cons_of_mem _ (hdisc u hu).1, (hdisc u hu).2⟩
        · rcases hlast with hlast | ⟨u, hu, hlast⟩
          · exact Or.inl hlast
          · exact Or.inr ⟨u, List.mem_cons_of_mem _ hu, hlast⟩
      · -- the tuple is scheduled, and none of the later ones is late
        have hemit : (e.emit flush t).2 = true ∧
            (e.emit flush t).1.lastTimestamp = t.appTs := by
          unfold emit
          dsimp only
          rw [if_neg hlt]
          exact ⟨rfl, rfl⟩
        rw [hemit.1]
        rw [hemit.2] at hdisc hlast hrest
        refine ⟨fun u hu => ?_, ?_, fun u hu hu' => hrest u hu (hle u ?_)⟩
        · have hlate := (hdisc u hu).2
          exact absurd hlate (not_lt.mpr (hle u (List.mem_append_left _ (hdisc u hu).1)))
        · rcases hlast with hlast | ⟨u, hu, hlast⟩
          · exact Or.inr ⟨t, List.mem_cons_self, hlast⟩
          · exact Or.inr ⟨u, List.mem_cons_of_mem _ hu, hlast⟩
        · exact List.mem_append_right _ hu

end PlqEmitterIop

namespace InOrderRun

/-- A tuple that has come in late: it is older than `mark`, or its delay behind a tuple received before
it is greater than `D`. -/
def Late (D mark : ℚ) (received : List (Tuple DIM)) (t : Tuple DIM) : Prop :=
  ∃ us vs, received = us ++ t :: vs ∧
    (t.appTs < mark ∨ ∃ b ∈ us, D < b.appTs - t.appTs)

/-- A late tuple stays late. -/
theorem Late.append {D mark : ℚ} {received : List (Tuple DIM)} {t : Tuple DIM}
    (h : Late D mark received t) (ts : List (Tuple DIM)) : Late D mark (received ++ ts) t := by
  obtain ⟨us, vs, rfl, hlate⟩ := h
  exact ⟨us, vs ++ ts, by rw [List.append_assoc]; rfl, hlate⟩

/-- From a point of the run on, with `n` tuples discarded and the last one scheduled at `mark`: the
tuples scheduled since were released with a delay of `D` at least, and only tuples that have come in late
are, or will be, discarded. -/
structure Guarded (D mark : ℚ) (n : Nat) (x : InOrderRun DIM) : Prop where
  kept : x.Kept
  le : n ≤ x.discarded.length
  last : x.emitter.lastTimestamp ≤ mark ∨
    ∃ b ∈ x.received, x.emitter.lastTimestamp ≤ b.appTs - D
  waiting : ∀ t ∈ x.emitter.inUse.bufferedTuples, t.appTs < x.emitter.lastTimestamp →
    Late D mark x.received t
  discarded : ∀ t ∈ x.discarded.drop n, Late D mark x.received t

variable {D mark : ℚ} {n : Nat} {x x' : InOrderRun DIM}

/-- Any point of a run. -/
theorem Kept.guarded (h : x.Kept) (D : ℚ) :
    x.Guarded D x.emitter.lastTimestamp x.discarded.length where
  kept := h
  le := le_rfl
  last := Or.inl le_rfl
  waiting := by
    intro t ht hlt
    have hmem : t ∈ x.received := h.accounts.perm.subset (List.mem_append_right _ ht)
    obtain ⟨us, vs, hsplit⟩ := List.append_of_mem hmem
    exact ⟨us, vs, hsplit, Or.inl hlt⟩
  discarded := by
    rw [List.drop_length]
    exact fun t ht => absurd ht List.not_mem_nil

/-- Draining the buffer discards late tuples only, and makes no tuple late. -/
theorem Drains.late {flush : Bool} {waiting ts : List (Tuple DIM)} {e : PlqEmitterIop DIM}
    (h : Drains flush waiting ts e x x') (hsort : Sorted waiting) (hn : n ≤ x.discarded.length)
    {received : List (Tuple DIM)} (hwait : ∀ t ∈ waiting, t.appTs < x.emitter.lastTimestamp →
      Late D mark received t) (hdisc : ∀ t ∈ x.discarded.drop n, Late D mark received t) :
    (∀ t ∈ x'.emitter.inUse.bufferedTuples, t.appTs < x'.emitter.lastTimestamp →
      Late D mark received t) ∧ ∀ t ∈ x'.discarded.drop n, Late D mark received t := by
  -- the release takes a front part of the buffer, whose tuples come before the others
  rw [h.split] at hsort hwait
  obtain ⟨hd, -, hrest⟩ := PlqEmitterIop.siftsLate flush hsort e
  rw [h.before, ← h.after] at hrest
  refine ⟨fun t ht hlt => hwait t (List.mem_append_right _ ht) ?_, fun t ht => ?_⟩
  · exact not_le.mp fun hle => absurd (hrest t ht hle) (not_le.mpr hlt)
  · rw [h.discarded, List.drop_append_of_le_length hn] at ht
    -- a discarded tuple either was discarded before or has just been released too late
    rcases List.mem_append.mp ht with ht | ht
    · exact hdisc t ht
    · obtain ⟨hmem, hlt⟩ := hd t ht
      rw [h.before] at hlt
      exact hwait t (List.mem_append_left _ hmem) hlt

/-- **One tuple.** -/
theorem Guarded.process (h : x.Guarded D mark n) (paneLength : Nat) (pid : ℚ → Option ℚ)
    (row : Row ℚ DIM)
    (hD : D ≤ 0 ∨ D ≤ x.emitter.delay (x.emitter.inUse.observe row.appTs).1.k) :
    ∃ x', x.process paneLength pid row = some x' ∧ x'.Guarded D mark n ∧
      x'.received = x.received ++ [Tuple.createRegular row paneLength] ∧
      x'.emitter.pidEnabled = x.emitter.pidEnabled ∧
      x'.emitter.inUse.toKSlack = (x.emitter.inUse.observe row.appTs).1 := by
  obtain ⟨x', hx', hkept, hrec, ts, e, hrel, hdrain⟩ := h.kept.process paneLength pid row
  obtain ⟨t, ht⟩ : ∃ t, t = Tuple.createRegular row paneLength := ⟨_, rfl⟩
  rw [← ht] at hrec hrel hdrain
  have hts : t.appTs = row.appTs := by rw [ht]; rfl
  have hsort := h.kept.idle.sorted.insertSorted t
  -- the tuple itself is late if it is older than the last one scheduled
  have hlate : t.appTs < x.emitter.lastTimestamp → Late D mark (x.received ++ [t]) t := by
    intro hlt
    refine ⟨x.received, [], rfl, ?_⟩
    rcases h.last with hlast | ⟨b, hb, hlast⟩
    · exact Or.inl (hlt.trans_le hlast)
    · exact Or.inr ⟨b, hb, by linarith⟩
  have hwait : ∀ u ∈ insertSorted t x.emitter.inUse.bufferedTuples,
      u.appTs < x.emitter.lastTimestamp → Late D mark (x.received ++ [t]) u := by
    intro u hu hlt
    rcases List.mem_cons.mp ((insertSorted_perm t _).subset hu) with rfl | hu
    · exact hlate hlt
    · exact (h.waiting u hu hlt).append [t]
  obtain ⟨hwaiting, hdiscarded⟩ := hdrain.late hsort h.le hwait fun u hu => (h.discarded u hu).append [t]
  refine ⟨x', by rw [← hx'], ⟨hkept, ?_, ?_, ?_, ?_⟩, hrec.trans (by rw [ht]), hrel.pidEnabled, ?_⟩
  · rw [hdrain.discarded, List.length_append]
    exact h.le.trans (Nat.le_add_right _ _)
  · -- the new last timestamp is the old one, or that of a released tuple
    have hsift := (PlqEmitterIop.siftsLate false (by rw [← hdrain.split]; exact hsort) e).last
    rw [← hdrain.after, hdrain.before] at hsift
    rw [hrec]
    rcases hsift with hsame | ⟨u, hu, hsame⟩
    · rw [hsame]
      rcases h.last with hlast | ⟨b, hb, hlast⟩
      · exact Or.inl hlast
      · exact Or.inr ⟨b, List.mem_append_left _ hb, hlast⟩
    · rw [hsame]
      rcases hD with hD | hD
      · have hmem : u ∈ insertSorted t x.emitter.inUse.bufferedTuples := by
          rw [hdrain.split]
          exact List.mem_append_left _ hu
        rcases List.mem_cons.mp ((insertSorted_perm t _).subset hmem) with rfl | hmem
        · exact Or.inr ⟨u, List.mem_append_right _ (List.mem_singleton_self u), by linarith⟩
        · refine Or.inr ⟨u, List.mem_append_left _ ?_, by linarith⟩
          exact h.kept.accounts.perm.subset (List.mem_append_right _ hmem)
      · refine Or.inr ⟨t, List.mem_append_right _ (List.mem_singleton_self t), ?_⟩
        have hle := hrel.le u hu
        rw [hts] at hle ⊢
        linarith
  · rw [hrec]
    exact hwaiting
  · rw [hrec]
    exact hdiscarded
  · rw [hrel.slack, hts]

/-- **The flush.** -/
theorem Guarded.flush (h : x.Guarded D mark n) :
    ∃ x', x.flush = some x' ∧ x'.Kept ∧ x'.received = x.received ∧
      x'.emitter.inUse.bufferedTuples = [] ∧ ∀ t ∈ x'.discarded.drop n, Late D mark x'.received t := by
  obtain ⟨x', hx', hkept, hrec, hnil, ts, e, hdrain⟩ := h.kept.flush
  have hlate := (hdrain.late h.kept.idle.sorted h.le h.waiting h.discarded).2
  exact ⟨x', hx', hkept, hrec, hnil, by rw [hrec]; exact hlate⟩

/-- A run with the standard slack, which does not shrink. -/
theorem Guarded.processAll (h : x.Guarded D mark n) (hmode : x.emitter.pidEnabled = false)
    (hk : D ≤ x.emitter.inUse.k) (paneLength : Nat) (is : List ((ℚ → Option ℚ) × Row ℚ DIM)) :
    ∃ x', x.processAll paneLength is = some x' ∧ x'.Guarded D mark n ∧
      x'.emitter.pidEnabled = false := by
  -- induction on the tuples received, keeping the slack at least the bound of the disorder
  induction is generalizing x with
  | nil => exact ⟨x, rfl, h, hmode⟩
  | cons i is ih =>
      -- the slack never shrinks, whether the tuple raises the maximum or not
      have hgrow : x.emitter.inUse.k ≤ (x.emitter.inUse.observe i.2.appTs).1.k := by
        rcases le_or_gt i.2.appTs x.emitter.inUse.tcurr with hle | hlt
        · rw [KSlack.observe_of_le hle]
        · obtain ⟨k, hk', hle⟩ := KSlack.observe_of_lt hlt
          rw [hk']
          exact hle
      -- without the PID the buffer is held back by the whole slack
      have hD : D ≤ x.emitter.delay (x.emitter.inUse.observe i.2.appTs).1.k := by
        rw [PlqEmitterIop.delay, PlqEmitterIop.alpha,
          if_neg (by rw [hmode]; exact Bool.false_ne_true), sub_zero, one_mul]
        exact hk.trans hgrow
      obtain ⟨x₁, hx₁, h₁, -, hmode₁, hslack₁⟩ := h.process paneLength i.1 i.2 (Or.inr hD)
      obtain ⟨x', hx', h'⟩ := ih h₁ (hmode₁.trans hmode) (by
        rw [show x₁.emitter.inUse.k = _ from congrArg KSlack.k hslack₁]
        exact hk.trans hgrow)
      exact ⟨x', by rw [InOrderRun.processAll, hx₁]; exact hx', h'⟩

/-- What the reordering buffer guarantees from a point `x` of a run on, whose end after the flush is
`x'`: the tuples received are those scheduled and those discarded, and of the tuples discarded since
then each has come in older than the last tuple scheduled at that point, or later than the slack of that
point. -/
structure Reorders (x x' : InOrderRun DIM) : Prop where
  flushed : (x'.scheduled ++ x'.discarded).Perm x'.received
  ordered : Sorted x'.scheduled
  discarded : ∀ t ∈ x'.discarded.drop x.discarded.length,
    Late x.emitter.inUse.k x.emitter.lastTimestamp x'.received t

/-- A buffer that has been flushed accounts for all the tuples. -/
theorem Kept.flushed (h : x.Kept) (hnil : x.emitter.inUse.bufferedTuples = []) :
    (x.scheduled ++ x.discarded).Perm x.received := by
  have hperm := h.accounts.perm
  rw [hnil, List.append_nil] at hperm
  exact hperm

/-- **The guarantee of the reordering buffer** with the standard slack: for every sequence of tuples, and
every point of it. -/
theorem reorder_guarantee (paneLength : Nat) (is js : List ((ℚ → Option ℚ) × Row ℚ DIM)) :
    ∃ x y z, (init DIM false).processAll paneLength is = some x ∧ x.processAll paneLength js = some y ∧
      y.flush = some z ∧ Reorders x z := by
  have hinit := (init_kept DIM false).guarded 0
  obtain ⟨x, hx, hguarded, hmode⟩ := hinit.processAll rfl le_rfl paneLength is
  obtain ⟨y, hy, hy', -⟩ := (hguarded.kept.guarded x.emitter.inUse.k).processAll hmode le_rfl paneLength js
  obtain ⟨z, hz, hkept, -, hnil, hlate⟩ := hy'.flush
  exact ⟨x, y, z, hx, hy, hz, hkept.flushed hnil, hkept.accounts.ordered, hlate⟩

/-- The tuples received are in order, and no timestamp is negative. -/
def InOrder (received : List (Tuple DIM)) : Prop :=
  Sorted received ∧ ∀ t ∈ received, 0 ≤ t.appTs

/-- No tuple of a stream in order is late. -/
theorem InOrder.not_late {received : List (Tuple DIM)} (h : InOrder received) (t : Tuple DIM) :
    ¬ Late 0 0 received t := by
  rintro ⟨us, vs, rfl, hlate | ⟨b, hb, hlate⟩⟩
  · exact absurd hlate (not_lt.mpr (h.2 t (List.mem_append_right _ List.mem_cons_self)))
  · have hle : b.appTs ≤ t.appTs := (List.pairwise_append.mp h.1).2.2 b hb t List.mem_cons_self
    linarith

end InOrderRun

end ElasticPPQ
