import ElasticPPQ.Wlq.Emitter

/-! # The methods of the WLQ emitter, window by window

The deque of descriptors says of every window whether it is not open yet, open with a descriptor, or
finalized (`slot`). Each method of the emitter is specified by what it does to the slots; where the
descriptors lie in the deque does not matter any more afterwards. -/

namespace ElasticPPQ

/-- What has become of a window. -/
inductive WinSlot
  /-- No descriptor has been created. -/
  | unopened
  /-- There is a descriptor. -/
  | opened (wd : WinDescr)
  /-- The descriptor has been deleted. -/
  | finalized

namespace WinSlot

/-- A place of the deque. -/
def ofDescr : Option WinDescr → WinSlot
  | none => finalized
  | some wd => opened wd

/-- The results sets pending. -/
def pending : WinSlot → List Addr
  | opened wd => wd.pendingQueue
  | _ => []

/-- After a task has been scheduled: a `WIN_UPDATE` task makes the window busy, or finalizes it. -/
def schedule (t : WTask) : WinSlot → WinSlot
  | opened wd =>
      if t.type = .winUpdate then
        if t.finalize then finalized else opened { wd with isBusy := true }
      else opened wd
  | slot => slot

end WinSlot

/-- The windows of a deque whose first descriptor is the one of window `first`. -/
def slotAt (first : Nat) (ds : List (Option WinDescr)) (k : Nat) : WinSlot :=
  if k < first then .finalized else ((ds[k - first]?).map WinSlot.ofDescr).getD .unopened

section SlotAt

variable {first k j : Nat} {ds : List (Option WinDescr)}

/-- The first descriptor, or one of the rest. -/
theorem slotAt_cons (first : Nat) (d : Option WinDescr) (ds : List (Option WinDescr)) (k : Nat) :
    slotAt first (d :: ds) k = if k = first then .ofDescr d else slotAt (first + 1) ds k := by
  unfold slotAt
  rcases Nat.lt_trichotomy k first with hk | hk | hk
  · rw [if_pos hk, if_neg (Nat.ne_of_lt hk), if_pos (by omega)]
  · subst hk
    simp
  · rw [if_neg (by omega), if_neg (by omega), if_neg (by omega),
      show k - first = (k - (first + 1)) + 1 by omega, List.getElem?_cons_succ]

/-- After the descriptors no window has been opened. -/
theorem slotAt_of_le (hk : first + ds.length ≤ k) : slotAt first ds k = .unopened := by
  unfold slotAt
  rw [if_neg (by omega), List.getElem?_eq_none (by omega)]
  rfl

/-- An open window has its descriptor in the deque. -/
theorem getElem?_of_slotAt {wd : WinDescr} (h : slotAt first ds k = .opened wd) :
    first ≤ k ∧ ds[k - first]? = some (some wd) := by
  unfold slotAt at h
  -- a window below the first one is finalized, and one without a descriptor is finalized or
  -- unopened
  by_cases hk : k < first
  · rw [if_pos hk] at h
    cases h
  · rw [if_neg hk] at h
    refine ⟨Nat.not_lt.mp hk, ?_⟩
    rcases hd : ds[k - first]? with _ | d
    · rw [hd] at h
      cases h
    · rw [hd] at h
      rcases d with _ | wd'
      · cases h
      · cases h
        rfl

/-- A place of the deque is overwritten. -/
theorem slotAt_set (hj : first ≤ j) (hlen : j - first < ds.length) (d : Option WinDescr) (k : Nat) :
    slotAt first (ds.set (j - first) d) k = if k = j then .ofDescr d else slotAt first ds k := by
  unfold slotAt
  by_cases hk : k < first
  · rw [if_pos hk, if_neg (by omega), if_pos hk]
  · rw [if_neg hk, if_neg hk, List.getElem?_set]
    by_cases hkj : k = j
    · subst hkj
      simp [hlen]
    · rw [if_neg hkj, if_neg (by omega)]

/-- Dropping finalized windows changes no slot. -/
theorem slotAt_dropWhile (first : Nat) (ds : List (Option WinDescr)) (k : Nat) :
    slotAt (first + (ds.takeWhile Option.isNone).length) (ds.dropWhile Option.isNone) k
      = slotAt first ds k := by
  -- induction on the descriptors, the front of which is dropped while it is finalized
  induction ds generalizing first with
  | nil => rfl
  | cons d ds ih =>
      rcases d with _ | wd
      · have hih := ih (first + 1)
        rw [slotAt_cons]
        simp only [List.takeWhile_cons, List.dropWhile_cons, Option.isNone_none, if_true,
          List.length_cons]
        rw [show first + ((ds.takeWhile Option.isNone).length + 1)
          = first + 1 + (ds.takeWhile Option.isNone).length by omega, hih]
        -- the window dropped lies below the new first one
        by_cases hk : k = first
        · rw [if_pos hk, slotAt, if_pos (by omega)]
          rfl
        · rw [if_neg hk]
      · simp

end SlotAt

namespace WinDescr

/-- The descriptor after the arrival of results set `p` of pane `paneId`. -/
def receive (p : Addr) (paneId noInstances : Nat) (wd : WinDescr) : WinDescr :=
  { wd with
    cntIns :=
      if wd.cntIns.getD (paneId - wd.firstPaneId) 0 = -1 ∧ 0 < noInstances then
        wd.cntIns.set (paneId - wd.firstPaneId) noInstances
      else wd.cntIns
    pendingQueue := p :: wd.pendingQueue }

/-- A results set is counted in the window, and becomes pending there. -/
theorem updateCount_eq {wd : WinDescr} {paneId : Nat} (hle : wd.firstPaneId ≤ paneId)
    (hlt : paneId - wd.firstPaneId < wd.cntIns.length) (p : Addr) (noInstances : Nat) :
    (do
      let wd' ← wd.updateCount paneId noInstances
      Except.ok { wd' with pendingQueue := p :: wd'.pendingQueue } : Except WlqError WinDescr)
      = .ok (wd.receive p paneId noInstances) := by
  rw [updateCount, if_neg (Nat.not_lt.mpr hle), if_neg (Nat.not_le.mpr hlt), receive]
  by_cases h : wd.cntIns.getD (paneId - wd.firstPaneId) 0 = -1 ∧ 0 < noInstances
  · rw [if_pos h, if_pos h]
    rfl
  · rw [if_neg h, if_neg h]
    rfl

end WinDescr

namespace WlqEmitter

variable {N : Nat} {s : WlqEmitter N}

/-- What has become of window `k`. -/
def slot (s : WlqEmitter N) (k : Nat) : WinSlot := slotAt s.firstWinId s.descrSet k

/-- The descriptor of an open window is changed. -/
theorem modifyDescr_eq {k : Nat} {wd wd' : WinDescr} (h : s.slot k = .opened wd)
    {f : WinDescr → Except WlqError WinDescr} (hf : f wd = .ok wd') (err : WlqError) :
    ∃ ds, s.modifyDescr err k f = .ok { s with descrSet := ds } ∧
      ds.length = s.descrSet.length ∧
      ∀ j, slotAt s.firstWinId ds j = if j = k then .opened wd' else s.slot j := by
  obtain ⟨hle, hget⟩ := getElem?_of_slotAt h
  have hlen : k - s.firstWinId < s.descrSet.length := (List.getElem?_eq_some_iff.mp hget).1
  refine ⟨s.descrSet.set (k - s.firstWinId) (some wd'), ?_, List.length_set,
    slotAt_set hle hlen (some wd')⟩
  rw [modifyDescr, if_neg (Nat.not_lt.mpr hle), hget]
  simp only [hf]
  rfl

/-- The descriptor of an open window is deleted. -/
theorem deleteDescr_eq {k : Nat} {wd : WinDescr} (h : s.slot k = .opened wd) :
    ∃ ds, s.deleteDescr k = .ok { s with descrSet := ds } ∧ ds.length = s.descrSet.length ∧
      ∀ j, slotAt s.firstWinId ds j = if j = k then .finalized else s.slot j := by
  obtain ⟨hle, hget⟩ := getElem?_of_slotAt h
  have hlen : k - s.firstWinId < s.descrSet.length := (List.getElem?_eq_some_iff.mp hget).1
  refine ⟨s.descrSet.set (k - s.firstWinId) none, ?_, List.length_set, slotAt_set hle hlen none⟩
  rw [deleteDescr, if_neg (Nat.not_lt.mpr hle), if_neg (Nat.not_le.mpr hlen)]

/-- New windows are opened, up to window `last`. -/
theorem openWindows_eq {last : Nat} (h : s.firstWinId ≤ last) (wp sp : Nat) :
    ∃ ds, s.openWindows wp sp last = .ok { s with descrSet := ds } ∧
      s.firstWinId + s.descrSet.length ≤ s.firstWinId + ds.length ∧
      (∀ k, k ≤ last → slotAt s.firstWinId ds k ≠ .unopened) ∧
      ∀ k, slotAt s.firstWinId ds k = s.slot k ∨
        s.slot k = .unopened ∧ slotAt s.firstWinId ds k = .opened (.new k wp (sp * k)) := by
  obtain ⟨n, hn⟩ : ∃ n, n = last - s.firstWinId + 1 - s.descrSet.length := ⟨_, rfl⟩
  -- the descriptors appended are those of the windows up to the last one
  have hget : ∀ k, s.firstWinId ≤ k → s.descrSet.length ≤ k - s.firstWinId →
      k - s.firstWinId - s.descrSet.length < n →
      slotAt s.firstWinId (s.descrSet ++ (List.range' s.descrSet.length n).map fun i =>
        some (.new (i + s.firstWinId) wp (sp * (i + s.firstWinId)))) k
        = .opened (.new k wp (sp * k)) := by
    intro k hk hlen hlt
    rw [slotAt, if_neg (Nat.not_lt.mpr hk), List.getElem?_append_right hlen, List.getElem?_map,
      List.getElem?_range' hlt]
    rw [show s.descrSet.length + 1 * (k - s.firstWinId - s.descrSet.length) = k - s.firstWinId
      by omega]
    simp only [Option.map_some, Option.getD_some, WinSlot.ofDescr]
    rw [Nat.sub_add_cancel hk]
  refine ⟨_, by rw [openWindows, if_neg (Nat.not_lt.mpr h), ← hn], ?_, ?_, ?_⟩
  · rw [List.length_append]
    omega
  · intro k hk
    -- below the deque, within it, or among the windows opened now
    rcases Nat.lt_or_ge k s.firstWinId with hfirst | hfirst
    · rw [slotAt, if_pos hfirst]
      exact WinSlot.noConfusion
    · rcases Nat.lt_or_ge (k - s.firstWinId) s.descrSet.length with hlt | hge
      · rw [slotAt, if_neg (Nat.not_lt.mpr hfirst), List.getElem?_append_left hlt,
          List.getElem?_eq_getElem hlt]
        rcases s.descrSet[k - s.firstWinId] with _ | wd
        · exact WinSlot.noConfusion
        · exact WinSlot.noConfusion
      · rw [hget k hfirst hge (by omega)]
        exact WinSlot.noConfusion
  · intro k
    -- below the deque and within it the windows are as before
    rcases Nat.lt_or_ge k s.firstWinId with hfirst | hfirst
    · left
      rw [slot, slotAt, slotAt, if_pos hfirst, if_pos hfirst]
    · rcases Nat.lt_or_ge (k - s.firstWinId) s.descrSet.length with hlt | hge
      · left
        rw [slot, slotAt, slotAt, List.getElem?_append_left hlt]
      · have hold : s.slot k = .unopened := slotAt_of_le (by omega)
        rcases Nat.lt_or_ge (k - s.firstWinId - s.descrSet.length) n with hlt | hge'
        · exact Or.inr ⟨hold, hget k hfirst hge hlt⟩
        · left
          rw [hold, slotAt_of_le]
          rw [List.length_append, List.length_map, List.length_range']
          omega

/-- The results set `p` is added to the pending queues of open windows. -/
theorem addPending_eq {p : Addr} {paneId noInstances : Nat} {ks : List Nat} (hks : ks.Nodup)
    (h : ∀ k ∈ ks, ∃ wd, s.slot k = .opened wd ∧ wd.firstPaneId ≤ paneId ∧
      paneId - wd.firstPaneId < wd.cntIns.length) :
    ∃ ds, addPending p paneId noInstances ks s = .ok { s with
        descrSet := ds, nPendingtasks := s.nPendingtasks + ks.length } ∧
      ds.length = s.descrSet.length ∧ (∀ k, k ∉ ks → slotAt s.firstWinId ds k = s.slot k) ∧
      ∀ k ∈ ks, ∀ wd, s.slot k = .opened wd →
        slotAt s.firstWinId ds k = .opened (wd.receive p paneId noInstances) := by
  -- induction on the windows of the pane, each of which gets the set once
  induction ks generalizing s with
  | nil => exact ⟨s.descrSet, rfl, rfl, fun _ _ => rfl, fun _ hk => absurd hk List.not_mem_nil⟩
  | cons k ks ih =>
      rw [List.nodup_cons] at hks
      have hne : ∀ j ∈ ks, j ≠ k := by
        rintro j hj rfl
        exact hks.1 hj
      obtain ⟨wd, hwd, hle, hlt⟩ := h k List.mem_cons_self
      obtain ⟨ds₁, hrun₁, hlen₁, hslot₁⟩ :=
        modifyDescr_eq hwd (f := fun wd => do
          let wd ← wd.updateCount paneId noInstances
          .ok { wd with pendingQueue := p :: wd.pendingQueue })
          (wd.updateCount_eq hle hlt p noInstances) .abort
      obtain ⟨s₁, hs₁⟩ : ∃ s₁ : WlqEmitter N, s₁ = { s with
        descrSet := ds₁, nPendingtasks := s.nPendingtasks + 1 } := ⟨_, rfl⟩
      -- the window at the head has received the set
      have hslot : ∀ j, s₁.slot j = if j = k then .opened (wd.receive p paneId noInstances)
          else s.slot j := by
        intro j
        rw [hs₁]
        exact hslot₁ j
      obtain ⟨ds, hrun, hlen, hout, hin⟩ := ih (s := s₁) hks.2 (by
        intro j hj
        rw [hslot, if_neg (hne j hj)]
        exact h j (List.mem_cons_of_mem _ hj))
      have hfirst : s₁.firstWinId = s.firstWinId := by rw [hs₁]
      refine ⟨ds, ?_, ?_, ?_, ?_⟩
      · rw [addPending, hrun₁]
        show addPending p paneId noInstances ks { s with
          descrSet := ds₁, nPendingtasks := s.nPendingtasks + 1 } = _
        rw [← hs₁, hrun, hs₁, List.length_cons]
        simp only [Except.ok.injEq, WlqEmitter.mk.injEq, true_and, and_true]
        omega
      · rw [hlen, hs₁]
        exact hlen₁
      · intro j hj
        rw [List.mem_cons, not_or] at hj
        rw [← hfirst, hout j hj.2, hslot, if_neg hj.1]
      · intro j hj wd' hwd'
        rw [← hfirst]
        -- the window at the head is not visited again
        rcases List.mem_cons.mp hj with rfl | hj
        · rw [hout j hks.1, hslot, if_pos rfl]
          rw [hwd] at hwd'
          cases hwd'
          rfl
        · refine hin j hj wd' ?_
          rw [hslot, if_neg (hne j hj)]
          exact hwd'

/-- Dropping the finalized windows leaves the slots of the emitter alone. -/
@[simp] theorem slot_dropFinalized (s : WlqEmitter N) (k : Nat) :
    s.dropFinalized.slot k = s.slot k := slotAt_dropWhile ..

end WlqEmitter

end ElasticPPQ
