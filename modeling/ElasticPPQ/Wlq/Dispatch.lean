import ElasticPPQ.Plq.SchedSpec
import ElasticPPQ.Wlq.Slots

/-! # Finding and scheduling the tasks of the second stage

The emitter first finds tasks in the descriptors, window by window, and then schedules them. Seen
from one window that is one move (`UpdateMove`), then another (`MergeMove`): a `WIN_UPDATE` task
leaves with one pending results set, a `MERGE` task with two. -/

namespace ElasticPPQ

/-- A `WIN_UPDATE` task is found in a window. -/
def PickUpdate (wd : WinDescr) (t : WTask) (wd' : WinDescr) : Prop :=
  wd.isBusy = false ∧ ∃ p q, wd.pendingQueue = p :: q ∧
    t = ⟨.winUpdate, .win wd.id, some p, wd.id, wd.toFinalize⟩ ∧
    wd' = { wd with pendingQueue := q }

/-- A `MERGE` task is found in a window. -/
def PickMerge (wd : WinDescr) (t : WTask) (wd' : WinDescr) : Prop :=
  ∃ p1 p2 q, wd.pendingQueue = p1 :: p2 :: q ∧ t = ⟨.merge, p1, some p2, wd.id, false⟩ ∧
    wd' = { wd with pendingQueue := q }

/-- Every descriptor of a deque that begins with window `first` has the right identifier. -/
def Labelled (first : Nat) (ds : List (Option WinDescr)) : Prop :=
  ∀ k wd, slotAt first ds k = .opened wd → wd.id = k

/-- The descriptors after the first one are labelled from the next window on. -/
theorem Labelled.tail {first : Nat} {d : Option WinDescr} {ds : List (Option WinDescr)}
    (h : Labelled first (d :: ds)) : Labelled (first + 1) ds := by
  intro k wd hk
  refine h k wd ?_
  have hle := (getElem?_of_slotAt hk).1
  rw [slotAt_cons, if_neg (by omega)]
  exact hk

/-- The first descriptor is that of the first window. -/
theorem Labelled.head {first : Nat} {wd : WinDescr} {ds : List (Option WinDescr)}
    (h : Labelled first (some wd :: ds)) : wd.id = first := by
  refine h first wd ?_
  rw [slotAt_cons, if_pos rfl]
  rfl

/-- A pass over the deque that finds tasks in some of the windows. -/
inductive Picks (P : WinDescr → WTask → WinDescr → Prop) :
    List (Option WinDescr) → List WTask → List (Option WinDescr) → Prop
  /-- The pass is over. -/
  | stop (ds : List (Option WinDescr)) : Picks P ds [] ds
  /-- Nothing is found in a window. -/
  | skip {ds ds' : List (Option WinDescr)} {ts : List WTask} (d : Option WinDescr)
      (h : Picks P ds ts ds') : Picks P (d :: ds) ts (d :: ds')
  /-- A task is found in a window. -/
  | pick {ds ds' : List (Option WinDescr)} {ts : List WTask} {wd wd' : WinDescr} {t : WTask}
      (ht : P wd t wd') (h : Picks P ds ts ds') : Picks P (some wd :: ds) (t :: ts) (some wd' :: ds')

namespace Picks

variable {P : WinDescr → WTask → WinDescr → Prop} {first k : Nat} {ds ds' : List (Option WinDescr)}
  {ts : List WTask}

/-- A search deletes no descriptor. -/
theorem length_eq (h : Picks P ds ts ds') : ds'.length = ds.length := by
  induction h with
  | stop ds => rfl
  | skip d h ih => rw [List.length_cons, List.length_cons, ih]
  | pick ht h ih => rw [List.length_cons, List.length_cons, ih]

/-- A task has been found in a window. -/
theorem mem (h : Picks P ds ts ds') {t : WTask} (ht : t ∈ ts) : ∃ wd wd', P wd t wd' := by
  induction h with
  | stop ds => exact absurd ht List.not_mem_nil
  | skip d h ih => exact ih ht
  | @pick ds ds' ts wd wd' t' ht' h ih =>
      rcases List.mem_cons.mp ht with rfl | ht
      · exact ⟨wd, wd', ht'⟩
      · exact ih ht

/-- The tasks of a pass that begins with window `first` are of later and later windows. -/
theorem sorted (hP : ∀ wd t wd', P wd t wd' → t.winId = wd.id) (h : Picks P ds ts ds')
    (hid : Labelled first ds) :
    (∀ t ∈ ts, first ≤ t.winId) ∧ ts.Pairwise fun t t' => t.winId < t'.winId := by
  -- induction on the picks, whose windows are numbered from the first one on
  induction h generalizing first with
  | stop ds => exact ⟨fun _ ht => absurd ht List.not_mem_nil, List.Pairwise.nil⟩
  | skip d h ih =>
      obtain ⟨hge, hpw⟩ := ih hid.tail
      exact ⟨fun t ht => (Nat.le_succ _).trans (hge t ht), hpw⟩
  | @pick ds ds' ts wd wd' t ht h ih =>
      obtain ⟨hge, hpw⟩ := ih hid.tail
      -- a task picked carries the id of its own descriptor
      have hwin : t.winId = first := (hP wd t wd' ht).trans hid.head
      refine ⟨fun t' ht' => ?_, List.pairwise_cons.mpr ⟨fun t' ht' => ?_, hpw⟩⟩
      · rcases List.mem_cons.mp ht' with rfl | ht'
        · exact hwin.ge
        · exact (Nat.le_succ _).trans (hge t' ht')
      · rw [hwin]
        exact hge t' ht'

/-- **A pass, seen from one window**: it finds nothing there, or one task. -/
theorem window (hP : ∀ wd t wd', P wd t wd' → t.winId = wd.id) (h : Picks P ds ts ds')
    (hid : Labelled first ds) (k : Nat) :
    (ts.filter (fun t => t.winId = k) = [] ∧ slotAt first ds' k = slotAt first ds k) ∨
      ∃ wd t wd', slotAt first ds k = .opened wd ∧ P wd t wd' ∧
        ts.filter (fun t => t.winId = k) = [t] ∧ slotAt first ds' k = .opened wd' := by
  induction h generalizing first with
  | stop ds => exact Or.inl ⟨rfl, rfl⟩
  | @skip ds ds' ts d h ih =>
      rw [slotAt_cons, slotAt_cons]
      -- the first window, which the tasks picked later do not concern, or a later one
      by_cases hk : k = first
      · rw [if_pos hk, if_pos hk]
        refine Or.inl ⟨List.filter_eq_nil_iff.mpr fun t ht => ?_, rfl⟩
        have := (h.sorted hP hid.tail).1 t ht
        simp only [decide_eq_true_eq]
        omega
      · rw [if_neg hk, if_neg hk]
        exact ih hid.tail
  | @pick ds ds' ts wd wd' t ht h ih =>
      have hwin : t.winId = first := (hP wd t wd' ht).trans hid.head
      rw [slotAt_cons, slotAt_cons, List.filter_cons]
      by_cases hk : k = first
      · rw [if_pos hk, if_pos hk, if_pos (by simp [hwin, hk])]
        refine Or.inr ⟨wd, t, wd', rfl, ht, ?_, rfl⟩
        rw [List.filter_eq_nil_iff.mpr]
        intro t' ht'
        have := (h.sorted hP hid.tail).1 t' ht'
        simp only [decide_eq_true_eq]
        omega
      · rw [if_neg hk, if_neg hk, if_neg (by simp [hwin, Ne.symm hk])]
        exact ih hid.tail

end Picks

namespace WlqEmitter

variable {N : Nat} {s : WlqEmitter N}

/-! ## Finding tasks -/

/-- Phase 1 is a pass that finds `WIN_UPDATE` tasks; every task found is one less that may still be
found. -/
theorem findUpdates_picks (n : Nat) (ds : List (Option WinDescr)) :
    Picks PickUpdate ds (findUpdates n ds).1 (findUpdates n ds).2.2 ∧
      (findUpdates n ds).1.length + (findUpdates n ds).2.1 = n := by
  -- induction on the descriptors visited, as many as tasks are still asked for
  induction ds generalizing n with
  | nil => exact ⟨Picks.stop [], by simp [findUpdates]⟩
  | cons d ds ih =>
      cases n with
      | zero => exact ⟨Picks.stop _, rfl⟩
      | succ n =>
          rcases d with _ | wd
          · simp only [findUpdates]
            exact ⟨(ih (n + 1)).1.skip none, (ih (n + 1)).2⟩
          -- a busy window is passed over, and so is one with nothing pending
          · cases hb : wd.isBusy with
            | true =>
                simp only [findUpdates, hb]
                exact ⟨(ih (n + 1)).1.skip _, (ih (n + 1)).2⟩
            | false =>
                cases hq : wd.pendingQueue with
                | nil =>
                    simp only [findUpdates, hb, hq]
                    exact ⟨(ih (n + 1)).1.skip _, (ih (n + 1)).2⟩
                | cons p q =>
                    simp only [findUpdates, hb, hq, List.length_cons]
                    refine ⟨(ih n).1.pick ⟨hb, p, q, hq, rfl, by rw [hb]⟩, ?_⟩
                    rw [Nat.add_right_comm, (ih n).2]

/-- Phase 1 finds a task if it may and there is one. -/
theorem findUpdates_ne_nil {n : Nat} {ds : List (Option WinDescr)} {wd : WinDescr}
    (hwd : some wd ∈ ds) (hb : wd.isBusy = false) (hq : wd.pendingQueue ≠ []) :
    (findUpdates (n + 1) ds).1 ≠ [] := by
  induction ds with
  | nil => exact absurd hwd List.not_mem_nil
  | cons d ds ih =>
      -- the descriptor wanted is idle with a set pending, so the loop does not pass over it
      rcases d with _ | wd'
      · simp only [findUpdates]
        exact ih ((List.mem_cons.mp hwd).resolve_left (Option.some_ne_none wd))
      · cases hb' : wd'.isBusy with
        | true =>
            simp only [findUpdates, hb']
            refine ih ((List.mem_cons.mp hwd).resolve_left ?_)
            rintro h
            cases h
            rw [hb] at hb'
            cases hb'
        | false =>
            cases hq' : wd'.pendingQueue with
            | nil =>
                simp only [findUpdates, hb', hq']
                refine ih ((List.mem_cons.mp hwd).resolve_left ?_)
                rintro h
                cases h
                exact hq hq'
            | cons p q =>
                simp only [findUpdates, hb', hq']
                exact List.cons_ne_nil _ _

/-- Phase 2 is a pass that finds `MERGE` tasks. -/
theorem findMerges_picks (n : Nat) (ds : List (Option WinDescr)) :
    Picks PickMerge ds (findMerges n ds).1 (findMerges n ds).2 ∧
      (findMerges n ds).1.length ≤ n := by
  induction ds generalizing n with
  | nil => exact ⟨Picks.stop [], Nat.zero_le n⟩
  | cons d ds ih =>
      cases n with
      | zero => exact ⟨Picks.stop _, le_rfl⟩
      | succ n =>
          rcases d with _ | wd
          · simp only [findMerges]
            exact ⟨(ih (n + 1)).1.skip none, (ih (n + 1)).2⟩
          -- a merge takes two pending sets, fewer are left alone
          · rcases hq : wd.pendingQueue with _ | ⟨p1, _ | ⟨p2, q⟩⟩
            · simp only [findMerges, hq]
              exact ⟨(ih (n + 1)).1.skip _, (ih (n + 1)).2⟩
            · simp only [findMerges, hq]
              exact ⟨(ih (n + 1)).1.skip _, (ih (n + 1)).2⟩
            · simp only [findMerges, hq, List.length_cons]
              exact ⟨(ih n).1.pick ⟨p1, p2, q, hq, rfl, rfl⟩, Nat.succ_le_succ (ih n).2⟩

/-! ## Scheduling tasks -/

/-- One task is scheduled; its window must be open if it is a `WIN_UPDATE` task. -/
theorem schedule_eq {t : WTask} (hopen : t.type = .winUpdate → ∃ wd, s.slot t.winId = .opened wd)
    (hmerge : t.type = .merge → t.finalize = false) (w : Fin N) :
    ∃ ds, schedule t w s = .ok { s with
        descrSet := ds
        nPendingtasks := s.nPendingtasks - 1
        workerReady := Function.update s.workerReady w false
        nReadyWorkers := s.nReadyWorkers - 1 } ∧
      ds.length = s.descrSet.length ∧
      ∀ k, slotAt s.firstWinId ds k
        = if k = t.winId then (s.slot k).schedule t else s.slot k := by
  cases hty : t.type with
  | merge =>
      refine ⟨s.descrSet, ?_, rfl, fun k => ?_⟩
      · simp [schedule, sendTaskToWorker, hty, hmerge hty, bind, Except.bind]
      · show s.slot k = _
        split
        · cases s.slot k with
          | opened wd => simp [WinSlot.schedule, hty]
          | unopened => rfl
          | finalized => rfl
        · rfl
  | winUpdate =>
      obtain ⟨wd, hwd⟩ := hopen hty
      obtain ⟨ds₁, hrun₁, hlen₁, hslot₁⟩ := modifyDescr_eq hwd
        (f := fun wd => .ok { wd with isBusy := true }) rfl .null
      cases hf : t.finalize with
      | false =>
          refine ⟨ds₁, ?_, hlen₁, fun k => ?_⟩
          · simp [schedule, sendTaskToWorker, hty, hf, hrun₁, bind, Except.bind]
          · rw [hslot₁]
            split
            · rename_i hk
              rw [hk, hwd]
              simp [WinSlot.schedule, hty, hf]
            · rfl
      | true =>
          -- the window becomes busy before its descriptor is deleted
          obtain ⟨s₁, hs₁⟩ : ∃ s₁ : WlqEmitter N, s₁ = { s with
            descrSet := ds₁
            nPendingtasks := s.nPendingtasks - 1
            workerReady := Function.update s.workerReady w false
            nReadyWorkers := s.nReadyWorkers - 1 } := ⟨_, rfl⟩
          have hopen₁ : s₁.slot t.winId = .opened { wd with isBusy := true } := by
            have := hslot₁ t.winId
            rw [if_pos rfl] at this
            rw [hs₁]
            exact this
          obtain ⟨ds, hrun, hlen, hslot⟩ := deleteDescr_eq hopen₁
          refine ⟨ds, ?_, ?_, fun k => ?_⟩
          · simp only [schedule, sendTaskToWorker, hty, hf, hrun₁, bind, Except.bind, if_true]
            rw [← hs₁, hrun, hs₁]
          · rw [hlen, hs₁]
            exact hlen₁
          · have hk := hslot k
            rw [hs₁] at hk
            refine hk.trans ?_
            split
            · rename_i hkt
              rw [hkt, hwd]
              simp [WinSlot.schedule, hty, hf]
            · rename_i hkt
              have := hslot₁ k
              rw [if_neg hkt] at this
              exact this

/-- The idle workers, as a set. -/
theorem getNumIdleWorkers_eq (s : WlqEmitter N) :
    s.getNumIdleWorkers = (Finset.univ.filter fun w => s.isIdle w = true).card := by
  rw [getNumIdleWorkers, List.countP_eq_length_filter]
  show _ = (List.filter (fun w => decide (s.isIdle w = true)) (List.finRange N)).length
  simp only [Bool.decide_eq_true]

/-- An idle worker is selected if there is one. -/
theorem selectIdleWorker_eq (h : 0 < s.getNumIdleWorkers) :
    ∃ w n, s.isIdle w = true ∧ s.selectIdleWorker = some (w, { s with lastW := n }) := by
  rw [getNumIdleWorkers_eq, Finset.card_pos] at h
  obtain ⟨v, hv⟩ := h
  have hfind : ((Sched.scanOrder N (s.lastW + 1)).find? s.isIdle).isSome :=
    List.find?_isSome.mpr ⟨v, Sched.mem_scanOrder _ v, (Finset.mem_filter.mp hv).2⟩
  obtain ⟨w, hw⟩ := Option.isSome_iff_exists.mp hfind
  refine ⟨w, w.val, List.find?_some hw, ?_⟩
  rw [selectIdleWorker, hw]
  rfl

/-- A list of tasks that can be scheduled. -/
structure Schedulable (s : WlqEmitter N) (ts : List WTask) : Prop where
  opened : ∀ t ∈ ts, t.type = .winUpdate → ∃ wd, s.slot t.winId = .opened wd
  apart : ts.Pairwise fun t t' =>
    t.type = .winUpdate → t'.type = .winUpdate → t.winId ≠ t'.winId
  merge : ∀ t ∈ ts, t.type = .merge → t.finalize = false

/-- The workers have been assigned tasks: distinct idle workers are not ready any more. -/
structure Assigned (s s' : WlqEmitter N) (sent : List (Fin N × WTask)) : Prop where
  eosReceived : s'.eosReceived = s.eosReceived
  activatedWorker : s'.activatedWorker = s.activatedWorker
  wlqTerminated : s'.wlqTerminated = s.wlqTerminated
  nReadyWorkers : s'.nReadyWorkers = s.nReadyWorkers - sent.length
  nodup : (sent.map Prod.fst).Nodup
  idle : ∀ w ∈ sent.map Prod.fst, s.isIdle w = true
  notReady : ∀ w ∈ sent.map Prod.fst, s'.workerReady w = false
  ready : ∀ w, w ∉ sent.map Prod.fst → s'.workerReady w = s.workerReady w

/-- What the emitter has done, apart from the windows, when it has sent tasks. -/
structure SentTasks (s s' : WlqEmitter N) (sent : List (Fin N × WTask)) : Prop extends
    Assigned s s' sent where
  firstWinId : s'.firstWinId = s.firstWinId
  length : s'.descrSet.length = s.descrSet.length
  nPendingtasks : s'.nPendingtasks = s.nPendingtasks - sent.length

/-- Nothing is sent. -/
theorem SentTasks.nil (ds : List (Option WinDescr)) (hlen : ds.length = s.descrSet.length) :
    s.SentTasks { s with descrSet := ds } [] :=
  ⟨⟨rfl, rfl, rfl, rfl, List.nodup_nil, fun _ hw => absurd hw List.not_mem_nil,
    fun _ hw => absurd hw List.not_mem_nil, fun _ _ => rfl⟩, rfl, hlen, rfl⟩

/-- One task is sent to an idle worker. -/
theorem SentTasks.single {w : Fin N} (hw : s.isIdle w = true) (t : WTask)
    (ds : List (Option WinDescr)) (hlen : ds.length = s.descrSet.length) (n : Nat) :
    s.SentTasks { s with
      descrSet := ds
      nPendingtasks := s.nPendingtasks - 1
      workerReady := Function.update s.workerReady w false
      nReadyWorkers := s.nReadyWorkers - 1
      lastW := n } [(w, t)] := by
  -- one worker more is given a task, the others are as before
  refine ⟨⟨rfl, rfl, rfl, rfl, List.nodup_singleton w, ?_, ?_, ?_⟩, rfl, hlen, rfl⟩
  · intro v hv
    rw [List.mem_singleton.mp hv]
    exact hw
  · intro v hv
    rw [List.mem_singleton.mp hv]
    exact Function.update_self ..
  · intro v hv
    exact Function.update_of_ne (fun h => hv (List.mem_singleton.mpr h)) ..

/-- The workers that are idle after some tasks have been sent. -/
theorem Assigned.isIdle {s s' : WlqEmitter N} {sent : List (Fin N × WTask)}
    (h : Assigned s s' sent) (v : Fin N) :
    s'.isIdle v = (s.isIdle v && !decide (v ∈ sent.map Prod.fst)) := by
  rw [WlqEmitter.isIdle, WlqEmitter.isIdle, h.activatedWorker]
  by_cases hv : v ∈ sent.map Prod.fst
  · rw [h.notReady v hv, decide_eq_true hv]
    simp
  · rw [h.ready v hv, decide_eq_false hv]
    simp

/-- One worker is idle less. -/
theorem Assigned.getNumIdleWorkers {s s' : WlqEmitter N} {w : Fin N} {t : WTask}
    (h : Assigned s s' [(w, t)]) : s'.getNumIdleWorkers + 1 = s.getNumIdleWorkers := by
  have hmem : w ∈ Finset.univ.filter fun v => s.isIdle v = true :=
    Finset.mem_filter.mpr ⟨Finset.mem_univ w, h.idle w List.mem_cons_self⟩
  rw [getNumIdleWorkers_eq, getNumIdleWorkers_eq, ← Finset.card_erase_add_one hmem]
  congr 2
  ext v
  rw [Finset.mem_erase, Finset.mem_filter, Finset.mem_filter, h.isIdle]
  simp [and_comm]

/-- **Tasks sent after other tasks** go to other workers. -/
theorem Assigned.append {s s₁ s' : WlqEmitter N} {sent sent' : List (Fin N × WTask)}
    (h : Assigned s s₁ sent) (h' : Assigned s₁ s' sent') : Assigned s s' (sent ++ sent') := by
  -- the workers of the second part were idle after the first, so they are others
  have hidle : ∀ w ∈ sent'.map Prod.fst, s.isIdle w = true ∧ w ∉ sent.map Prod.fst := by
    intro w hw
    have hidle' := h'.idle w hw
    rw [h.isIdle, Bool.and_eq_true, Bool.not_eq_true', decide_eq_false_iff_not] at hidle'
    exact hidle'
  refine ⟨h'.eosReceived.trans h.eosReceived, h'.activatedWorker.trans h.activatedWorker,
    h'.wlqTerminated.trans h.wlqTerminated, ?_, ?_, fun w hw => ?_, fun w hw => ?_, fun w hw => ?_⟩
  · rw [h'.nReadyWorkers, h.nReadyWorkers, List.length_append]
    omega
  · rw [List.map_append]
    exact h.nodup.append h'.nodup fun w hw hw' => (hidle w hw').2 hw
  · rw [List.map_append, List.mem_append] at hw
    rcases hw with hw | hw
    · exact h.idle w hw
    · exact (hidle w hw).1
  · rw [List.map_append, List.mem_append] at hw
    by_cases hw' : w ∈ sent'.map Prod.fst
    · exact h'.notReady w hw'
    · rw [h'.ready w hw']
      exact h.notReady w (hw.resolve_right hw')
  · rw [List.map_append, List.mem_append, not_or] at hw
    rw [h'.ready w hw.2, h.ready w hw.1]

/-- Tasks sent in two parts. -/
theorem SentTasks.append {s s₁ s' : WlqEmitter N} {sent sent' : List (Fin N × WTask)}
    (h : SentTasks s s₁ sent) (h' : SentTasks s₁ s' sent') : SentTasks s s' (sent ++ sent') := by
  refine ⟨h.toAssigned.append h'.toAssigned, h'.firstWinId.trans h.firstWinId,
    h'.length.trans h.length, ?_⟩
  rw [h'.nPendingtasks, h.nPendingtasks, List.length_append]
  omega

/-- The tasks left can be scheduled after the first. -/
theorem Schedulable.tail {s s₁ : WlqEmitter N} {t : WTask} {ts : List WTask}
    (hts : s.Schedulable (t :: ts))
    (hslot : ∀ k, s₁.slot k = if k = t.winId then (s.slot k).schedule t else s.slot k) :
    s₁.Schedulable ts := by
  have hpair := List.pairwise_cons.mp hts.apart
  refine ⟨fun t' ht' hty' => ?_, hpair.2, fun t' ht' => hts.merge t' (List.mem_cons_of_mem _ ht')⟩
  -- a task behind is for another window, or for the same one, which a merge leaves opened
  obtain ⟨wd, hwd⟩ := hts.opened t' (List.mem_cons_of_mem _ ht') hty'
  rw [hslot]
  split
  · rename_i heq
    rw [hwd]
    cases hty : t.type with
    | winUpdate => exact absurd heq.symm (hpair.1 t' ht' hty hty')
    | merge => exact ⟨wd, by simp [WinSlot.schedule, hty]⟩
  · exact ⟨wd, hwd⟩

/-- **Scheduling.** As many tasks as there are idle workers can be sent. -/
theorem scheduleAll_spec {ts : List WTask} (hts : s.Schedulable ts)
    (hle : ts.length ≤ s.getNumIdleWorkers) :
    ∃ s' sent, scheduleAll ts s = .ok (s', sent) ∧ sent.map Prod.snd = ts ∧ s.SentTasks s' sent ∧
      ∀ k, s'.slot k
        = (ts.filter fun t => t.winId = k).foldl (fun slot t => slot.schedule t) (s.slot k) := by
  -- induction on the tasks, as many as idle workers at most
  induction ts generalizing s with
  | nil => exact ⟨s, [], rfl, rfl, SentTasks.nil s.descrSet rfl, fun _ => rfl⟩
  | cons t ts ih =>
      rw [List.length_cons] at hle
      obtain ⟨w, n, hw, hselect⟩ := selectIdleWorker_eq (s := s) (by omega)
      -- the worker selected is the next one in turn that is idle
      obtain ⟨s₀, hs₀⟩ : ∃ s₀ : WlqEmitter N, s₀ = { s with lastW := n } := ⟨_, rfl⟩
      have hslot₀ : ∀ k, s₀.slot k = s.slot k := fun k => by rw [hs₀]; rfl
      obtain ⟨ds, hrun, hlen, hslot⟩ := schedule_eq (s := s₀)
        (fun hty => by rw [hslot₀]; exact hts.opened t List.mem_cons_self hty)
        (hts.merge t List.mem_cons_self) w
      obtain ⟨s₁, hs₁⟩ : ∃ s₁ : WlqEmitter N, s₁ = { s₀ with
        descrSet := ds
        nPendingtasks := s₀.nPendingtasks - 1
        workerReady := Function.update s₀.workerReady w false
        nReadyWorkers := s₀.nReadyWorkers - 1 } := ⟨_, rfl⟩
      have hone : s.SentTasks s₁ [(w, t)] := by
        rw [hs₁, hs₀]
        refine SentTasks.single hw t ds ?_ n
        rw [hlen, hs₀]
      have hslot₁ : ∀ k, s₁.slot k = if k = t.winId then (s.slot k).schedule t else s.slot k := by
        intro k
        rw [← hslot₀ k, hs₁]
        exact hslot k
      have hcard := hone.toAssigned.getNumIdleWorkers
      obtain ⟨s', sent, hrest, hsnd, hsent, hslot'⟩ := ih (hts.tail hslot₁) (by omega)
      refine ⟨s', (w, t) :: sent, ?_, by rw [List.map_cons, hsnd], hone.append hsent, fun k => ?_⟩
      · simp only [scheduleAll, hselect]
        rw [← hs₀, hrun]
        simp only [bind, Except.bind]
        rw [← hs₁, hrest]
      -- the tasks of a window act on its slot in the order they are sent
      · rw [hslot', hslot₁, List.filter_cons]
        by_cases hk : k = t.winId
        · rw [if_pos hk, if_pos (by simp [hk])]
          rfl
        · rw [if_neg hk, if_neg (by simp [Ne.symm hk])]

end WlqEmitter

/-! ## What a window sees -/

/-- A `WIN_UPDATE` task of the window is found and scheduled, or none. -/
inductive UpdateMove : WinSlot → List WTask → WinSlot → Prop
  /-- No task. -/
  | stay (slot : WinSlot) : UpdateMove slot [] slot
  /-- One task; the window is finalized if the task finalizes it. -/
  | update {wd : WinDescr} {p : Addr} {q : List Addr} (hb : wd.isBusy = false)
      (hq : wd.pendingQueue = p :: q) :
      UpdateMove (.opened wd) [⟨.winUpdate, .win wd.id, some p, wd.id, wd.toFinalize⟩]
        (if wd.toFinalize then .finalized
          else .opened { wd with pendingQueue := q, isBusy := true })

/-- A `MERGE` task of the window is found and scheduled, or none. -/
inductive MergeMove : WinSlot → List WTask → WinSlot → Prop
  /-- No task. -/
  | stay (slot : WinSlot) : MergeMove slot [] slot
  /-- One task. -/
  | merge {wd : WinDescr} {p1 p2 : Addr} {q : List Addr} (hq : wd.pendingQueue = p1 :: p2 :: q) :
      MergeMove (.opened wd) [⟨.merge, p1, some p2, wd.id, false⟩]
        (.opened { wd with pendingQueue := q })

/-- The tasks of a window that are found and scheduled at one moment. -/
def DispatchMove (slot : WinSlot) (ts : List WTask) (slot' : WinSlot) : Prop :=
  ∃ us slot₁ ms, UpdateMove slot us slot₁ ∧ MergeMove slot₁ ms slot' ∧ ts = us ++ ms

/-- A finalizing task takes the last results set that is pending. -/
def LastPending (slot : WinSlot) : Prop :=
  ∀ wd, slot = .opened wd → wd.isBusy = false → wd.toFinalize = true →
    wd.pendingQueue.length ≤ 1

/-- What is found in a window by the two passes and then scheduled is a move of the window. -/
theorem dispatchMove_of_picks {slot slot₁ slot₂ : WinSlot} {us ms : List WTask}
    (hlast : LastPending slot)
    (hus : (us = [] ∧ slot₁ = slot) ∨ ∃ wd t wd', slot = .opened wd ∧ PickUpdate wd t wd' ∧
      us = [t] ∧ slot₁ = .opened wd')
    (hms : (ms = [] ∧ slot₂ = slot₁) ∨ ∃ wd t wd', slot₁ = .opened wd ∧ PickMerge wd t wd' ∧
      ms = [t] ∧ slot₂ = .opened wd') :
    DispatchMove slot (us ++ ms) ((us ++ ms).foldl (fun slot t => slot.schedule t) slot₂) := by
  -- at most one update of the window, then at most one merge
  rcases hus with ⟨rfl, rfl⟩ | ⟨wd, t, wd', rfl, ⟨hb, p, q, hq, rfl, rfl⟩, rfl, rfl⟩
  · refine ⟨[], slot₁, ms, UpdateMove.stay _, ?_, rfl⟩
    rcases hms with ⟨rfl, rfl⟩ | ⟨wd, t, wd', rfl, ⟨p1, p2, q, hq, rfl, rfl⟩, rfl, rfl⟩
    · exact MergeMove.stay _
    · exact MergeMove.merge hq
  · refine ⟨_, _, ms, UpdateMove.update hb hq, ?_, rfl⟩
    rcases hms with ⟨rfl, rfl⟩ | ⟨wd₁, t, wd', hwd₁, ⟨p1, p2, q', hq', rfl, rfl⟩, rfl, rfl⟩
    · exact MergeMove.stay _
    · cases hwd₁
      replace hq' : q = p1 :: p2 :: q' := hq'
      subst hq'
      -- the last pending set is not merged, it is what finalizes the window
      cases hf : wd.toFinalize with
      | true =>
          have := hlast wd rfl hb hf
          rw [hq] at this
          simp at this
      | false =>
          obtain ⟨wd', hwd'⟩ : ∃ wd', wd' = { wd with
            pendingQueue := p1 :: p2 :: q', isBusy := true } := ⟨_, rfl⟩
          have hq' : wd'.pendingQueue = p1 :: p2 :: q' := by rw [hwd']
          have hmove := MergeMove.merge hq'
          rw [hwd'] at hmove
          exact hmove

namespace WlqEmitter

variable {N : Nat} {s : WlqEmitter N}

/-- **Finding tasks.** What `getWTasksToSchedule` finds can be scheduled, and that is a move of each
window; it finds a task if there is a window that is not busy and has a results set pending. -/
theorem getWTasksToSchedule_spec (hid : Labelled s.firstWinId s.descrSet)
    (hlast : ∀ k, LastPending (s.slot k)) (n : Nat) :
    ∃ ts ds, s.getWTasksToSchedule n = (ts, { s with descrSet := ds }) ∧
      ds.length = s.descrSet.length ∧ ts.length ≤ n ∧
      Schedulable { s with descrSet := ds } ts ∧
      (∀ k, DispatchMove (s.slot k) (ts.filter fun t => t.winId = k)
        ((ts.filter fun t => t.winId = k).foldl (fun slot t => slot.schedule t)
          (slotAt s.firstWinId ds k))) ∧
      (0 < n → ∀ k wd, s.slot k = .opened wd → wd.isBusy = false → wd.pendingQueue ≠ [] →
        ts ≠ []) := by
  obtain ⟨hpu, hnu⟩ := findUpdates_picks n s.descrSet
  have hne : 0 < n → ∀ k wd, s.slot k = .opened wd → wd.isBusy = false → wd.pendingQueue ≠ [] →
      (findUpdates n s.descrSet).1 ≠ [] := by
    intro hn k wd hwd hb hq
    obtain ⟨m, rfl⟩ : ∃ m, n = m + 1 := ⟨n - 1, by omega⟩
    exact findUpdates_ne_nil (List.mem_of_getElem? (getElem?_of_slotAt hwd).2) hb hq
  have hrun : s.getWTasksToSchedule n = ((findUpdates n s.descrSet).1 ++
      (findMerges (findUpdates n s.descrSet).2.1 (findUpdates n s.descrSet).2.2).1,
      { s with descrSet :=
        (findMerges (findUpdates n s.descrSet).2.1 (findUpdates n s.descrSet).2.2).2 }) := rfl
  obtain ⟨⟨us, m, ds₁⟩, hfind⟩ : ∃ x, x = findUpdates n s.descrSet := ⟨_, rfl⟩
  rw [← hfind] at hpu hnu hne hrun
  obtain ⟨hpm, hnm⟩ := findMerges_picks m ds₁
  obtain ⟨⟨ms, ds⟩, hfind'⟩ : ∃ x, x = findMerges m ds₁ := ⟨_, rfl⟩
  simp only [← hfind'] at hpm hnm hrun
  have hwu : ∀ wd t wd', PickUpdate wd t wd' → t.winId = wd.id := by
    rintro wd t wd' ⟨-, p, q, -, rfl, -⟩
    rfl
  have hwm : ∀ wd t wd', PickMerge wd t wd' → t.winId = wd.id := by
    rintro wd t wd' ⟨p1, p2, q, -, rfl, -⟩
    rfl
  -- what each phase does to one window
  have hu := hpu.window hwu hid
  have hid₁ : Labelled s.firstWinId ds₁ := by
    intro k wd hwd
    rcases hu k with ⟨-, hsame⟩ | ⟨wd', t, wd'', hwd', ⟨-, p, q, -, -, rfl⟩, -, hnew⟩
    · exact hid k wd (hsame ▸ hwd)
    · have heq := hnew.symm.trans hwd
      cases heq
      exact hid k wd' hwd'
  have hm := hpm.window hwm hid₁
  have htype : (∀ t ∈ us, t.type = .winUpdate) ∧ ∀ t ∈ ms, t.type = .merge ∧ t.finalize = false := by
    constructor
    · intro t ht
      obtain ⟨wd, wd', -, p, q, -, rfl, -⟩ := hpu.mem ht
      rfl
    · intro t ht
      obtain ⟨wd, wd', p1, p2, q, -, rfl, -⟩ := hpm.mem ht
      exact ⟨rfl, rfl⟩
  refine ⟨us ++ ms, ds, hrun, hpm.length_eq.trans hpu.length_eq, ?_, ⟨?_, ?_, ?_⟩, ?_, ?_⟩
  · rw [List.length_append]
    have hnu' : us.length + m = n := hnu
    omega
  · -- the windows of the `WIN_UPDATE` tasks are still open after phase 2
    intro t ht hty
    rcases List.mem_append.mp ht with ht | ht
    · have hopen : ∃ wd, slotAt s.firstWinId ds₁ t.winId = .opened wd := by
        rcases hu t.winId with ⟨hnil, -⟩ | ⟨wd, t', wd', -, -, -, hnew⟩
        · exact absurd (decide_eq_true rfl) (List.filter_eq_nil_iff.mp hnil t ht)
        · exact ⟨wd', hnew⟩
      obtain ⟨wd, hwd⟩ := hopen
      rcases hm t.winId with ⟨-, hsame⟩ | ⟨wd₁, t', wd', -, -, -, hnew⟩
      · exact ⟨wd, hsame.trans hwd⟩
      · exact ⟨wd', hnew⟩
    · rw [(htype.2 t ht).1] at hty
      cases hty
  · -- the tasks of phase 1 belong to distinct windows, and phase 2 finds no `WIN_UPDATE` task
    refine List.pairwise_append.mpr ⟨?_, ?_, ?_⟩
    · exact (hpu.sorted hwu hid).2.imp fun hlt _ _ => Nat.ne_of_lt hlt
    · refine List.Pairwise.imp_of_mem ?_ (hpm.sorted hwm hid₁).2
      intro t t' ht _ _ hty
      rw [(htype.2 t ht).1] at hty
      cases hty
    · intro t _ t' ht' _ hty
      rw [(htype.2 t' ht').1] at hty
      cases hty
  · intro t ht hty
    rcases List.mem_append.mp ht with ht | ht
    · rw [htype.1 t ht] at hty
      cases hty
    · exact (htype.2 t ht).2
  · intro k
    rw [List.filter_append]
    exact dispatchMove_of_picks (hlast k) (hu k) (hm k)
  · intro hn k wd hwd hb hq hnil
    exact hne hn k wd hwd hb hq (List.append_eq_nil_iff.mp hnil).1

end WlqEmitter

end ElasticPPQ
