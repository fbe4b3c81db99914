import ElasticPPQ.Plq.Handling

/-! # Without removals

Only a removal gives a pane a partition before its first tuple. In a stage from which no worker has been
removed the partitions of the non-closed panes have all been opened by tuples (`PlqState.Filled`), so
that every strategy finds what it needs at each event (`PlqState.Filled.stepOk`). -/

namespace ElasticPPQ

open FifoNet

variable {N DIM : Nat}

/-! ## Counts that stay -/

namespace Ledger

variable {iop : Bool} {L L' : Ledger N} {l : Sends N DIM} {p : Nat}

/-- The messages may open partitions of pane `p`. -/
def Opens (p : Nat) (l : Sends N DIM) : Prop :=
  ∃ x ∈ l, (x.2.type = .regular ∨ x.2.type = .emptyPane) ∧ x.2.paneId = p

/-- A pane that is not closed keeps its count unless a message opens a partition. -/
theorem Move.count_of_not_opens (h : Move iop L l L') (hp : L'.next ≤ p) (hl : ¬ Opens p l) :
    L'.count p = L.count p := by
  cases h with
  | feed w t ht hp' hw => rfl
  | split ws w t ht hp' hws hw ha hn =>
      refine split_count_of_ne L w fun heq => hl ⟨(w, t), ?_, ht, heq.symm⟩
      exact List.mem_append_right _ (List.mem_singleton_self _)
  | retire ws hws => rfl
  | close pId ts nw lulls hp' hnodup hlulls hheld =>
      have hp : pId ≤ p := hp
      exact if_neg fun hc => absurd hc.2.1 (Nat.not_lt.mpr hp)
  | activate ws => rfl

/-- A pane that no message opens keeps its number of partitions. -/
theorem Moves.count_of_not_opens (h : Moves iop L l L') (hp : L'.next ≤ p) (hl : ¬ Opens p l) :
    L'.count p = L.count p := by
  induction h with
  | refl => rfl
  | tail hms hm ih =>
      have hnext := hm.count_of_lt.1
      rw [hm.count_of_not_opens hp fun ⟨x, hx, ho⟩ => hl ⟨x, List.mem_append_right _ hx, ho⟩]
      exact ih (hnext.trans hp) fun ⟨x, hx, ho⟩ => hl ⟨x, List.mem_append_left _ hx, ho⟩

/-- So it does where the moves are followed by a tuple. -/
theorem Route.count_of_not_opens (h : Route L l L') (hp : L'.next ≤ p) (hl : ¬ Opens p l) :
    L'.count p = L.count p := by
  cases h with
  | moves h => exact h.count_of_not_opens hp hl
  | reopen w t n ht hp' ha hn =>
      refine deliver_count_of_ne L w n fun heq => hl ⟨(w, t), ?_, Or.inl ht, heq.symm⟩
      exact List.mem_singleton_self _
  | close _ ts nw lulls hp' hactive hholders hcount hlulls hall => exact hcount p hp

end Ledger

/-! ## Panes with partitions have tuples -/

namespace Sched

variable {s s' : Sched N} {held held' : Nat → List (Fin N)} {out : Sends N DIM}

/-- A pane that is not closed has partitions only if it has tuples. -/
def Filled (s : Sched N) : Prop := ∀ p, s.nextPaneId ≤ p → s.size p = 0 → s.instances p = 0

/-- Scheduling a tuple opens partitions of its own pane only, which has a tuple then. -/
theorem Scheduled.filled {ok : Prop} {t : Tuple DIM}
    (h : Scheduled false ok t held held' s s' out) (hs : s.Filled) : s'.Filled := by
  intro p hp hz
  have hne : p ≠ t.paneId := by
    rintro rfl
    rw [h.size, if_pos rfl] at hz
    exact Nat.succ_ne_zero _ hz
  rw [h.size, if_neg hne] at hz
  have hcount := (h.route rfl).count_of_not_opens (p := p) hp (by
    obtain ⟨news, w, n, rfl, hnews⟩ := h.sent
    rintro ⟨x, hx, hty, rfl⟩
    rcases List.mem_append.mp hx with hx | hx
    · -- the other messages are about the new count
      rw [hnews x hx] at hty
      rcases hty with hty | hty <;> cases hty
    · exact hne (congrArg (fun x => x.2.paneId) (List.mem_singleton.mp hx)))
  rw [h.nextPaneId] at hp
  exact hcount.trans (hs p hp hz)

/-- Closing panes opens partitions of closed panes only. -/
theorem Progressed.filled {iop : Bool} {pId : Nat} (h : Progressed iop held pId s s' out)
    (hs : s.Filled) : s'.Filled := by
  intro p hp hz
  rw [h.size] at hz
  rw [h.instances p hp]
  have hle : s.nextPaneId ≤ p := by
    rw [h.nextPaneId] at hp
    exact (le_max_left _ _).trans hp
  exact hs p hle hz

end Sched

/-- The event removes workers. -/
def PlqEvent.Removes {S : Strategy N DIM} : PlqEvent S → Prop
  | .remove _ _ => True
  | _ => False

instance PlqEvent.decidableRemoves {S : Strategy N DIM} : (e : PlqEvent S) → Decidable e.Removes
  | .remove _ _ => isTrue trivial
  | .tuple _ _ | .progress _ _ _ | .add _ | .finish | .worker _ => isFalse not_false

namespace PlqState

variable {S : Strategy N DIM} {R : Type} [PrefQuery (Row ℚ DIM) R] {c : PlqParams}
  {Rf : S.Refinement} {σ σ' : PlqState S R}

omit [PrefQuery (Row ℚ DIM) R] in
/-- The tables as constructed are empty. -/
theorem init_filled (Rf : S.Refinement) (nw : Nat) : (S.base (init S R nw).sched).Filled := by
  intro p _ _
  show (S.base (S.new nw)).instances p = 0
  rw [Rf.base_new]
  rfl

/-- **Every event but a removal** keeps panes without tuples free from partitions. -/
theorem Handled.filled (h : σ.Handled c Rf) (hi : c.iop = false) {e : PlqEvent S}
    (he : σ.Enabled c e) (hno : ¬ e.Removes) (hσ : σ.exec c e = some σ')
    (hf : (S.base σ.sched).Filled) : (S.base σ'.sched).Filled := by
  have hready := h.ready hi
  -- in filled tables an open pane with a partition has had a tuple; only a removal breaks this
  cases e with
  | tuple env t =>
      obtain ⟨hend, hty, hp⟩ := he
      rw [hi, if_neg Bool.false_ne_true] at hp
      obtain ⟨s', out, hrun, -, hsch⟩ := hready.scheduleOop hi hend env hty hp
      rw [exec, hrun] at hσ
      obtain rfl := Option.some.inj hσ
      rw [hi] at hsch
      exact hsch.filled hf
  | progress env ts pId =>
      obtain ⟨s', out, hrun, -, -, hpr⟩ :=
        Rf.executeStreamProgress hready.inv hready.hasActive env c.iop ts pId
      rw [exec, hrun] at hσ
      obtain rfl := Option.some.inj hσ
      exact hpr.filled hf
  | add ws =>
      obtain ⟨s', hrun, -, -, hbase⟩ := Rf.addWorkers hready.inv he.2.1 he.2.2 ws.length
      rw [exec, hrun] at hσ
      obtain rfl := Option.some.inj hσ
      show (S.base s').Filled
      rw [hbase]
      exact hf
  | remove env ws => exact absurd trivial hno
  | finish =>
      obtain ⟨s', hrun, -, -, hbase⟩ := @Strategy.Refinement.broadcastEndToW N DIM S Rf _ hready.inv
      obtain rfl := Option.some.inj hσ
      show (S.base (S.broadcastEndToW σ.sched).1).Filled
      rw [hrun, hbase]
      exact hf
  | worker w =>
      rcases exec_worker hσ with ⟨-, rfl⟩ | ⟨m, ms, y, -, -, rfl⟩
      · exact hf
      · exact hf

/-- **Each strategy finds what it needs.** -/
theorem Handled.stepOk (h : σ.Handled c Rf) (hi : c.iop = false) (hf : (S.base σ.sched).Filled)
    {e : PlqEvent S} (he : σ.Enabled c e) : σ.StepOk Rf e := by
  cases e with
  | tuple env t =>
      have hp := he.2.2
      rw [hi, if_neg Bool.false_ne_true] at hp
      exact Rf.firstOk h.inv hp (hf t.paneId hp) env
  | progress env ts pId => exact fun p hp _ hz => hf p hp hz
  | _ => exact trivial

end PlqState

end ElasticPPQ
