import ElasticPPQ.Plq.Objects

/-! # The strategies multicast with the right counters

Whatever a method of a strategy sends is made of whole multicasts and of single messages, in the state
it is called in. -/

namespace ElasticPPQ

open Sends

variable {N DIM : Nat}

namespace Sched

/-- The news of a pane are one object. -/
theorem multicastNewinstToW_eq {ws : List (Fin N)} {p n : Nat} {s : Sched N} {out : Sends N DIM}
    (h : s.multicastNewinstToW ws p n = some out) :
    out = ws.map fun w => (w, Tuple.createNewinst p n ws.length) := by
  unfold multicastNewinstToW at h
  split at h
  · exact (Option.some.inj h).symm
  · cases h

/-- The news of a pane, before a message for one worker. -/
theorem multicasts_news {ws : List (Fin N)} {p n : Nat} {s : Sched N} {news : Sends N DIM}
    (h : s.multicastNewinstToW ws p n = some news) (w : Fin N) {m : Tuple DIM}
    (hm : m.type.shared = false) {out : Sends N DIM} (hout : Multicasts out) :
    Multicasts (news ++ (w, m) :: out) := by
  rw [multicastNewinstToW_eq h]
  refine Multicasts.multicast ws rfl rfl (Multicasts.single w hm hout) fun x hx => ?_
  obtain rfl : (w, m) = x := Option.some.inj hx
  rintro rfl
  cases hm

/-- The flush of the removed workers, before messages of other types. -/
theorem multicasts_flush {num : Nat} {ws : List (Fin N)} {s s' : Sched N} {flush : Sends N DIM}
    (h : s.deactivateAndFlush num ws = some (s', flush)) {out : Sends N DIM}
    (hout : Multicasts out) (hno : ∀ x ∈ out, x.2.type ≠ .flush) : Multicasts (flush ++ out) := by
  unfold deactivateAndFlush at h
  obtain ⟨active, -, h⟩ := Option.bind_eq_some_iff.mp h
  obtain ⟨flush', hflush, h⟩ := Option.bind_eq_some_iff.mp h
  obtain ⟨-, rfl⟩ := Prod.mk.inj (Option.some.inj h)
  unfold multicastFlushToW at hflush
  -- the flush is one object; what follows is no flush, so it is another one
  split at hflush
  · cases hflush
  · obtain rfl := Option.some.inj hflush
    refine Multicasts.multicast ws rfl rfl hout fun x hx => ?_
    intro hxm
    apply hno x (List.mem_of_mem_head? hx)
    rw [hxm]
    rfl

end Sched

/-- What the loops of `removeWorkers` send. -/
structure Reassigns (out : Sends N DIM) : Prop where
  multicasts : Multicasts out
  noFlush : ∀ x ∈ out, x.2.type ≠ .flush

/-- Nothing is sent. -/
theorem Reassigns.nil : Reassigns ([] : Sends N DIM) :=
  ⟨Multicasts.nil, fun _ hx => absurd hx List.not_mem_nil⟩

/-- A pane gets another partition. -/
theorem Reassigns.emptypane (w : Fin N) (p n : Nat) {out : Sends N DIM} (h : Reassigns out) :
    Reassigns ((w, Tuple.createEmptypane p n) :: out) where
  multicasts := Multicasts.single w rfl h.multicasts
  noFlush := by
    intro x hx
    rcases List.mem_cons.mp hx with rfl | hx
    · exact TypeMsg.noConfusion
    · exact h.noFlush x hx

/-- The kept holders are told about it. -/
theorem Reassigns.news {ws : List (Fin N)} {p n : Nat} {s : Sched N} {news : Sends N DIM}
    (hnews : s.multicastNewinstToW ws p n = some news) (w : Fin N) {out : Sends N DIM}
    (h : Reassigns out) : Reassigns (news ++ (w, Tuple.createEmptypane p n) :: out) where
  multicasts := Sched.multicasts_news hnews w rfl h.multicasts
  noFlush := by
    intro x hx
    rcases List.mem_append.mp hx with hx | hx
    · rw [Sched.multicastNewinstToW_eq hnews] at hx
      obtain ⟨v, -, rfl⟩ := List.mem_map.mp hx
      exact TypeMsg.noConfusion
    · exact (h.emptypane w p n).noFlush x hx

/-- A tuple keeps its type. -/
theorem shared_regular {t : Tuple DIM} (ht : t.type = .regular) (n : Nat) :
    ({ t with noInstances := n } : Tuple DIM).type.shared = false := by
  show t.type.shared = false
  rw [ht]
  rfl

/-! ## Pane-based round-robin -/

namespace PbRrSched

variable {s s' : PbRrSched N} {out : Sends N DIM}

/-- What `PB_RR_Sched` sends for a tuple. -/
theorem schedToWorker_multicasts {t : Tuple DIM} (ht : t.type = .regular)
    (h : s.schedToWorker t = some (s', out)) : Multicasts out := by
  unfold schedToWorker at h
  dsimp only at h
  split at h
  · obtain ⟨⟨w, base⟩, -, h⟩ := Option.bind_eq_some_iff.mp h
    obtain ⟨-, rfl⟩ := Prod.mk.inj (Option.some.inj h)
    exact Multicasts.single w (shared_regular ht _) Multicasts.nil
  · obtain ⟨-, rfl⟩ := Prod.mk.inj (Option.some.inj h)
    exact Multicasts.single _ (shared_regular ht _) Multicasts.nil

/-- What it sends for the panes of the workers removed. -/
theorem reassign_reassigns {ws : List (Fin N)} {p n : Nat}
    (h : reassign ws p n s = some (s', out)) : Reassigns out := by
  -- induction on the panes; each one is reassigned with an `EMPTYPANE`, or left alone
  induction n generalizing p s s' out with
  | zero =>
      obtain ⟨-, rfl⟩ := Prod.mk.inj (Option.some.inj h)
      exact Reassigns.nil
  | succ n ih =>
      rw [reassign] at h
      dsimp only at h
      split at h
      · obtain ⟨⟨w, base⟩, -, h⟩ := Option.bind_eq_some_iff.mp h
        obtain ⟨⟨s₁, out₁⟩, h₁, h⟩ := Option.bind_eq_some_iff.mp h
        obtain ⟨-, rfl⟩ := Prod.mk.inj (Option.some.inj h₁)
        obtain ⟨⟨s₂, outs⟩, h₂, h⟩ := Option.bind_eq_some_iff.mp h
        obtain ⟨-, rfl⟩ := Prod.mk.inj (Option.some.inj h)
        exact (ih h₂).emptypane w p _
      · obtain ⟨⟨s₁, out₁⟩, h₁, h⟩ := Option.bind_eq_some_iff.mp h
        obtain ⟨-, rfl⟩ := Prod.mk.inj (Option.some.inj h₁)
        obtain ⟨⟨s₂, outs⟩, h₂, h⟩ := Option.bind_eq_some_iff.mp h
        obtain ⟨-, rfl⟩ := Prod.mk.inj (Option.some.inj h)
        exact ih h₂

/-- What it sends for a removal. -/
theorem removeWorkers_multicasts {num : Nat} {ws : List (Fin N)}
    (h : s.removeWorkers num ws = some (s', out)) : Multicasts out := by
  unfold removeWorkers at h
  obtain ⟨⟨base, flush⟩, hflush, h⟩ := Option.bind_eq_some_iff.mp h
  obtain ⟨⟨s₁, outs⟩, houts, h⟩ := Option.bind_eq_some_iff.mp h
  obtain ⟨-, rfl⟩ := Prod.mk.inj (Option.some.inj h)
  have hre := reassign_reassigns houts
  exact Sched.multicasts_flush hflush hre.multicasts hre.noFlush

end PbRrSched

/-! ## Tuple-based round-robin -/

namespace TbRrSched

variable {s s' : TbRrSched N} {out : Sends N DIM}

/-- What `TB_RR_Sched` sends for a tuple. -/
theorem schedToWorker_multicasts {t : Tuple DIM} (ht : t.type = .regular)
    (h : s.schedToWorker t = some (s', out)) : Multicasts out := by
  unfold schedToWorker at h
  dsimp only at h
  obtain ⟨⟨w, base⟩, -, h⟩ := Option.bind_eq_some_iff.mp h
  dsimp only at h
  split at h
  · obtain ⟨⟨s₁, news⟩, h₁, h⟩ := Option.bind_eq_some_iff.mp h
    obtain ⟨-, rfl⟩ := Prod.mk.inj (Option.some.inj h₁)
    obtain ⟨-, rfl⟩ := Prod.mk.inj (Option.some.inj h)
    exact Multicasts.single w (shared_regular ht _) Multicasts.nil
  · obtain ⟨news, hnews, h⟩ := Option.bind_eq_some_iff.mp h
    obtain ⟨-, rfl⟩ := Prod.mk.inj (Option.some.inj h)
    exact Sched.multicasts_news hnews w (shared_regular ht _) Multicasts.nil

/-- What it sends for the panes of the tables. -/
theorem reassign_reassigns {p n : Nat} (h : reassign p n s = some (s', out)) : Reassigns out := by
  -- induction on the panes; each one is given to another worker, or left alone
  induction n generalizing p s s' out with
  | zero =>
      obtain ⟨-, rfl⟩ := Prod.mk.inj (Option.some.inj h)
      exact Reassigns.nil
  | succ n ih =>
      rw [reassign] at h
      dsimp only at h
      split at h
      · obtain ⟨⟨w, base⟩, -, h⟩ := Option.bind_eq_some_iff.mp h
        obtain ⟨⟨s₁, out₁⟩, h₁, h⟩ := Option.bind_eq_some_iff.mp h
        obtain ⟨-, rfl⟩ := Prod.mk.inj (Option.some.inj h₁)
        obtain ⟨⟨s₂, outs⟩, h₂, h⟩ := Option.bind_eq_some_iff.mp h
        obtain ⟨-, rfl⟩ := Prod.mk.inj (Option.some.inj h)
        exact (ih h₂).emptypane w p _
      · obtain ⟨⟨s₁, out₁⟩, h₁, h⟩ := Option.bind_eq_some_iff.mp h
        obtain ⟨-, rfl⟩ := Prod.mk.inj (Option.some.inj h₁)
        obtain ⟨⟨s₂, outs⟩, h₂, h⟩ := Option.bind_eq_some_iff.mp h
        obtain ⟨-, rfl⟩ := Prod.mk.inj (Option.some.inj h)
        exact ih h₂

/-- What it sends for a removal. -/
theorem removeWorkers_multicasts {num : Nat} {ws : List (Fin N)}
    (h : s.removeWorkers num ws = some (s', out)) : Multicasts out := by
  unfold removeWorkers at h
  obtain ⟨⟨base, flush⟩, hflush, h⟩ := Option.bind_eq_some_iff.mp h
  obtain ⟨⟨s₁, outs⟩, houts, h⟩ := Option.bind_eq_some_iff.mp h
  obtain ⟨-, rfl⟩ := Prod.mk.inj (Option.some.inj h)
  have hre := reassign_reassigns houts
  exact Sched.multicasts_flush hflush hre.multicasts hre.noFlush

end TbRrSched

/-! ## Adaptive scheduling -/

namespace AdaptiveSched

variable {s s' : AdaptiveSched N} {env : AdaptiveEnv N} {out : Sends N DIM}

/-- What `Adaptive_Sched` sends for a tuple. -/
theorem schedToWorker_multicasts {t : Tuple DIM} (ht : t.type = .regular)
    (h : s.schedToWorker env t = some (s', out)) : Multicasts out := by
  have hone : ∀ {w : Fin N} {n : Nat}, Multicasts [(w, ({ t with noInstances := n } : Tuple DIM))] :=
    fun {w n} => Multicasts.single w (shared_regular ht n) Multicasts.nil
  unfold schedToWorker at h
  dsimp only at h
  -- the branches of the method: first tuple, below the threshold, and above it
  split at h
  · obtain ⟨⟨w, base⟩, -, h⟩ := Option.bind_eq_some_iff.mp h
    obtain ⟨-, rfl⟩ := Prod.mk.inj (Option.some.inj h)
    exact hone
  · split at h
    · obtain ⟨w, -, h⟩ := Option.bind_eq_some_iff.mp h
      obtain ⟨-, rfl⟩ := Prod.mk.inj (Option.some.inj h)
      exact hone
    · obtain ⟨⟨w, base⟩, -, h⟩ := Option.bind_eq_some_iff.mp h
      dsimp only at h
      -- the least loaded worker holds the pane, or the pane is split
      split at h
      · obtain ⟨-, rfl⟩ := Prod.mk.inj (Option.some.inj h)
        exact hone
      · obtain ⟨news, hnews, h⟩ := Option.bind_eq_some_iff.mp h
        obtain ⟨-, rfl⟩ := Prod.mk.inj (Option.some.inj h)
        exact Sched.multicasts_news hnews w (shared_regular ht _) Multicasts.nil

/-- One pane, before what is sent for the other ones. -/
theorem reassignPane_reassigns {p : Nat} (h : reassignPane env p s = some (s', out))
    {outs : Sends N DIM} (houts : Reassigns outs) : Reassigns (out ++ outs) := by
  unfold reassignPane at h
  dsimp only at h
  split at h
  · obtain ⟨⟨w, base⟩, -, h⟩ := Option.bind_eq_some_iff.mp h
    dsimp only at h
    -- the pane goes back to a worker that has held it, or is split
    split at h
    · obtain ⟨-, rfl⟩ := Prod.mk.inj (Option.some.inj h)
      exact houts
    · obtain ⟨news, hnews, h⟩ := Option.bind_eq_some_iff.mp h
      obtain ⟨-, rfl⟩ := Prod.mk.inj (Option.some.inj h)
      rw [List.append_assoc]
      exact Reassigns.news hnews w houts
  · obtain ⟨-, rfl⟩ := Prod.mk.inj (Option.some.inj h)
    exact houts

/-- What it sends for the panes that it visits. -/
theorem reassign_reassigns {p n : Nat} (h : reassign env p n s = some (s', out)) :
    Reassigns out := by
  induction n generalizing p s s' out with
  | zero =>
      obtain ⟨-, rfl⟩ := Prod.mk.inj (Option.some.inj h)
      exact Reassigns.nil
  | succ n ih =>
      rw [reassign] at h
      obtain ⟨⟨s₁, out₁⟩, h₁, h⟩ := Option.bind_eq_some_iff.mp h
      obtain ⟨⟨s₂, outs⟩, h₂, h⟩ := Option.bind_eq_some_iff.mp h
      obtain ⟨-, rfl⟩ := Prod.mk.inj (Option.some.inj h)
      exact reassignPane_reassigns h₁ (ih h₂)

/-- What it sends for a removal. -/
theorem removeWorkers_multicasts {num : Nat} {ws : List (Fin N)}
    (h : s.removeWorkers env num ws = some (s', out)) : Multicasts out := by
  unfold removeWorkers at h
  obtain ⟨⟨base, flush⟩, hflush, h⟩ := Option.bind_eq_some_iff.mp h
  obtain ⟨⟨s₁, outs⟩, houts, h⟩ := Option.bind_eq_some_iff.mp h
  obtain ⟨-, rfl⟩ := Prod.mk.inj (Option.some.inj h)
  have hre := reassign_reassigns houts
  exact Sched.multicasts_flush hflush hre.multicasts hre.noFlush

end AdaptiveSched

/-- The two methods of a strategy that multicast `NEW_INST` and `FLUSH` messages. -/
structure Strategy.Multicasting (S : Strategy N DIM) : Prop where
  schedToWorker : ∀ {env t s s' out}, t.type = .regular →
    S.schedToWorker env t s = some (s', out) → Multicasts out
  removeWorkers : ∀ {env num ws s s' out}, S.removeWorkers env num ws s = some (s', out) →
    Multicasts out

/-- Pane-based round-robin sends each object to as many workers as it says. -/
theorem PbRrSched.multicasting (N DIM : Nat) : (PbRrSched.strategy N DIM).Multicasting :=
  ⟨PbRrSched.schedToWorker_multicasts, PbRrSched.removeWorkers_multicasts⟩

/-- So does tuple-based round-robin. -/
theorem TbRrSched.multicasting (N DIM : Nat) : (TbRrSched.strategy N DIM).Multicasting :=
  ⟨TbRrSched.schedToWorker_multicasts, TbRrSched.removeWorkers_multicasts⟩

/-- So does adaptive scheduling. -/
theorem AdaptiveSched.multicasting (N DIM : Nat) : (AdaptiveSched.strategy N DIM).Multicasting :=
  ⟨AdaptiveSched.schedToWorker_multicasts, AdaptiveSched.removeWorkers_multicasts⟩

end ElasticPPQ
