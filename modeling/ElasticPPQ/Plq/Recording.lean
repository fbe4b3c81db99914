import ElasticPPQ.Plq.Conservation

/-! # A stage is the image of the recording one

The query that records everything (`Build`) decides nothing: neither the workers nor the emitter look
into the containers of the results sets. The run of a stage with another query is the image of the
run of the recording stage under `Build.eval`, so that what is known of the recorded tuples is known
of the containers. -/

namespace ElasticPPQ

open FifoNet

variable {N DIM : Nat} (R : Type) [PrefQuery (Row ℚ DIM) R]

namespace Rset

/-- The results set with the container that the query computes. -/
def eval (r : Rset (Build (Row ℚ DIM))) : Rset R := r.map (Build.eval R)

/-- An evaluated results set is one of the same pane. -/
@[simp] theorem eval_id (r : Rset (Build (Row ℚ DIM))) : (r.eval R).id = r.id := rfl

/-- An evaluated results set has the same number of partitions. -/
@[simp] theorem eval_noInstances (r : Rset (Build (Row ℚ DIM))) :
    (r.eval R).noInstances = r.noInstances := rfl

end Rset

namespace PlqWorker

/-- The worker with the containers that the query computes. -/
def eval (w : PlqWorker (Build (Row ℚ DIM))) : PlqWorker R :=
  ⟨w.paneSet.map (Rset.eval R), w.allocs⟩

variable (w : PlqWorker (Build (Row ℚ DIM))) (t : Tuple DIM)

/-- The panes before a pane do not depend on the query. -/
theorem before_eval (p : Nat) : (w.eval R).before p = (w.before p).map (Rset.eval R) :=
  List.takeWhile_map ..

/-- Neither do those from a pane on. -/
theorem lowerBound_eval (p : Nat) : (w.eval R).lowerBound p = (w.lowerBound p).map (Rset.eval R) :=
  List.dropWhile_map ..

/-- A tuple is recorded, then evaluated, or evaluated right away. -/
theorem compute_eval (r : Rset (Build (Row ℚ DIM))) :
    compute (r.eval R) t = (compute r t).eval R := by
  unfold compute
  split <;> rfl

/-- The numbers of partitions are set alike. -/
theorem setInstances_eval : (w.eval R).setInstances t = (w.setInstances t).map (eval R) := by
  unfold setInstances
  rw [lowerBound_eval, before_eval]
  cases w.lowerBound t.paneId with
  | nil => rfl
  | cons r rest =>
      by_cases hr : r.id = t.paneId
      · simp [hr, eval]
        rfl
      · simp [hr]

/-- An out-of-order worker updates a pane alike. -/
theorem updatePane_eval (wp sp : Nat) : (w.eval R).updatePane wp sp t = (w.updatePane wp sp t).eval R := by
  have hnew : compute (newRset wp sp (w.eval R) t) t = (compute (newRset wp sp w t) t).eval R :=
    compute_eval R t (newRset wp sp w t)
  unfold updatePane
  rw [lowerBound_eval, before_eval, hnew]
  cases w.lowerBound t.paneId with
  | nil => simp [eval]
  | cons r rest =>
      by_cases hr : r.id = t.paneId
      · simp [hr, eval, compute_eval]
      · simp [hr, eval]

/-- **A worker reacts on images as it does on the originals.** -/
theorem svc_eval (wp sp : Nat) : Commutes (eval R) (Rset.eval R)
    (svc wp sp : Svc (PlqWorker (Build (Row ℚ DIM))) (Tuple DIM) (Rset (Build (Row ℚ DIM))))
    (svc wp sp) := by
  intro w t
  unfold svc
  -- the recording only replaces the accumulator of each set, no branch looks at it
  cases hty : t.type with
  | punct =>
      simp only [before_eval, lowerBound_eval]
      rfl
  | «end» => simp [mapNode, eval]
  | newInst => simp [setInstances_eval, Function.comp_def, mapNode]
  | flush =>
      simp only [eval, List.map_map, Option.map_some, mapNode, List.map_nil]
      rfl
  | lull => rfl
  | regular => simp [updatePane_eval, mapNode]
  | emptyPane => simp [updatePane_eval, mapNode]
  | unspecified => simp [updatePane_eval, mapNode]

/-- So does an in-order worker. -/
theorem updatePaneIop_eval (wp sp : Nat) :
    (w.eval R).updatePaneIop wp sp t = (w.updatePaneIop wp sp t).eval R := by
  have hnew : compute (newRset wp sp (w.eval R) t) t = (compute (newRset wp sp w t) t).eval R :=
    compute_eval R t (newRset wp sp w t)
  unfold updatePaneIop
  rw [lowerBound_eval, before_eval, hnew]
  cases w.lowerBound t.paneId with
  | nil => simp [eval]
  | cons r rest => simp [eval, compute_eval]

/-- So does a worker of the in-order pipeline. -/
theorem svcIop_eval (wp sp : Nat) : Commutes (eval R) (Rset.eval R)
    (svcIop wp sp : Svc (PlqWorker (Build (Row ℚ DIM))) (Tuple DIM) (Rset (Build (Row ℚ DIM))))
    (svcIop wp sp) := by
  intro w t
  unfold svcIop
  cases hty : t.type with
  | «end» => simp [mapNode, eval]
  | newInst => simp [setInstances_eval, Function.comp_def, mapNode]
  | flush =>
      simp only [eval, List.map_map, Option.map_some, mapNode, List.map_nil, Option.some.injEq,
        Prod.mk.injEq, true_and]
      apply List.map_congr_left
      intro r _
      -- the flush looks at the pane of a results set only
      show (if t.paneId ≤ r.id then _ else _) = Rset.eval R (if t.paneId ≤ r.id then _ else _)
      split <;> rfl
  | lull => rfl
  | regular => simp [updatePaneIop_eval, before_eval, mapNode]
  | emptyPane => simp [updatePaneIop_eval, before_eval, mapNode]
  | unspecified => simp [updatePaneIop_eval, before_eval, mapNode]
  | punct => simp [updatePaneIop_eval, before_eval, mapNode]

/-- Hence every worker, whichever pipeline it is of. -/
theorem svcOf_eval (iop : Bool) (wp sp : Nat) : Commutes (eval R) (Rset.eval R)
    (svcOf iop wp sp : Svc (PlqWorker (Build (Row ℚ DIM))) (Tuple DIM) (Rset (Build (Row ℚ DIM))))
    (svcOf iop wp sp) := by
  cases iop with
  | false => exact svc_eval R wp sp
  | true => exact svcIop_eval R wp sp

end PlqWorker

namespace PlqState

variable {S : Strategy N DIM} {c : PlqParams} (β : PlqState S (Build (Row ℚ DIM)))

/-- The stage with the containers that the query computes. -/
def eval : PlqState S R where
  sched := β.sched
  net := β.net.map (PlqWorker.eval R) (Rset.eval R)
  scheduled := β.scheduled
  ended := β.ended

/-- What the workers have emitted is evaluated. -/
@[simp] theorem emitted_eval (w : Fin N) :
    (β.eval R).emitted w = (β.emitted w).map (Rset.eval R) := rfl

/-- The stage as constructed is the evaluated one. -/
theorem init_eval (S : Strategy N DIM) (nw : Nat) : init S R nw = (init S (Build _) nw).eval R := rfl

/-- The same events may happen. -/
theorem enabled_eval (e : PlqEvent S) : (β.eval R).Enabled c e ↔ β.Enabled c e := by
  cases e <;> exact Iff.rfl

/-- **Every event leads from an image to an image.** -/
theorem exec_eval (e : PlqEvent S) :
    (β.eval R).exec c e = (β.exec c e).map (eval R) := by
  cases e with
  | tuple env t =>
      simp only [exec, Option.map_map]
      rfl
  | progress env ts pId =>
      simp only [exec, Option.map_map]
      rfl
  | add ws =>
      simp only [exec, Option.map_map]
      rfl
  | remove env ws =>
      simp only [exec, Option.map_map]
      rfl
  | finish => rfl
  | worker w =>
      -- the queues hold no set, so they are the same on both sides
      have hq : (β.eval R).net.queue w = β.net.queue w := rfl
      have hnode : (β.eval R).net.node w = mapNode (PlqWorker.eval R) (Rset.eval R) (β.net.node w) :=
        rfl
      simp only [exec, hq]
      cases β.net.queue w with
      | nil => rfl
      | cons m ms =>
          simp only [hnode, (PlqWorker.svcOf_eval R c.iop c.wp c.sp).feed, Option.map_map]
          congr 1
          funext y
          simp only [Function.comp, eval, Net.map, PlqState.mk.injEq, Net.mk.injEq, true_and,
            and_true]
          -- only the worker that runs changes
          funext v
          by_cases hv : v = w
          · rw [hv, Function.update_self, Function.update_self]
          · rw [Function.update_of_ne hv, Function.update_of_ne hv]

end PlqState

end ElasticPPQ
