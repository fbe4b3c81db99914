import ElasticPPQ.Lib.Run
import ElasticPPQ.Plq.AdaptivePanes
import ElasticPPQ.Plq.OutOfOrder

/-! # The active partitions of adaptive scheduling

The descriptor of a pane says how many tuples each worker has of it, which partition is the active one
and how large that one is. Beside the scheduler, a run counts the tuples that it sends to each worker
(`AdaptiveSched.Booked`). The descriptors agree with these counts as long as `removeWorkers`, where it
reads the entry of the index of the pane instead of that of the worker, finds the same number there
(`AdaptiveSched.bookkeeping_iff`). -/

namespace ElasticPPQ

variable {N DIM : Nat}

namespace AdaptiveSched

/-- A scheduler, and the number of tuples of each pane that each worker has been sent since it was last
removed. -/
structure Booked (N : Nat) where
  sched : AdaptiveSched N
  sent : Nat → Fin N → Nat

/-- How a call fails. -/
inductive Fault
  /-- The source aborts. -/
  | abort
  /-- An entry of `i_sizes` is read past the end. -/
  | outOfRange
  deriving DecidableEq

/-- The number of tuples of pane `p` among the messages to worker `w`. -/
def tuplesTo (out : Sends N DIM) (p : Nat) (w : Fin N) : Nat :=
  out.countP fun x => decide (x.1 = w) && decide (x.2.type = .regular) && decide (x.2.paneId = p)

/-- The workers that a call removes. -/
def removedBy : (strategy N DIM).Call → List (Fin N)
  | .removeWorkers _ ws => ws
  | _ => []

/-- The reads of `i_sizes` at the index of a pane. -/
def readsByPane (s : AdaptiveSched N) : (strategy N DIM).Call → List (Nat × Fin N)
  | .removeWorkers env ws => s.removalMisreads env ws
  | _ => []

namespace Booked

/-- Before the first call. -/
def new (N nw : Nat) : Booked N := ⟨AdaptiveSched.new N nw, fun _ _ => 0⟩

/-- A call of the scheduler. -/
def exec (iop : Bool) (b : Booked N) (e : (strategy N DIM).Call) : Except Fault (Booked N) :=
  match (strategy N DIM).call iop b.sched e with
  | none => .error .abort
  | some (s, out) =>
      if ∃ x ∈ b.sched.readsByPane e, N ≤ x.1 then .error .outOfRange
      else .ok ⟨s, fun p w => (if w ∈ removedBy e then 0 else b.sent p w) + tuplesTo out p w⟩

/-- What the descriptor of a non-closed pane with tuples says. -/
structure Describes (s : AdaptiveSched N) (sent : Nat → Fin N → Nat) (p : Nat) : Prop where
  active : ∃ a, (s.des p).aWorker = some a ∧ s.activatedWorker a = true ∧ a ∈ (s.des p).wIds ∧
    (s.des p).aTuples = (s.des p).iSizes a
  counts : ∀ w, s.activatedWorker w = true → (s.des p).iSizes w = sent p w

/-- The descriptors of all the non-closed panes with tuples are right. -/
def Sound (b : Booked N) : Prop :=
  ∀ p, b.sched.nextPaneId ≤ p → b.sched.size p ≠ 0 → Describes b.sched b.sent p

/-- Where a removal reads `i_sizes` at the index of a pane, there is such an entry, and it is equal to
that of the worker that gets the active partition. -/
def ReadsAgree (s : AdaptiveSched N) : (strategy N DIM).Call → Prop
  | .removeWorkers env ws => ∀ x ∈ s.removalMisreads env ws, ∃ h : x.1 < N,
      ((s.afterFlush ws.length ws).pruned x.1).iSizes ⟨x.1, h⟩ =
        ((s.afterFlush ws.length ws).pruned x.1).iSizes x.2
  | _ => True

/-! ## One descriptor -/

/-- What a run keeps of the descriptor of a non-closed pane, given its number of tuples and those of
each worker. -/
structure Kept (pd : PaneDes N) (size : Nat) (sent : Fin N → Nat) : Prop where
  counts : ∀ w, pd.iSizes w = sent w
  others : ∀ w, w ∉ pd.wIds → pd.iSizes w = 0
  untouched : size = 0 → ∀ w, pd.iSizes w = 0
  active : ∀ a, pd.aWorker = some a → pd.aTuples = pd.iSizes a

/-- One more tuple. -/
theorem Kept.schedulesTo {s : AdaptiveSched N} {p : Nat} {w : Fin N} {pd : PaneDes N}
    {sent : Fin N → Nat} (h : Kept (s.des p) (s.size p) sent) (hto : s.SchedulesTo p w pd)
    (hactive : s.size p ≠ 0 → ∀ a, (s.des p).aWorker = some a → a ∈ (s.des p).wIds) :
    Kept pd (s.size p + 1) fun v => sent v + if v = w then 1 else 0 := by
  -- the entry of `w` grows by one, in all the branches
  have hgrown : ∀ n, n = sent w + 1 → ∀ v,
      Function.update (s.des p).iSizes w n v = sent v + if v = w then 1 else 0 := by
    intro n hn v
    by_cases hv : v = w
    · rw [hv, Function.update_self, if_pos rfl, hn]
    · rw [Function.update_of_ne hv, if_neg hv, h.counts v, Nat.add_zero]
  have hnew : ∀ v, v ∉ (s.des p).wIds ++ [w] → Function.update (s.des p).iSizes w 1 v = 0 := by
    intro v hv
    rw [List.mem_append, List.mem_singleton, not_or] at hv
    rw [Function.update_of_ne hv.2]
    exact h.others v hv.1
  have hold : ∀ n v, w ∈ (s.des p).wIds → v ∉ (s.des p).wIds →
      Function.update (s.des p).iSizes w n v = 0 := by
    intro n v hw hv
    rw [Function.update_of_ne fun hvw => hv (by rw [hvw]; exact hw)]
    exact h.others v hv
  cases hto with
  | first hsize hw =>
      refine ⟨hgrown 1 ?_, hnew, fun hz => absurd hz (Nat.succ_ne_zero _), ?_⟩
      · rw [← h.counts w, h.untouched hsize w]
      · rintro a ⟨⟩
        exact (Function.update_self w 1 (s.des p).iSizes).symm
  | same hsize hw =>
      refine ⟨hgrown _ (by rw [h.counts]), fun v hv => hold _ v (hactive hsize w hw) hv,
        fun hz => absurd hz (Nat.succ_ne_zero _), fun a ha => ?_⟩
      obtain rfl : w = a := Option.some.inj (hw.symm.trans ha)
      show (s.des p).aTuples + 1 = Function.update (s.des p).iSizes w _ w
      rw [Function.update_self, h.active w hw]
  | back hsize hmem hw =>
      refine ⟨hgrown _ (by rw [h.counts]), fun v hv => hold _ v hmem hv,
        fun hz => absurd hz (Nat.succ_ne_zero _), ?_⟩
      rintro a ⟨⟩
      exact (Function.update_self w _ (s.des p).iSizes).symm
  | split hsize hmem hw =>
      refine ⟨hgrown 1 ?_, hnew, fun hz => absurd hz (Nat.succ_ne_zero _), ?_⟩
      · rw [← h.counts w, h.others w hmem]
      · rintro a ⟨⟩
        exact (Function.update_self w 1 (s.des p).iSizes).symm

/-- The entries of the removed workers are reset. -/
theorem Kept.pruned {s : AdaptiveSched N} {p : Nat} {sent : Fin N → Nat} {size : Nat}
    (h : Kept (s.des p) size sent) (hheld : ∀ w ∈ (s.des p).wIds, s.activatedWorker w = true)
    (ws : List (Fin N)) (w : Fin N) :
    ((s.afterFlush ws.length ws).pruned p).iSizes w = if w ∈ ws then 0 else sent w := by
  show (if w ∈ (s.des p).wIds ∧ (s.activatedWorker w && !decide (w ∈ ws)) = false then 0
    else (s.des p).iSizes w) = _
  by_cases hmem : w ∈ (s.des p).wIds
  · by_cases hw : w ∈ ws
    · rw [if_pos ⟨hmem, by simp [hw]⟩, if_pos hw]
    · rw [if_neg (by simp [hw, hheld w hmem]), if_neg hw, h.counts]
  · rw [if_neg fun hc => hmem hc.1, h.others w hmem, ← h.counts w, h.others w hmem, ite_self]

/-- A removal, if the entry that it reads is right. -/
theorem Kept.reassigned {s : AdaptiveSched N} {env : AdaptiveEnv N} {p : Nat} {sent : Fin N → Nat}
    {size : Nat} (h : Kept (s.des p) size sent)
    (hheld : ∀ w ∈ (s.des p).wIds, s.activatedWorker w = true) {ws : List (Fin N)}
    {r : Option (Fin N)} {pd : PaneDes N}
    (hre : (s.afterFlush ws.length ws).Reassigned env p r pd)
    (hread : ∀ w, r = some w → ∃ hp : p < N,
      ((s.afterFlush ws.length ws).pruned p).iSizes ⟨p, hp⟩ =
        ((s.afterFlush ws.length ws).pruned p).iSizes w) :
    Kept pd size fun w => if w ∈ ws then 0 else sent w := by
  obtain ⟨c, hc⟩ : ∃ c, c = s.afterFlush ws.length ws := ⟨_, rfl⟩
  have hcounts : ∀ w, (c.pruned p).iSizes w = if w ∈ ws then 0 else sent w := by
    rw [hc]
    exact h.pruned hheld ws
  have hothers : ∀ w, w ∉ (c.pruned p).wIds → (c.pruned p).iSizes w = 0 := by
    intro w hw
    rw [hcounts]
    by_cases hws : w ∈ ws
    · exact if_pos hws
    rw [if_neg hws, ← h.counts]
    refine h.others w fun hmem => hw ?_
    rw [hc]
    exact List.mem_filter.mpr ⟨hmem, by simp [hws, hheld w hmem]⟩
  have huntouched : size = 0 → ∀ w, (c.pruned p).iSizes w = 0 := by
    intro hz w
    rw [hcounts, ← h.counts, h.untouched hz, ite_self]
  rw [← hc] at hre hread
  cases hre with
  | kept hforced =>
      refine ⟨hcounts, hothers, huntouched, fun a ha => ?_⟩
      have ha : (s.des p).aWorker = some a := by rwa [hc] at ha
      -- the active worker is not removed, so its entry is as before
      have hactive : c.activatedWorker a = true := by
        have hall : (c.des p).aWorker.all c.activatedWorker ≠ false := fun hno => hforced (Or.inr hno)
        rw [show (c.des p).aWorker = some a by rw [hc]; exact ha] at hall
        simpa using hall
      have hws : a ∉ ws := by
        rw [hc, afterFlush_activatedWorker] at hactive
        simpa using (Bool.and_eq_true_iff.mp hactive).2
      show (c.des p).aTuples = _
      rw [hcounts, if_neg hws, ← h.counts, hc]
      exact h.active a ha
  | back w hforced hmem =>
      obtain ⟨hp, heq⟩ := hread w rfl
      refine ⟨hcounts, hothers, huntouched, ?_⟩
      rintro a ⟨⟩
      show (if h : p < N then (c.pruned p).iSizes ⟨p, h⟩ else env.outOfRange p) = _
      rw [dif_pos hp]
      exact heq
  | split w hforced hmem ha =>
      have hsame : Function.update (c.pruned p).iSizes w 0 = (c.pruned p).iSizes := by
        rw [← hothers w hmem, Function.update_eq_self]
      rw [hsame]
      refine ⟨hcounts, fun v hv => hothers v fun hm => hv (List.mem_append_left _ hm), huntouched, ?_⟩
      rintro a ⟨⟩
      exact (hothers w hmem).symm

/-! ## A run -/

/-- Control messages are no tuples. -/
theorem tuplesTo_control {out : Sends N DIM} (h : ∀ x ∈ out, x.2.type ≠ .regular) (p : Nat)
    (w : Fin N) : tuplesTo out p w = 0 := by
  refine List.countP_eq_zero.mpr fun x hx => ?_
  simp [h x hx]

/-- Scheduling a tuple sends it to its worker. -/
theorem tuplesTo_tuple {s s' : AdaptiveSched N} {t : Tuple DIM} {w : Fin N} {pd : PaneDes N}
    {out : Sends N DIM} (h : TupleDone t w pd s s' out) (ht : t.type = .regular) (p : Nat)
    (v : Fin N) : tuplesTo out p v = if p = t.paneId then if v = w then 1 else 0 else 0 := by
  obtain ⟨news, n, rfl, hnews⟩ := h.sent
  have hzero : tuplesTo news p v = 0 :=
    tuplesTo_control (fun x hx => by rw [hnews x hx]; exact TypeMsg.noConfusion) p v
  have hsplit : tuplesTo (news ++ [(w, { t with noInstances := n })]) p v =
      tuplesTo news p v + tuplesTo [(w, { t with noInstances := n })] p v := List.countP_append
  have hcomm : (w = v) = (v = w) := propext eq_comm
  have hcomm' : (t.paneId = p) = (p = t.paneId) := propext eq_comm
  rw [hsplit, hzero, Nat.zero_add, tuplesTo, List.countP_singleton]
  simp only [ht, hcomm, hcomm']
  by_cases hp : p = t.paneId <;> by_cases hv : v = w <;> simp [hp, hv]

/-- What every run keeps while the reads agree. -/
structure Inv (DIM : Nat) (b : Booked N) : Prop where
  settled : (refinement N DIM).Settled b.sched
  panes : ∀ p, b.sched.nextPaneId ≤ p → Kept (b.sched.des p) (b.sched.size p) (b.sent p)

/-- The strategy as constructed, with nothing recorded. -/
theorem new_inv {nw : Nat} (hpos : 0 < nw) (hle : nw ≤ N) : (new N nw).Inv DIM where
  settled := (refinement N DIM).settled_new hpos hle
  panes := fun _ _ => ⟨fun _ => rfl, fun _ _ => rfl, fun _ _ => rfl, fun _ ha => nomatch ha⟩

/-- A pane with tuples has its active partition at an activated worker. -/
theorem Inv.active {b : Booked N} (h : b.Inv DIM) {p : Nat} (hp : b.sched.nextPaneId ≤ p)
    (hsize : b.sched.size p ≠ 0) :
    ∃ a, (b.sched.des p).aWorker = some a ∧ b.sched.activatedWorker a = true ∧
      a ∈ (b.sched.des p).wIds := by
  have hinv : b.sched.Inv := h.settled.inv
  have hheld : b.sched.held p ≠ [] := fun hnil =>
    hinv.sound.sized p hp hsize ((hinv.sound.held_iff p hp).mp hnil)
  obtain ⟨a, hmem, ha⟩ := hinv.active p hp hheld
  exact ⟨a, ha, h.settled.held hp hmem, hmem⟩

/-- What a run keeps says that the descriptors are right. -/
theorem Inv.sound {b : Booked N} (h : b.Inv DIM) : b.Sound := by
  intro p hp hsize
  obtain ⟨a, ha, hactive, hmem⟩ := h.active hp hsize
  exact ⟨⟨a, ha, hactive, hmem, (h.panes p hp).active a ha⟩, fun w _ => (h.panes p hp).counts w⟩

/-- **The step**, if the reads agree. -/
theorem Inv.effect {b : Booked N} (h : b.Inv DIM) {e : (strategy N DIM).Call}
    (he : (strategy N DIM).Allowed b.sched e) {s' : AdaptiveSched N} {out : Sends N DIM}
    (heff : Effect b.sched s' out e) (hsettled : (refinement N DIM).Settled s')
    (hagree : ReadsAgree b.sched e) :
    Inv DIM ⟨s', fun p w => (if w ∈ removedBy e then 0 else b.sent p w) + tuplesTo out p w⟩ := by
  refine ⟨hsettled, fun p hp => ?_⟩
  cases heff with
  | tuple env t w pd hto done =>
      have hp : b.sched.nextPaneId ≤ p := done.nextPaneId ▸ hp
      show Kept (s'.des p) (s'.size p) fun v => b.sent p v + tuplesTo out p v
      simp only [tuplesTo_tuple done he.1]
      rw [done.des, done.size]
      by_cases hpt : p = t.paneId
      · subst hpt
        rw [if_pos rfl, if_pos rfl]
        simp only [if_true]
        refine (h.panes _ hp).schedulesTo hto fun hsize a ha => ?_
        obtain ⟨a', ha', -, hmem⟩ := h.active hp hsize
        rwa [Option.some.inj (ha.symm.trans ha')]
      · rw [if_neg hpt, if_neg hpt]
        simp only [if_neg hpt, Nat.add_zero]
        exact h.panes p hp
  | progress env ts pId done =>
      have hp : b.sched.nextPaneId ≤ p :=
        (le_max_left _ _).trans (done.nextPaneId ▸ hp)
      show Kept (s'.des p) (s'.size p) fun v => b.sent p v + tuplesTo out p v
      -- no tuple is sent: the counts of the pane stay
      simp only [tuplesTo_control done.control, Nat.add_zero]
      rw [done.des, done.size]
      exact h.panes p hp
  | add ws done hout =>
      have hp : b.sched.nextPaneId ≤ p := done.nextPaneId ▸ hp
      rw [hout]
      show Kept (s'.des p) (s'.size p) (b.sent p)
      rw [done.des, done.size]
      exact h.panes p hp
  | remove env ws done =>
      have hp : b.sched.nextPaneId ≤ p := done.nextPaneId ▸ hp
      show Kept (s'.des p) (s'.size p) fun v =>
        (if v ∈ ws then 0 else b.sent p v) + tuplesTo out p v
      simp only [tuplesTo_control done.control, Nat.add_zero]
      rw [done.size]
      by_cases hlt : p < b.sched.pv.length
      · obtain ⟨r, hre, hiff⟩ := done.panes p hp hlt
        refine (h.panes p hp).reassigned (fun w hw => h.settled.held hp hw) hre fun w hw => ?_
        exact hagree (p, w) ((hiff w).mp hw)
      · -- the table ends before the pane
        have hnew : b.sched.des p = PaneDes.new N :=
          List.getD_eq_default _ _ (Nat.not_lt.mp hlt)
        have hzero : ∀ v, b.sent p v = 0 := by
          intro v
          rw [← (h.panes p hp).counts, hnew]
          rfl
        rw [done.others p (Or.inr (Nat.not_lt.mp hlt)), hnew]
        exact ⟨fun v => by rw [hzero, ite_self]; rfl, fun _ _ => rfl, fun _ _ => rfl,
          fun _ ha => nomatch ha⟩

/-- A read that does not agree leaves a wrong descriptor. -/
theorem Inv.not_sound {b : Booked N} (h : b.Inv DIM) {env : AdaptiveEnv N} {ws : List (Fin N)}
    {s' : AdaptiveSched N} {out : Sends N DIM} (done : RemovalDone env ws b.sched s' out)
    {p : Nat} {w : Fin N} (hmis : (p, w) ∈ b.sched.removalMisreads env ws) (hlt : p < N)
    (hne : ((b.sched.afterFlush ws.length ws).pruned p).iSizes ⟨p, hlt⟩ ≠
      ((b.sched.afterFlush ws.length ws).pruned p).iSizes w) (sent : Nat → Fin N → Nat) :
    ¬ Sound ⟨s', sent⟩ := by
  intro hsound
  have hrange := mem_misreads hmis
  dsimp only at hrange
  obtain ⟨r, hre, hiff⟩ := done.panes p hrange.1 (by omega)
  have hp : b.sched.nextPaneId ≤ p := hrange.1
  -- the pane has had a tuple: otherwise all its sizes would be zero
  have hsize : b.sched.size p ≠ 0 := by
    intro hz
    have hcounts := (h.panes p hp).pruned (fun w hw => h.settled.held hp hw) ws
    refine hne ?_
    rw [hcounts, hcounts, ← (h.panes p hp).counts, ← (h.panes p hp).counts,
      (h.panes p hp).untouched hz, (h.panes p hp).untouched hz, ite_self, ite_self]
  obtain ⟨a, ha, -, -, heq⟩ := (hsound p (done.nextPaneId ▸ hp) (by rw [done.size]; exact hsize)).active
  have hr := (hiff w).mpr hmis
  subst hr
  generalize s'.des p = pd at hre ha heq
  -- a wrong size is read only where the pane goes back to a worker that held it
  cases hre with
  | back w hforced hmem =>
      obtain rfl := Option.some.inj ha
      refine hne (Eq.trans ?_ heq)
      show _ = if h : p < N then _ else env.outOfRange p
      rw [dif_pos hlt]

end Booked

/-- **When the bookkeeping is right.** In the states of a run the descriptors of the non-closed panes
agree with the tuples that were sent, and every access to `i_sizes` is in range, if and only if the
reads of all the removals of the run agree. -/
theorem bookkeeping_iff {nw : Nat} (hpos : 0 < nw) (hle : nw ≤ N) (iop : Bool)
    (es : List (strategy N DIM).Call)
    (hes : Run.Valid (Booked.exec iop) (fun b e => (strategy N DIM).Allowed b.sched e) es
      (Booked.new N nw)) :
    (∀ es', es' <+: es → ∃ b, Run.run (Booked.exec iop) es' (Booked.new N nw) = .ok b ∧ b.Sound) ↔
      Run.Valid (Booked.exec iop) (fun b e => Booked.ReadsAgree b.sched e) es (Booked.new N nw) := by
  refine Run.Valid.sound_iff (P := Booked.Inv DIM) (fun b h => h.sound) ?_ ?_ hes
    (Booked.new_inv hpos hle)
  -- a call whose reads agree keeps the bookkeeping sound
  · intro b e hinv he hagree
    obtain ⟨s', out, hcall, hsettled, heff⟩ := call_step hinv.settled iop he
    have hrange : ¬ ∃ x ∈ b.sched.readsByPane e, N ≤ x.1 := by
      rintro ⟨x, hx, hge⟩
      cases e with
      | removeWorkers env ws =>
          obtain ⟨hlt, -⟩ := hagree x hx
          omega
      | _ => exact absurd hx List.not_mem_nil
    exact ⟨_, by rw [Booked.exec, hcall]; exact if_neg hrange,
      hinv.effect he heff hsettled hagree⟩
  -- a call that reads another size writes it, and only a removal does
  · intro b e b' hinv he hbad hexec
    obtain ⟨s', out, hcall, hsettled, heff⟩ := call_step hinv.settled iop he
    rw [Booked.exec, hcall] at hexec
    dsimp only at hexec
    split at hexec
    · cases hexec
    rename_i hrange
    obtain rfl := Except.ok.inj hexec
    cases heff with
    | tuple env t w pd hto done => exact absurd trivial hbad
    | progress env ts pId done => exact absurd trivial hbad
    | add ws done hout => exact absurd trivial hbad
    | remove env ws done =>
        obtain ⟨x, hx, hne⟩ : ∃ x ∈ b.sched.removalMisreads env ws, ∀ h : x.1 < N,
            ((b.sched.afterFlush ws.length ws).pruned x.1).iSizes ⟨x.1, h⟩ ≠
              ((b.sched.afterFlush ws.length ws).pruned x.1).iSizes x.2 := by
          by_contra hno
          push Not at hno
          exact hbad hno
        have hlt : x.1 < N := Nat.not_le.mp fun hge => hrange ⟨x, hx, hge⟩
        exact hinv.not_sound done hx hlt (hne hlt) _

instance Booked.decidableAllowed (b : Booked N) (e : (strategy N DIM).Call) :
    Decidable ((strategy N DIM).Allowed b.sched e) :=
  Strategy.decidableAllowed (strategy N DIM) b.sched e

instance Booked.decidableReadsAgree (s : AdaptiveSched N) :
    (e : (strategy N DIM).Call) → Decidable (Booked.ReadsAgree s e)
  | .removeWorkers env ws => inferInstanceAs (Decidable (∀ x ∈ s.removalMisreads env ws,
      ∃ h : x.1 < N, ((s.afterFlush ws.length ws).pruned x.1).iSizes ⟨x.1, h⟩ =
        ((s.afterFlush ws.length ws).pruned x.1).iSizes x.2))
  | .schedToWorker _ _ | .executeStreamProgress _ _ _ | .addWorkers _ => isTrue trivial

/-- An environment in which the queue of one worker only is empty. -/
def onlyIdle (w : Fin N) : AdaptiveEnv N :=
  { idleEnv N with qlen := fun _ v => if v = w then 0 else 1 }

/-- Pane 0 is closed with one tuple, which ends the warmup. Then pane 7 gets two tuples at worker 6 and,
being larger than the average, one at worker 7. -/
def splitRun : List (strategy 8 1).Call :=
  [.schedToWorker (idleEnv 8) (tupleOf 0), .executeStreamProgress (idleEnv 8) 0 6,
    .schedToWorker (idleEnv 8) (tupleOf 7), .schedToWorker (idleEnv 8) (tupleOf 7),
    .schedToWorker (idleEnv 8) (tupleOf 7)]

/-- Worker 6, which is not the active one, is removed. -/
theorem bookkeeping_iff_witness :
    Run.Valid (Booked.exec false) (fun b e => Booked.ReadsAgree b.sched e)
        (splitRun ++ [.removeWorkers (idleEnv 8) [6], .addWorkers [6]]) (Booked.new 8 8) ∧
      ∀ es', es' <+: splitRun ++ [.removeWorkers (idleEnv 8) [6], .addWorkers [6]] →
        ∃ b, Run.run (Booked.exec false) es' (Booked.new 8 8) = .ok b ∧ b.Sound := by
  rw [bookkeeping_iff (by decide) (by decide) false _ (by decide +kernel), and_self]
  decide +kernel

/-- The state after worker 7, the active one, is removed while worker 6 is the least loaded one. -/
def wrongEntryEnd : Booked 8 :=
  Run.result (Run.run (Booked.exec false) (splitRun ++ [.removeWorkers (onlyIdle 6) [7]])
    (Booked.new 8 8)) (by decide +kernel)

/-- The active partition of pane 7 has two tuples, and the descriptor says none. -/
theorem bookkeeping_fails :
    ¬ ∀ es : List (strategy 8 1).Call,
      Run.Valid (Booked.exec false) (fun b e => (strategy 8 1).Allowed b.sched e) es
          (Booked.new 8 8) →
        ∃ b, Run.run (Booked.exec false) es (Booked.new 8 8) = .ok b ∧ b.Sound := by
  intro h
  obtain ⟨b, hrun, hsound⟩ := h (splitRun ++ [.removeWorkers (onlyIdle 6) [7]])
    (by decide +kernel)
  rw [Run.eq_ok_result (Run.run (Booked.exec false) _ (Booked.new 8 8))
    (by decide +kernel)] at hrun
  -- pane 7 goes back to worker 6, but the size read is that of worker 7
  obtain rfl := Except.ok.inj hrun
  obtain ⟨a, ha, -, -, heq⟩ := (hsound 7 (by decide +kernel) (by decide +kernel)).active
  have haw : (wrongEntryEnd.sched.des 7).aWorker = some 6 := by decide +kernel
  obtain rfl : a = 6 := Option.some.inj (ha.symm.trans haw)
  exact absurd heq (by decide +kernel)

end AdaptiveSched

end ElasticPPQ
