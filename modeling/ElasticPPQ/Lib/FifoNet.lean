import Mathlib.Algebra.BigOperators.Group.Finset.Piecewise
import Mathlib.Algebra.BigOperators.Group.List.Basic
import Mathlib.Data.List.Basic
import Mathlib.Logic.Function.Basic

/-! # Deterministic nodes behind FIFO channels

A source writes messages into one FIFO channel per node; every node is deterministic and reacts to
one message at a time, at any moment. Because a node sees its own messages in the order they were
sent, what it will have done once its channel is drained does not depend on the interleaving: it is
fixed by the messages sent so far. This file makes that view (`Settles`) into a proof rule:

* a delivery leaves the settled view unchanged (`Settles.deliver`);
* a send moves the settled view by the node's own reaction (`Settles.sendAll`).

So an invariant that relates the source to the settled view is proved as if every message were
consumed the moment it is sent. What every reaction accounts for, the network accounts for in every
state (`Net.total`). -/

namespace ElasticPPQ.FifoNet

variable {ι σ μ ο : Type*}

/-- A deterministic node: its reaction to one message, `none` when it aborts. -/
abbrev Svc (σ μ ο : Type*) := σ → μ → Option (σ × List ο)

/-- A node, with all it has emitted so far, after one more message. -/
def feed (svc : Svc σ μ ο) (x : σ × List ο) (m : μ) : Option (σ × List ο) :=
  (svc x.1 m).map fun y => (y.1, x.2 ++ y.2)

/-- A node, with all it has emitted so far, after a list of messages. -/
def feedAll (svc : Svc σ μ ο) (x : σ × List ο) (ms : List μ) : Option (σ × List ο) :=
  ms.foldlM (feed svc) x

/-- Nothing is fed. -/
@[simp] theorem feedAll_nil (svc : Svc σ μ ο) (x : σ × List ο) : feedAll svc x [] = some x := rfl

/-- The first message is fed, then the rest. -/
@[simp] theorem feedAll_cons (svc : Svc σ μ ο) (x : σ × List ο) (m : μ) (ms : List μ) :
    feedAll svc x (m :: ms) = (feed svc x m).bind fun y => feedAll svc y ms := rfl

/-- Feeding a sequence in two parts. -/
theorem feedAll_append (svc : Svc σ μ ο) (x : σ × List ο) (ms ms' : List μ) :
    feedAll svc x (ms ++ ms') = (feedAll svc x ms).bind fun y => feedAll svc y ms' := by
  simp only [feedAll, List.foldlM_append]
  rfl

/-- Feeding one message is reacting to it and keeping what was emitted before. -/
theorem feed_eq_some {svc : Svc σ μ ο} {x y : σ × List ο} {m : μ} :
    feed svc x m = some y ↔ ∃ o, svc x.1 m = some (y.1, o) ∧ y.2 = x.2 ++ o := by
  constructor
  · intro h
    obtain ⟨⟨s, o⟩, hs, rfl⟩ := Option.map_eq_some_iff.mp h
    exact ⟨o, hs, rfl⟩
  · rintro ⟨o, hs, ho⟩
    rw [feed, hs, Option.map_some, ← ho]

/-! ## The network -/

/-- The nodes, each with what it has emitted so far, and the channels into them. -/
structure Net (ι σ μ ο : Type*) where
  /-- State and emissions of each node. -/
  node : ι → σ × List ο
  /-- Messages sent to each node and not yet consumed, oldest first. -/
  queue : ι → List μ

/-- The messages of a list of sends that go to node `i`, in order. -/
def msgsTo [DecidableEq ι] (i : ι) (l : List (ι × μ)) : List μ :=
  (l.filter fun p => p.1 = i).map Prod.snd

section Msgs

variable [DecidableEq ι]

/-- Nothing is sent to anybody. -/
@[simp] theorem msgsTo_nil (i : ι) : msgsTo i ([] : List (ι × μ)) = [] := rfl

/-- The first message goes to one receiver. -/
@[simp] theorem msgsTo_cons (i j : ι) (m : μ) (l : List (ι × μ)) :
    msgsTo i ((j, m) :: l) = if j = i then m :: msgsTo i l else msgsTo i l := by
  by_cases h : j = i <;> simp [msgsTo, h]

/-- What a receiver gets of two batches. -/
@[simp] theorem msgsTo_append (i : ι) (l l' : List (ι × μ)) :
    msgsTo i (l ++ l') = msgsTo i l ++ msgsTo i l' := by
  simp [msgsTo]

/-- A multicast of one message reaches a node as often as it is listed. -/
theorem msgsTo_multicast (i : ι) (ws : List ι) (m : μ) :
    msgsTo i (ws.map fun w => (w, m)) = List.replicate (ws.count i) m := by
  induction ws with
  | nil => rfl
  | cons w ws ih =>
      rw [List.map_cons, msgsTo_cons, ih, List.count_cons]
      by_cases h : w = i
      · rw [if_pos h, if_pos (by simp [h])]; rfl
      · rw [if_neg h, if_neg (by simp [h])]; rfl

/-- A multicast to distinct nodes reaches each of them once and no other node. -/
theorem msgsTo_multicast_nodup (i : ι) {ws : List ι} (hws : ws.Nodup) (m : μ) :
    msgsTo i (ws.map fun w => (w, m)) = if i ∈ ws then [m] else [] := by
  rw [msgsTo_multicast]
  by_cases h : i ∈ ws
  · rw [if_pos h, hws.count, if_pos h]; rfl
  · rw [if_neg h, List.count_eq_zero_of_not_mem h]; rfl

end Msgs

/-- The source appends each message to the channel of its addressee. -/
def Net.sendAll [DecidableEq ι] (n : Net ι σ μ ο) (l : List (ι × μ)) : Net ι σ μ ο :=
  { n with queue := fun i => n.queue i ++ msgsTo i l }

/-- One node consumes the oldest message of its channel. -/
inductive Deliver [DecidableEq ι] (svc : Svc σ μ ο) : Net ι σ μ ο → Net ι σ μ ο → Prop
  | mk {n : Net ι σ μ ο} (i : ι) (m : μ) (ms : List μ) (y : σ × List ο)
      (hq : n.queue i = m :: ms) (hy : feed svc (n.node i) m = some y) :
      Deliver svc n ⟨Function.update n.node i y, Function.update n.queue i ms⟩

/-- `v` is the settled view of the network: what every node will have become, and emitted, once its
channel is drained. In particular no node aborts on the messages it has been sent. -/
def Settles (svc : Svc σ μ ο) (n : Net ι σ μ ο) (v : ι → σ × List ο) : Prop :=
  ∀ i, feedAll svc (n.node i) (n.queue i) = some (v i)

variable {svc : Svc σ μ ο} {n n' : Net ι σ μ ο} {v v' : ι → σ × List ο}

/-- **A delivery does not move the settled view.** -/
theorem Settles.deliver [DecidableEq ι] (h : Settles svc n v) (hd : Deliver svc n n') :
    Settles svc n' v := by
  cases hd with
  | mk i m ms y hq hy =>
      intro j
      by_cases hj : j = i
      · subst hj
        have := h j
        rw [hq, feedAll_cons, hy] at this
        simpa using this
      · simpa [Function.update_of_ne hj] using h j

/-- **A send moves the settled view by the reactions of the addressees.** -/
theorem Settles.sendAll [DecidableEq ι] (h : Settles svc n v) {l : List (ι × μ)}
    (hl : ∀ i, feedAll svc (v i) (msgsTo i l) = some (v' i)) : Settles svc (n.sendAll l) v' := by
  intro i
  rw [Net.sendAll, feedAll_append, h i]
  exact hl i

/-- Hence the settled views before and after a send determine the reactions. -/
theorem Settles.of_sendAll [DecidableEq ι] (h : Settles svc n v) {l : List (ι × μ)}
    (h' : Settles svc (n.sendAll l) v') (i : ι) : feedAll svc (v i) (msgsTo i l) = some (v' i) := by
  have hi := h' i
  rw [Net.sendAll, feedAll_append, h i] at hi
  exact hi

/-- A network has one settled view at most. -/
theorem Settles.unique (h : Settles svc n v) (h' : Settles svc n v') : v' = v := by
  funext i
  exact Option.some.inj ((h' i).symm.trans (h i))

/-- With every channel drained the settled view is the network itself. -/
theorem Settles.eq_node (h : Settles svc n v) (hq : ∀ i, n.queue i = []) : n.node = v := by
  funext i
  have := h i
  rw [hq i, feedAll_nil] at this
  exact Option.some.inj this

/-- In a network that settles no node aborts on the message it is about to consume. -/
theorem Settles.no_abort (h : Settles svc n v) {i : ι} {m : μ} {ms : List μ}
    (hq : n.queue i = m :: ms) : ∃ y, feed svc (n.node i) m = some y := by
  have := h i
  rw [hq, feedAll_cons] at this
  obtain ⟨y, hy, -⟩ := Option.bind_eq_some_iff.mp this
  exact ⟨y, hy⟩

/-- What every reaction of a node preserves, a delivery preserves at every node. -/
theorem Deliver.forall_node [DecidableEq ι] (hd : Deliver svc n n') {P : σ × List ο → Prop}
    (step : ∀ x m y, P x → feed svc x m = some y → P y) (hP : ∀ i, P (n.node i)) (i : ι) :
    P (n'.node i) := by
  cases hd with
  | mk j m ms y hq hy =>
      by_cases hj : i = j
      · subst hj
        simpa using step _ _ _ (hP i) hy
      · simpa [Function.update_of_ne hj] using hP i

/-! ## Conserved quantities -/

section Total

variable {M : Type*} [AddCommMonoid M] [Fintype ι]

/-- What the nodes have got, by `f`, and what is on its way to them, by `g`. -/
def Net.total (f : σ × List ο → M) (g : μ → M) (n : Net ι σ μ ο) : M :=
  ∑ i, (f (n.node i) + ((n.queue i).map g).sum)

/-- With every channel drained only the nodes count. -/
theorem Net.total_of_drained {n : Net ι σ μ ο} (hq : ∀ i, n.queue i = []) (f : σ × List ο → M)
    (g : μ → M) : n.total f g = ∑ i, f (n.node i) := by
  refine Finset.sum_congr rfl fun i _ => ?_
  rw [hq i, List.map_nil, List.sum_nil, add_zero]

/-- **A delivery conserves** what every reaction accounts for. -/
theorem Deliver.total [DecidableEq ι] (hd : Deliver svc n n') {f : σ × List ο → M} {g : μ → M}
    (hfg : ∀ x m y, feed svc x m = some y → f y = f x + g m) : n'.total f g = n.total f g := by
  cases hd with
  | mk i m ms y hq hy =>
      refine Finset.sum_congr rfl fun j _ => ?_
      by_cases hj : j = i
      · subst hj
        simp only [Function.update_self]
        rw [hfg _ _ _ hy, hq, List.map_cons, List.sum_cons, add_assoc]
      · simp only [Function.update_of_ne hj]

/-- The messages to all the nodes together are all the messages. -/
theorem sum_msgsTo [DecidableEq ι] (g : μ → M) (l : List (ι × μ)) :
    ∑ i, ((msgsTo i l).map g).sum = (l.map fun x => g x.2).sum := by
  induction l with
  | nil => simp
  | cons x l ih =>
      obtain ⟨j, m⟩ := x
      -- the first message counts for its receiver only
      have hsplit : ∀ i, ((msgsTo i ((j, m) :: l)).map g).sum
          = (if j = i then g m else 0) + ((msgsTo i l).map g).sum := by
        intro i
        rw [msgsTo_cons]
        by_cases hj : j = i
        · rw [if_pos hj, if_pos hj, List.map_cons, List.sum_cons]
        · rw [if_neg hj, if_neg hj, zero_add]
      rw [Finset.sum_congr rfl fun i _ => hsplit i, Finset.sum_add_distrib, ih,
        Finset.sum_ite_eq, if_pos (Finset.mem_univ j), List.map_cons, List.sum_cons]

/-- **A send adds** the values of its messages. -/
theorem Net.total_sendAll [DecidableEq ι] (n : Net ι σ μ ο) (f : σ × List ο → M) (g : μ → M)
    (l : List (ι × μ)) :
    (n.sendAll l).total f g = n.total f g + (l.map fun x => g x.2).sum := by
  rw [← sum_msgsTo g l, total, total, ← Finset.sum_add_distrib]
  refine Finset.sum_congr rfl fun i _ => ?_
  show f (n.node i) + ((n.queue i ++ msgsTo i l).map g).sum = _
  rw [List.map_append, List.sum_append, add_assoc]

end Total

/-! ## Networks whose nodes are images of other nodes -/

section Map

variable {σ' ο' : Type*} (f : σ → σ') (g : ο → ο')

/-- The image of a node state with its emissions. -/
def mapNode (x : σ × List ο) : σ' × List ο' := (f x.1, x.2.map g)

/-- The network whose nodes and emissions are the images under `f` and `g`. -/
def Net.map (n : Net ι σ μ ο) : Net ι σ' μ ο' := ⟨fun i => mapNode f g (n.node i), n.queue⟩

variable {f g}

/-- `svc'` reacts on images as `svc` does on the originals. -/
def Commutes (f : σ → σ') (g : ο → ο') (svc : Svc σ μ ο) (svc' : Svc σ' μ ο') : Prop :=
  ∀ s m, svc' (f s) m = (svc s m).map (mapNode f g)

/-- A node and its image take a message alike. -/
theorem Commutes.feed {svc' : Svc σ' μ ο'} (h : Commutes f g svc svc') (x : σ × List ο) (m : μ) :
    feed svc' (mapNode f g x) m = (feed svc x m).map (mapNode f g) := by
  have hs := h x.1 m
  simp only [FifoNet.feed, mapNode] at hs ⊢
  rw [hs]
  cases svc x.1 m with
  | none => rfl
  | some y => simp [mapNode]

end Map

end ElasticPPQ.FifoNet
