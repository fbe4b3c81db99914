import ElasticPPQ.Lib.Lifetime
import ElasticPPQ.Plq.Multicasts

/-! # Who accesses the message objects

The accesses of `PLQ_Worker::svc` and `PLQ_Worker_IOP::svc` to the object of the message they process
(`accesses`), in the order of the source, and the objects that the emitter creates (`MsgStore`). A
multicast puts the address of one object into several channels, and its counter says into how many;
every other message has one addressee. Each branch but the one for `LULL` follows the discipline of
its message, and only the in-order branch for `FLUSH` reads the object after its decrement. -/

namespace ElasticPPQ

open Lifetime FifoNet Sends
open Function (update update_self update_of_ne)

/-- What a worker reads of a message; the row is what `addComputeTuple` copies. -/
inductive MsgField
  | type
  | paneId
  | noInstances
  | row
  deriving DecidableEq

variable {N DIM : Nat} {R : Type}

/-! ## The accesses of the workers -/

namespace PlqWorker

/-- The type is tested `n` times, to find the branch. -/
def tests (n : Nat) : List (Access MsgField) := List.replicate n (.read .type)

/-- A results set is constructed for the pane of the message: `countWindows` and the constructor. -/
def constructReads : List (Access MsgField) := [.read .paneId, .read .paneId, .read .noInstances]

/-- The end of the last branch: the tuple is added if it is regular, then the object is deleted. -/
def computeReads (t : Tuple DIM) : List (Access MsgField) :=
  .read .type :: ((if t.type = .regular then [.read .row] else []) ++ [.delete])

/-- The accesses of `PLQ_Worker::svc` to the message, where it does not abort. A thread that gets `1`
back from `fetch_sub` goes on with `delete`. -/
def accessesOop (w : PlqWorker R) (t : Tuple DIM) : List (Access MsgField) :=
  match t.type with
  | .punct => tests 1 ++ [.read .paneId, .fetchSub]
  | .end => tests 2 ++ [.fetchSub]
  | .newInst => tests 3 ++ [.read .paneId, .read .paneId, .read .noInstances, .fetchSub]
  | .flush => tests 4 ++ [.fetchSub]
  | .lull => tests 5 ++ constructReads
  | _ =>
      tests 5 ++ .read .paneId ::
        ((match w.lowerBound t.paneId with
          | [] => constructReads
          | r :: _ => .read .paneId :: if r.id ≠ t.paneId then constructReads else []) ++
        computeReads t)

/-- The accesses of `PLQ_Worker_IOP::svc`. The branch for `FLUSH` compares the pane of the message
with every results set of the deque, after the decrement. -/
def accessesIop (w : PlqWorker R) (t : Tuple DIM) : List (Access MsgField) :=
  match t.type with
  | .end => tests 1 ++ [.fetchSub]
  | .newInst => tests 2 ++ [.read .paneId, .read .paneId, .read .noInstances, .fetchSub]
  | .flush => tests 3 ++ .fetchSub :: w.paneSet.map fun _ => .read .paneId
  | .lull => tests 4 ++ constructReads
  | _ =>
      tests 4 ++ .read .paneId ::
        ((match w.lowerBound t.paneId with
          | [] => constructReads
          | _ :: _ => []) ++
        computeReads t)

/-- The accesses of either version. -/
def accesses (iop : Bool) (w : PlqWorker R) (t : Tuple DIM) : List (Access MsgField) :=
  if iop then w.accessesIop t else w.accessesOop t

/-! ### The discipline -/

/-- Nothing but reads. -/
def OnlyReads (prog : List (Access MsgField)) : Prop := ∀ x ∈ prog, ∃ f, x = .read f

/-- Tests of a message only read it. -/
theorem onlyReads_tests (n : Nat) : OnlyReads (tests n) :=
  fun _ hx => ⟨.type, List.eq_of_mem_replicate hx⟩

/-- Doing nothing only reads. -/
theorem OnlyReads.nil : OnlyReads [] := fun _ hx => absurd hx List.not_mem_nil

/-- One more read. -/
theorem OnlyReads.cons (f : MsgField) {prog : List (Access MsgField)} (h : OnlyReads prog) :
    OnlyReads (.read f :: prog) := by
  intro x hx
  rcases List.mem_cons.mp hx with rfl | hx
  · exact ⟨f, rfl⟩
  · exact h x hx

/-- Two such programs one after the other. -/
theorem OnlyReads.append {prog prog' : List (Access MsgField)} (h : OnlyReads prog)
    (h' : OnlyReads prog') : OnlyReads (prog ++ prog') := by
  intro x hx
  rcases List.mem_append.mp hx with hx | hx
  · exact h x hx
  · exact h' x hx

/-- The construction of a results set only reads the message. -/
theorem onlyReads_constructReads : OnlyReads constructReads :=
  ((OnlyReads.nil.cons _).cons _).cons _

/-- Reads neither decrement nor delete. -/
theorem OnlyReads.not_mem {prog : List (Access MsgField)} (h : OnlyReads prog) :
    .fetchSub ∉ prog ∧ .delete ∉ prog := by
  constructor
  · intro hx
    obtain ⟨f, hf⟩ := h _ hx
    cases hf
  · intro hx
    obtain ⟨f, hf⟩ := h _ hx
    cases hf

/-- Reads before the accesses that matter. -/
theorem OnlyReads.disciplined {shared : Prop} {reads prog : List (Access MsgField)}
    (hreads : OnlyReads reads) (h : Memory.Disciplined shared prog) :
    Memory.Disciplined shared (reads ++ prog) := by
  have hf := List.count_eq_zero.mpr hreads.not_mem.1
  have hd := List.count_eq_zero.mpr hreads.not_mem.2
  constructor
  · intro hs
    rw [List.count_append, List.count_append, hf, hd, Nat.zero_add, Nat.zero_add]
    exact h.counted hs
  · intro hs
    rw [List.count_append, List.count_append, hf, hd, Nat.zero_add, Nat.zero_add]
    exact h.single hs

/-- A decrement, and reads after it. -/
theorem OnlyReads.fetchSub {prog : List (Access MsgField)} (h : OnlyReads prog) :
    Memory.Disciplined True (.fetchSub :: prog) where
  counted := by
    intro _
    rw [List.count_cons_self, List.count_cons_of_ne (by decide),
      List.count_eq_zero.mpr h.not_mem.1, List.count_eq_zero.mpr h.not_mem.2]
    exact ⟨rfl, rfl⟩
  single := fun hs => absurd trivial hs

/-- The last branch deletes once and does not decrement. -/
theorem disciplined_computeReads (t : Tuple DIM) :
    Memory.Disciplined False (computeReads t) where
  counted := fun hs => hs.elim
  single := by
    intro _
    unfold computeReads
    split <;> decide

/-- **Each branch but the one for `LULL` follows the discipline of its message.** -/
theorem accesses_disciplined {iop : Bool} (w : PlqWorker R) {t : Tuple DIM} (hl : t.type ≠ .lull)
    (hp : iop = true → t.type ≠ .punct) :
    Memory.Disciplined (t.type.shared = true) (accesses iop w t) := by
  have hone : Memory.Disciplined True ([.fetchSub] : List (Access MsgField)) :=
    OnlyReads.nil.fetchSub
  have hnews : Memory.Disciplined True
      [.read .paneId, .read .paneId, .read .noInstances, (.fetchSub : Access MsgField)] :=
    onlyReads_constructReads.disciplined hone
  -- the messages that end in the search of a results set
  have hlast : ∀ {reads : List (Access MsgField)} (n : Nat), OnlyReads reads →
      Memory.Disciplined False (tests n ++ .read .paneId :: (reads ++ computeReads t)) := by
    intro reads n hreads
    apply (onlyReads_tests n).disciplined
    exact (hreads.cons .paneId).disciplined (disciplined_computeReads t)
  unfold accesses
  cases iop with
  | false =>
      rw [if_neg Bool.false_ne_true, accessesOop]
      have hsearch : OnlyReads (match w.lowerBound t.paneId with
          | [] => constructReads
          | r :: _ => .read .paneId :: if r.id ≠ t.paneId then constructReads else []) := by
        split
        · exact onlyReads_constructReads
        · split
          · exact onlyReads_constructReads.cons _
          · exact OnlyReads.nil.cons _
      cases hty : t.type with
      | punct => simpa [TypeMsg.shared] using
          (onlyReads_tests 1).disciplined ((OnlyReads.nil.cons .paneId).disciplined hone)
      | «end» => simpa [TypeMsg.shared] using (onlyReads_tests 2).disciplined hone
      | newInst => simpa [TypeMsg.shared] using (onlyReads_tests 3).disciplined hnews
      | flush => simpa [TypeMsg.shared] using (onlyReads_tests 4).disciplined hone
      | lull => exact absurd hty hl
      | unspecified | regular | emptyPane =>
          simpa [TypeMsg.shared] using hlast 5 hsearch
  | true =>
      rw [if_pos rfl, accessesIop]
      have hsearch : OnlyReads (match w.lowerBound t.paneId with
          | [] => constructReads
          | _ :: _ => []) := by
        split
        · exact onlyReads_constructReads
        · exact OnlyReads.nil
      have hdeque : OnlyReads (w.paneSet.map fun _ => .read .paneId) := by
        intro x hx
        obtain ⟨r, -, rfl⟩ := List.mem_map.mp hx
        exact ⟨.paneId, rfl⟩
      cases hty : t.type with
      | punct => exact absurd hty (hp rfl)
      | «end» => simpa [TypeMsg.shared] using (onlyReads_tests 1).disciplined hone
      | newInst => simpa [TypeMsg.shared] using (onlyReads_tests 2).disciplined hnews
      | flush => simpa [TypeMsg.shared] using (onlyReads_tests 3).disciplined hdeque.fetchSub
      | lull => exact absurd hty hl
      | unspecified | regular | emptyPane =>
          simpa [TypeMsg.shared] using hlast 4 hsearch

/-- The branch for `LULL` only reads. -/
theorem accesses_lull (iop : Bool) (w : PlqWorker R) {t : Tuple DIM} (hl : t.type = .lull) :
    OnlyReads (accesses iop w t) := by
  unfold accesses
  cases iop with
  | false =>
      rw [if_neg Bool.false_ne_true, accessesOop, hl]
      exact (onlyReads_tests 5).append onlyReads_constructReads
  | true =>
      rw [if_pos rfl, accessesIop, hl]
      exact (onlyReads_tests 4).append onlyReads_constructReads

end PlqWorker

/-! ## The objects of the emitter -/

/-- The message objects: their addresses on the way, and their contents. -/
structure MsgStore (N DIM : Nat) where
  /-- The objects, the channels with addresses, and the accesses of the workers. -/
  memory : Memory (Fin N) MsgField
  /-- The contents of each object. -/
  message : Nat → Tuple DIM

namespace MsgStore

/-- Nothing has been created. -/
def new (N DIM : Nat) : MsgStore N DIM := ⟨Memory.new (Fin N) MsgField, fun _ => Tuple.new DIM⟩

/-- The emitter creates an object and sends its address. -/
def create (x : Msg N DIM) (M : MsgStore N DIM) : MsgStore N DIM where
  memory := M.memory.allocate x.1.refCounter x.2
  message := update M.message M.memory.allocs x.1

/-- The emitter creates one object after the other. -/
def createAll : List (Msg N DIM) → MsgStore N DIM → MsgStore N DIM
  | [], M => M
  | x :: xs, M => createAll xs (M.create x)

/-- The messages in the channel of a worker. -/
def channel (M : MsgStore N DIM) (w : Fin N) : List (Tuple DIM) :=
  (M.memory.queue w).map M.message

/-- The invariant of the objects, those with a counter being shared. -/
def Inv (M : MsgStore N DIM) : Prop :=
  M.memory.Inv fun a => (M.message a).type.shared = true

variable {M : MsgStore N DIM}

/-- The memory with no object. -/
theorem new_inv (N DIM : Nat) : (new N DIM).Inv := Memory.inv_new _

/-- An object is created with the right counter. -/
theorem Inv.create (h : M.Inv) {x : Msg N DIM} (hws : x.2 ≠ [])
    (hshared : x.1.type.shared = true → x.1.refCounter = x.2.length)
    (hsingle : x.1.type.shared = false → x.2.length = 1) :
    (M.create x).Inv ∧ ∀ w, (M.create x).channel w =
      M.channel w ++ List.replicate (x.2.count w) x.1 := by
  have hold : ∀ a, a < M.memory.allocs → (M.create x).message a = M.message a := fun a ha =>
    update_of_ne ha.ne _ _
  have hnew : (M.create x).message M.memory.allocs = x.1 := update_self _ _ _
  constructor
  · -- the objects there were are what they were
    have hinv : M.memory.Inv fun a => ((M.create x).message a).type.shared = true := by
      apply Memory.Inv.congr h
      intro a ha
      rw [hold a ha]
    apply Memory.Inv.allocate hinv hws
    · intro hs
      rw [hnew] at hs
      exact hshared hs
    · intro hs
      rw [hnew, Bool.not_eq_true] at hs
      exact hsingle hs
  · intro w
    have hqueue : (M.memory.queue w).map (M.create x).message = M.channel w :=
      List.map_congr_left fun a ha => hold a (Memory.Inv.queued h w a ha)
    show (M.memory.queue w ++ List.replicate (x.2.count w) M.memory.allocs).map
      (M.create x).message = _
    rw [List.map_append, List.map_replicate, hnew, hqueue]

/-- The addressees of the objects get them in order. -/
theorem Inv.createAll {xs : List (Msg N DIM)} (h : M.Inv) (hws : ∀ x ∈ xs, x.2 ≠ [])
    (hshared : ∀ x ∈ xs, x.1.type.shared = true → x.1.refCounter = x.2.length)
    (hsingle : ∀ x ∈ xs, x.1.type.shared = false → x.2.length = 1) :
    (M.createAll xs).Inv ∧ ∀ w, (M.createAll xs).channel w =
      M.channel w ++ msgsTo w (xs.flatMap ofMsg) := by
  -- induction on the objects, each of which goes to the channels of its receivers
  induction xs generalizing M with
  | nil => exact ⟨h, fun w => (List.append_nil _).symm⟩
  | cons x xs ih =>
      obtain ⟨h₁, hc₁⟩ := h.create (hws x List.mem_cons_self) (hshared x List.mem_cons_self)
        (hsingle x List.mem_cons_self)
      obtain ⟨h₂, hc₂⟩ := ih h₁ (fun y hy => hws y (List.mem_cons_of_mem x hy))
        (fun y hy => hshared y (List.mem_cons_of_mem x hy))
        (fun y hy => hsingle y (List.mem_cons_of_mem x hy))
      refine ⟨h₂, fun w => ?_⟩
      rw [createAll, hc₂, hc₁, List.flatMap_cons, msgsTo_append, ofMsg, msgsTo_multicast,
        List.append_assoc]

/-- **Whole multicasts and single messages are sent as objects with the right counters.** -/
theorem Inv.sends (h : M.Inv) {out : Sends N DIM} (hout : Multicasts out) :
    (M.createAll (objects out)).Inv ∧ ∀ w, (M.createAll (objects out)).channel w =
      M.channel w ++ msgsTo w out := by
  have hall : (M.createAll (objects out)).Inv ∧ ∀ w, (M.createAll (objects out)).channel w =
      M.channel w ++ msgsTo w ((objects out).flatMap ofMsg) :=
    h.createAll (fun x hx => (length_objects hx).1) (fun x hx => hout.refCounter hx)
      fun x hx => (length_objects hx).2
  rw [flatMap_objects] at hall
  exact hall

end MsgStore

end ElasticPPQ
