import Mathlib.Algebra.BigOperators.Group.Finset.Piecewise
import Mathlib.Algebra.Order.BigOperators.Group.Finset
import Mathlib.Data.List.Count
import Mathlib.Data.Fintype.Basic

/-! # The lifetime of message objects

A source allocates message objects and passes their addresses to threads through FIFO channels; a
thread that takes an address accesses the object, one access at a time and interleaved with the other
threads. An object with a counter is shared by all its recipients: each of them decrements the counter
once, and the one that gets `1` back releases the object. An object without a counter has one
recipient, which releases it. An access to a released object, or a decrement of a counter that is `0`,
is a fault.

The invariant (`Inv`) counts, for each object, the recipients that still have to take it, to decrement
its counter, or to release it. As long as each of them does what the discipline asks for, and reads
nothing afterwards unless somebody else is late, there are no faults, and exactly the objects are
released that nobody still has to deal with (`Exact`). -/

namespace ElasticPPQ.Lifetime

open Function (update update_self update_of_ne)

/-- An access of a thread to an object: a field is read, the counter is decremented, the object is
released. -/
inductive Access (φ : Type*)
  | read (f : φ)
  | fetchSub
  | delete
  deriving DecidableEq

/-- What may go wrong. -/
inductive Fault
  /-- An access to an object that has been released. -/
  | released
  /-- A decrement of a counter that is zero. -/
  | underflow
  deriving DecidableEq

/-- The objects and the threads. -/
structure Memory (ι φ : Type*) where
  /-- Number of objects allocated; they have the addresses below. -/
  allocs : Nat
  /-- The counter of each object. -/
  refCounter : Nat → Nat
  /-- Which objects have been released. -/
  released : Nat → Bool
  /-- The channels into the threads. -/
  queue : ι → List Nat
  /-- The object that a thread deals with, and the accesses to come. -/
  running : ι → Nat × List (Access φ)

variable {ι φ : Type*} [DecidableEq ι]

namespace Memory

variable (ι φ) in
omit [DecidableEq ι] in
/-- Nothing has been allocated. -/
def new : Memory ι φ where
  allocs := 0
  refCounter := fun _ => 0
  released := fun _ => false
  queue := fun _ => []
  running := fun _ => (0, [])

/-- An object with the given counter is allocated and sent to the threads `ws`. -/
def allocate (counter : Nat) (ws : List ι) (M : Memory ι φ) : Memory ι φ :=
  { M with
    allocs := M.allocs + 1
    refCounter := update M.refCounter M.allocs counter
    released := update M.released M.allocs false
    queue := fun w => M.queue w ++ List.replicate (ws.count w) M.allocs }

/-- Thread `w` takes the next address from its channel; the accesses `prog` are to come. -/
def take (w : ι) (prog : List (Access φ)) (M : Memory ι φ) : Memory ι φ :=
  match M.queue w with
  | [] => M
  | a :: as =>
      { M with queue := update M.queue w as, running := update M.running w (a, prog) }

/-- Thread `w` makes its next access. -/
def access (w : ι) (M : Memory ι φ) : Except Fault (Memory ι φ) :=
  match M.running w with
  | (_, []) => .ok M
  | (a, x :: xs) =>
      if M.released a then .error .released
      else match x with
        | .read _ => .ok { M with running := update M.running w (a, xs) }
        | .fetchSub =>
            if M.refCounter a = 0 then .error .underflow
            else .ok { M with
              refCounter := update M.refCounter a (M.refCounter a - 1)
              -- the thread that gets one back is the last
              running := update M.running w
                (a, if M.refCounter a = 1 then .delete :: xs else xs) }
        | .delete => .ok { M with
            released := update M.released a true
            running := update M.running w (a, xs) }

variable [DecidableEq φ]

omit [DecidableEq ι] in
/-- Somebody still has to take the object, to decrement its counter or to release it. -/
def Pending (M : Memory ι φ) (a : Nat) : Prop :=
  ∃ w, a ∈ M.queue w ∨
    (M.running w).1 = a ∧ (.fetchSub ∈ (M.running w).2 ∨ .delete ∈ (M.running w).2)

instance [Fintype ι] (M : Memory ι φ) (a : Nat) : Decidable (M.Pending a) := by
  unfold Pending
  infer_instance

omit [DecidableEq ι] [DecidableEq φ] in
/-- The next access of thread `w` is a read, after all that the thread had to do with the object. -/
def LateRead (M : Memory ι φ) (w : ι) : Prop :=
  ∃ f xs, (M.running w).2 = .read f :: xs ∧ .fetchSub ∉ xs ∧ .delete ∉ xs

instance (M : Memory ι φ) (w : ι) : Decidable (M.LateRead w) :=
  match h : (M.running w).2 with
  | [] => isFalse fun ⟨_, _, hxs, _⟩ => by rw [h] at hxs; cases hxs
  | .fetchSub :: _ => isFalse fun ⟨_, _, hxs, _⟩ => by rw [h] at hxs; cases hxs
  | .delete :: _ => isFalse fun ⟨_, _, hxs, _⟩ => by rw [h] at hxs; cases hxs
  | .read f :: xs => decidable_of_iff (.fetchSub ∉ xs ∧ .delete ∉ xs)
      ⟨fun hno => ⟨f, xs, h, hno⟩, fun ⟨_, _, hxs, hno⟩ => by
        rw [h] at hxs
        cases hxs
        exact hno⟩

/-- **The lifetimes are right**: exactly the objects are released that nobody still has to deal with,
and a thread about to release an object is the last: all the recipients have taken it and, if it has
a counter, decremented it. -/
structure Exact (M : Memory ι φ) : Prop where
  released_iff : ∀ a, a < M.allocs → (M.released a = true ↔ ¬ M.Pending a)
  last : ∀ w a xs, M.running w = (a, .delete :: xs) → ∀ v, a ∉ M.queue v ∧
    ((M.running v).1 = a → .fetchSub ∉ (M.running v).2)

/-! ## Counting the recipients -/

variable [Fintype ι] {M M' : Memory ι φ}

omit [DecidableEq φ] in
/-- A sum after one of its terms has been replaced. -/
theorem sum_update_add (f : ι → Nat) (w : ι) (n : Nat) :
    ∑ v, update f w n v + f w = ∑ v, f v + n := by
  rw [Finset.sum_update_of_mem (Finset.mem_univ w), Finset.sdiff_singleton_eq_erase,
    ← Finset.add_sum_erase Finset.univ f (Finset.mem_univ w)]
  omega

/-- How many times the object is still to be taken. -/
def waiting (M : Memory ι φ) (a : Nat) : Nat := ∑ w, (M.queue w).count a

/-- How often the access `x` to the object `a` is to come in a thread. -/
def due (x : Access φ) (a : Nat) (r : Nat × List (Access φ)) : Nat :=
  if r.1 = a then r.2.count x else 0

/-- How often the access `x` to the object is to come in all the threads. -/
def owed (M : Memory ι φ) (x : Access φ) (a : Nat) : Nat := ∑ w, due x a (M.running w)

omit [DecidableEq ι] [Fintype ι] in
/-- A holder with nothing left to do owes no access. -/
@[simp] theorem due_nil (x : Access φ) (a b : Nat) : due x a (b, []) = 0 := by
  simp [due]

omit [DecidableEq ι] [Fintype ι] in
/-- A thread gets on with an access. -/
theorem due_cons (x y : Access φ) (a b : Nat) (xs : List (Access φ)) :
    due x a (b, y :: xs) = due x a (b, xs) + if b = a ∧ y = x then 1 else 0 := by
  by_cases hb : b = a
  · by_cases hy : y = x <;> simp [due, hb, hy]
  · simp [due, hb]

/-- The thread `w` goes on with `r`. -/
theorem owed_update {w : ι} {r : Nat × List (Access φ)} (h : M'.running = update M.running w r)
    (x : Access φ) (a : Nat) :
    M'.owed x a + due x a (M.running w) = M.owed x a + due x a r := by
  have hf : (fun v => due x a (M'.running v)) = update (fun v => due x a (M.running v)) w (due x a r) := by
    funext v
    rw [h]
    by_cases hv : v = w
    · rw [hv, Function.update_self, Function.update_self]
    · rw [Function.update_of_ne hv, Function.update_of_ne hv]
  rw [owed, hf]
  exact sum_update_add _ w _

omit [DecidableEq φ] in
/-- The thread `w` takes the address `a`. -/
theorem waiting_update {w : ι} {a : Nat} {as : List Nat} (hq : M.queue w = a :: as)
    (h : M'.queue = update M.queue w as) (b : Nat) :
    M'.waiting b + (if a = b then 1 else 0) = M.waiting b := by
  have hf : (fun v => (M'.queue v).count b) = update (fun v => (M.queue v).count b) w (as.count b) := by
    funext v
    rw [h]
    by_cases hv : v = w
    · rw [hv, Function.update_self, Function.update_self]
    · rw [Function.update_of_ne hv, Function.update_of_ne hv]
  -- only the queue of `w` changes
  have hsum : M'.waiting b + (M.queue w).count b = M.waiting b + as.count b := by
    rw [waiting, hf]
    exact sum_update_add _ w _
  have hcount : (M.queue w).count b = as.count b + if a = b then 1 else 0 := by
    rw [hq, List.count_cons]
    simp
  omega

omit [DecidableEq ι] [DecidableEq φ] in
/-- What waits in one queue waits in some queue. -/
theorem count_le_waiting (M : Memory ι φ) (w : ι) (a : Nat) : (M.queue w).count a ≤ M.waiting a :=
  Finset.single_le_sum_of_canonicallyOrdered (f := fun v => (M.queue v).count a) (Finset.mem_univ w)

omit [DecidableEq ι] in
/-- What one holder owes is owed. -/
theorem due_le_owed (M : Memory ι φ) (x : Access φ) (a : Nat) (w : ι) :
    due x a (M.running w) ≤ M.owed x a :=
  Finset.single_le_sum_of_canonicallyOrdered (f := fun v => due x a (M.running v))
    (Finset.mem_univ w)

omit [DecidableEq ι] in
/-- Somebody still has to deal with an object if one of the three counts is not zero. -/
theorem pending_iff (M : Memory ι φ) (a : Nat) :
    M.Pending a ↔ M.waiting a + M.owed .fetchSub a + M.owed .delete a ≠ 0 := by
  have hdue : ∀ x w, due x a (M.running w) ≠ 0 ↔ (M.running w).1 = a ∧ x ∈ (M.running w).2 := by
    intro x w
    rw [due]
    by_cases h : (M.running w).1 = a
    · rw [if_pos h, ← Nat.pos_iff_ne_zero, List.count_pos_iff, and_iff_right h]
    · rw [if_neg h]
      exact ⟨fun h0 => absurd rfl h0, fun h' => absurd h'.1 h⟩
  -- a sum of naturals is not zero where some summand is not
  have hsum : ∀ f : ι → Nat, ∑ w, f w ≠ 0 ↔ ∃ w, f w ≠ 0 := by
    intro f
    rw [Ne, Finset.sum_eq_zero_iff]
    simp
  have hcount : M.waiting a + M.owed .fetchSub a + M.owed .delete a ≠ 0 ↔
      M.waiting a ≠ 0 ∨ M.owed .fetchSub a ≠ 0 ∨ M.owed .delete a ≠ 0 := by omega
  rw [hcount, waiting, owed, owed, hsum, hsum, hsum]
  constructor
  · rintro ⟨w, hq | ⟨hr, hx | hx⟩⟩
    · exact Or.inl ⟨w, (List.count_pos_iff.mpr hq).ne'⟩
    · exact Or.inr (Or.inl ⟨w, (hdue _ w).mpr ⟨hr, hx⟩⟩)
    · exact Or.inr (Or.inr ⟨w, (hdue _ w).mpr ⟨hr, hx⟩⟩)
  · rintro (⟨w, hw⟩ | ⟨w, hw⟩ | ⟨w, hw⟩)
    · exact ⟨w, Or.inl (List.count_pos_iff.mp (Nat.pos_of_ne_zero hw))⟩
    · obtain ⟨hr, hx⟩ := (hdue _ w).mp hw
      exact ⟨w, Or.inr ⟨hr, Or.inl hx⟩⟩
    · obtain ⟨hr, hx⟩ := (hdue _ w).mp hw
      exact ⟨w, Or.inr ⟨hr, Or.inr hx⟩⟩

/-- What the program of a recipient has to do: an object with a counter is decremented once, an object
without is released. -/
structure Disciplined (shared : Prop) (prog : List (Access φ)) : Prop where
  counted : shared → prog.count .fetchSub = 1 ∧ prog.count .delete = 0
  single : ¬ shared → prog.count .fetchSub = 0 ∧ prog.count .delete = 1

/-- **The invariant**, `shared` being the objects with a counter. An object is released, or some thread
is about to release it, once nobody has to take it or to decrement its counter any more. -/
structure Inv (shared : Nat → Prop) (M : Memory ι φ) : Prop where
  released : ∀ a, a < M.allocs → (if M.released a then 1 else 0) + M.owed .delete a =
    if M.waiting a + M.owed .fetchSub a = 0 then 1 else 0
  counter : ∀ a, a < M.allocs → shared a → M.refCounter a = M.waiting a + M.owed .fetchSub a
  single : ∀ a, a < M.allocs → ¬ shared a → M.waiting a ≤ 1 ∧ M.owed .fetchSub a = 0
  queued : ∀ w, ∀ a ∈ M.queue w, a < M.allocs
  run : ∀ w, (M.running w).2 ≠ [] → (M.running w).1 < M.allocs

variable {shared : Nat → Prop}

omit [DecidableEq ι] in
/-- The lifetimes are right. -/
theorem Inv.exact (h : M.Inv shared) : M.Exact where
  released_iff := by
    intro a ha
    have hrel := h.released a ha
    rw [pending_iff]
    split_ifs at hrel with hr hw hw
    · simp only [hr, true_iff]
      omega
    · omega
    · simp only [hr, Bool.false_eq_true, false_iff]
      omega
    · simp only [hr, Bool.false_eq_true, false_iff]
      omega
  last := by
    intro w a xs hw v
    have ha : a < M.allocs := by
      have := h.run w
      rw [hw] at this
      exact this (List.cons_ne_nil _ _)
    have hdel : 0 < M.owed .delete a := by
      have := M.due_le_owed .delete a w
      rw [hw, due_cons] at this
      simp at this
      omega
    -- so nobody has to take it or to decrement its counter
    have hnone : M.waiting a = 0 ∧ M.owed .fetchSub a = 0 := by
      have := h.released a ha
      split_ifs at this <;> omega
    constructor
    · intro hmem
      have hle := M.count_le_waiting v a
      have hpos := List.count_pos_iff.mpr hmem
      omega
    · intro hr hmem
      have hle := M.due_le_owed .fetchSub a v
      rw [due, if_pos hr] at hle
      have hpos := List.count_pos_iff.mpr hmem
      omega

omit [DecidableEq ι] in
/-- Nobody has heard of an address that has not been allocated. -/
theorem Inv.fresh (h : M.Inv shared) {a : Nat} (ha : M.allocs ≤ a) :
    M.waiting a = 0 ∧ ∀ x, M.owed x a = 0 := by
  constructor
  · refine Finset.sum_eq_zero fun w _ => List.count_eq_zero.mpr fun hmem => ?_
    have := h.queued w a hmem
    omega
  · intro x
    refine Finset.sum_eq_zero fun w _ => ?_
    by_cases hr : (M.running w).2 = []
    · rw [due, hr]
      simp
    · have := h.run w hr
      rw [due, if_neg (by omega)]

omit [DecidableEq ι] in
/-- Only the objects allocated matter. -/
theorem Inv.congr {shared' : Nat → Prop} (h : M.Inv shared)
    (hs : ∀ a, a < M.allocs → (shared' a ↔ shared a)) : M.Inv shared' where
  released := h.released
  counter := fun a ha hsh => h.counter a ha ((hs a ha).mp hsh)
  single := fun a ha hsh => h.single a ha fun hsh' => hsh ((hs a ha).mpr hsh')
  queued := h.queued
  run := h.run

/-! ## The steps keep the invariant -/

omit [DecidableEq ι] in
/-- Before anything happens. -/
theorem inv_new (shared : Nat → Prop) : (new ι φ).Inv shared where
  released := fun a ha => absurd ha (Nat.not_lt_zero a)
  counter := fun a ha => absurd ha (Nat.not_lt_zero a)
  single := fun a ha => absurd ha (Nat.not_lt_zero a)
  queued := fun _ _ ha => absurd ha List.not_mem_nil
  run := fun _ h => absurd rfl h

omit [DecidableEq φ] in
/-- An object is sent to its recipients. -/
theorem waiting_allocate (M : Memory ι φ) (counter : Nat) (ws : List ι) (a : Nat) :
    (M.allocate counter ws).waiting a = M.waiting a + if M.allocs = a then ws.length else 0 := by
  -- each receiver has the new object once more for each time it is sent to it
  have hterm : ∀ w, ((M.allocate counter ws).queue w).count a =
      (M.queue w).count a + if M.allocs = a then ws.count w else 0 := by
    intro w
    rw [allocate, List.count_append, List.count_replicate]
    simp
  have hlen : ∑ w, ws.count w = ws.length := by
    have := Multiset.sum_count_eq_card (s := Finset.univ) (m := (ws : Multiset ι))
      fun w _ => Finset.mem_univ w
    simpa using this
  rw [waiting, Finset.sum_congr rfl fun w _ => hterm w, Finset.sum_add_distrib, waiting]
  by_cases ha : M.allocs = a
  · simp only [if_pos ha, hlen]
  · simp only [if_neg ha, Finset.sum_const_zero]

/-- **An object is allocated** for some recipients: for one, unless it has a counter, which is then
the number of recipients. -/
theorem Inv.allocate (h : M.Inv shared) {counter : Nat} {ws : List ι} (hws : ws ≠ [])
    (hshared : shared M.allocs → counter = ws.length) (hsingle : ¬ shared M.allocs → ws.length = 1) :
    (M.allocate counter ws).Inv shared := by
  have hlen : 0 < ws.length := List.length_pos_iff.mpr hws
  have howed : ∀ x a, (M.allocate counter ws).owed x a = M.owed x a := fun _ _ => rfl
  obtain ⟨hw0, hx0⟩ := h.fresh (le_refl M.allocs)
  have hcases : ∀ a, a < M.allocs + 1 → a = M.allocs ∨ a < M.allocs ∧ M.allocs ≠ a := by
    intro a ha
    omega
  -- each clause of the invariant, for the object just allocated and for the older ones
  refine ⟨fun a ha => ?_, fun a ha hs => ?_, fun a ha hs => ?_, fun w a ha => ?_, fun w hw => ?_⟩
  · rw [waiting_allocate, howed, howed]
    rcases hcases a ha with rfl | ⟨hlt, hne⟩
    · have hrel : (M.allocate counter ws).released M.allocs = false := update_self ..
      have hne : ¬ 0 + ws.length + 0 = 0 := by omega
      rw [hrel, hw0, hx0, hx0, if_pos rfl, if_neg Bool.false_ne_true, if_neg hne]
    · have hrel : (M.allocate counter ws).released a = M.released a := update_of_ne hne.symm ..
      rw [hrel, if_neg hne, Nat.add_zero]
      exact h.released a hlt
  · rw [waiting_allocate, howed]
    rcases hcases a ha with rfl | ⟨hlt, hne⟩
    · have hcnt : (M.allocate counter ws).refCounter M.allocs = counter := update_self ..
      rw [hcnt, hw0, hx0, if_pos rfl, hshared hs]
      omega
    · have hcnt : (M.allocate counter ws).refCounter a = M.refCounter a := update_of_ne hne.symm ..
      rw [hcnt, if_neg hne]
      exact h.counter a hlt hs
  · rw [waiting_allocate, howed]
    rcases hcases a ha with rfl | ⟨hlt, hne⟩
    · rw [hw0, hx0, if_pos rfl, hsingle hs]
      omega
    · rw [if_neg hne]
      exact h.single a hlt hs
  · rcases List.mem_append.mp ha with ha | ha
    · exact Nat.lt_succ_of_lt (h.queued w a ha)
    · rw [List.eq_of_mem_replicate ha]
      exact Nat.lt_succ_self _
  · exact Nat.lt_succ_of_lt (h.run w hw)

/-- **A thread takes an address**, having finished with the one before. -/
theorem Inv.take (h : M.Inv shared) {w : ι} (hidle : (M.running w).2 = []) {a : Nat} {as : List Nat}
    (hq : M.queue w = a :: as) {prog : List (Access φ)} (hprog : Disciplined (shared a) prog) :
    (M.take w prog).Inv shared := by
  have htake : M.take w prog =
      { M with queue := update M.queue w as, running := update M.running w (a, prog) } := by
    rw [Memory.take, hq]
  obtain ⟨M', hM'⟩ : ∃ M', M' = M.take w prog := ⟨_, rfl⟩
  rw [← hM'] at htake ⊢
  have ha : a < M.allocs := h.queued w a (hq ▸ List.mem_cons_self)
  have hwait := fun b => waiting_update hq (show M'.queue = update M.queue w as by rw [htake]) b
  have hdue : ∀ x b, M'.owed x b = M.owed x b + due x b (a, prog) := by
    intro x b
    have := owed_update (show M'.running = update M.running w (a, prog) by rw [htake]) x b
    rw [← Prod.mk.eta (p := M.running w), hidle, due_nil] at this
    exact this
  have hrel : M'.released = M.released := by rw [htake]
  have hcnt : M'.refCounter = M.refCounter := by rw [htake]
  have hlen : M'.allocs = M.allocs := by rw [htake]
  have hself : ∀ x, due x a (a, prog) = prog.count x := fun x => if_pos rfl
  -- only the object taken is concerned
  have hother : ∀ b, a ≠ b → M'.waiting b = M.waiting b ∧ ∀ x, M'.owed x b = M.owed x b := by
    intro b hb
    have hb' := hwait b
    rw [if_neg hb] at hb'
    refine ⟨hb', fun x => ?_⟩
    rw [hdue, due, if_neg hb]
    rfl
  have hone := hwait a
  rw [if_pos rfl] at hone
  refine ⟨fun b hb => ?_, fun b hb hs => ?_, fun b hb hs => ?_, fun v b hb => ?_, fun v hv => ?_⟩
  · rw [hlen] at hb
    rw [hrel]
    have hold := h.released b hb
    by_cases hab : a = b
    · subst hab
      rw [hdue, hdue, hself, hself]
      by_cases hs : shared a
      · obtain ⟨hf, hd⟩ := hprog.counted hs
        rw [hf, hd, show M'.waiting a + (M.owed .fetchSub a + 1) = M.waiting a + M.owed .fetchSub a
          by omega]
        exact hold
      · obtain ⟨hf, hd⟩ := hprog.single hs
        obtain ⟨hle, hzero⟩ := h.single a hb hs
        have hbefore : ¬ M.waiting a + 0 = 0 := by omega
        have hafter : M'.waiting a + (0 + 0) = 0 := by omega
        rw [hzero, if_neg hbefore] at hold
        rw [hf, hd, hzero, if_pos hafter]
        omega
    · obtain ⟨hw, ho⟩ := hother b hab
      rw [hw, ho, ho]
      exact hold
  · rw [hlen] at hb
    rw [hcnt, h.counter b hb hs]
    by_cases hab : a = b
    · subst hab
      rw [hdue, hself, (hprog.counted hs).1]
      omega
    · obtain ⟨hw, ho⟩ := hother b hab
      rw [hw, ho]
  · rw [hlen] at hb
    obtain ⟨hle, hzero⟩ := h.single b hb hs
    by_cases hab : a = b
    · subst hab
      rw [hdue, hself, (hprog.single hs).1]
      omega
    · obtain ⟨hw, ho⟩ := hother b hab
      rw [hw, ho]
      exact ⟨hle, hzero⟩
  · rw [hlen]
    have hqueue : M'.queue = update M.queue w as := by rw [htake]
    rw [hqueue] at hb
    by_cases hv : v = w
    · rw [hv, update_self] at hb
      exact h.queued w b (hq ▸ List.mem_cons_of_mem a hb)
    · rw [update_of_ne hv] at hb
      exact h.queued v b hb
  · rw [hlen]
    have hrunning : M'.running = update M.running w (a, prog) := by rw [htake]
    rw [hrunning] at hv ⊢
    by_cases hvw : v = w
    · rw [hvw, update_self]
      exact ha
    · rw [update_of_ne hvw] at hv ⊢
      exact h.run v hv

/-- An object that is taken by a thread which does not mean to release it stays for ever. -/
theorem Inv.take_leaks (h : M.Inv shared) {w : ι} (hidle : (M.running w).2 = []) {a : Nat}
    {as : List Nat} (hq : M.queue w = a :: as) (hs : ¬ shared a) {prog : List (Access φ)}
    (hf : .fetchSub ∉ prog) (hd : .delete ∉ prog) : ¬ (M.take w prog).Exact := by
  have htake : M.take w prog =
      { M with queue := update M.queue w as, running := update M.running w (a, prog) } := by
    rw [Memory.take, hq]
  obtain ⟨M', hM'⟩ : ∃ M', M' = M.take w prog := ⟨_, rfl⟩
  rw [← hM'] at htake ⊢
  intro hexact
  have ha : a < M.allocs := h.queued w a (hq ▸ List.mem_cons_self)
  have hwait := waiting_update hq (show M'.queue = update M.queue w as by rw [htake]) a
  rw [if_pos rfl] at hwait
  have hdue : ∀ x, M'.owed x a = M.owed x a + prog.count x := by
    intro x
    have := owed_update (show M'.running = update M.running w (a, prog) by rw [htake]) x a
    rw [← Prod.mk.eta (p := M.running w), hidle, due_nil, due, if_pos rfl] at this
    exact this
  obtain ⟨hle, hzero⟩ := h.single a ha hs
  have hold := h.released a ha
  have hbefore : ¬ M.waiting a + 0 = 0 := by omega
  rw [hzero, if_neg hbefore] at hold
  -- it has not been released, and nobody has to deal with it any more
  have hrel : M'.released a = false := by
    rw [htake]
    by_contra hr
    rw [Bool.not_eq_false] at hr
    rw [if_pos hr] at hold
    omega
  have hdone : ¬ M'.Pending a := by
    rw [pending_iff, hdue, hdue, List.count_eq_zero_of_not_mem hf, List.count_eq_zero_of_not_mem hd]
    omega
  have := (hexact.released_iff a (by rw [htake]; exact ha)).mpr hdone
  rw [hrel] at this
  exact Bool.false_ne_true this

omit [DecidableEq ι] in
/-- The next access is to an object that has not been released, unless it is a late read. -/
theorem Inv.not_released (h : M.Inv shared) {w : ι} (hrun : (M.running w).2 ≠ [])
    (hlate : M.LateRead w → M.Pending (M.running w).1) : M.released (M.running w).1 = false := by
  have ha := h.run w hrun
  have hiff := h.exact.released_iff _ ha
  by_contra hr
  rw [Bool.not_eq_false, hiff] at hr
  -- whoever is running on a released object owes neither a decrement nor a `delete`
  have hin : .fetchSub ∉ (M.running w).2 ∧ .delete ∉ (M.running w).2 := by
    constructor
    · exact fun hmem => hr ⟨w, Or.inr ⟨rfl, Or.inl hmem⟩⟩
    · exact fun hmem => hr ⟨w, Or.inr ⟨rfl, Or.inr hmem⟩⟩
  apply hr
  apply hlate
  cases hxs : (M.running w).2 with
  | nil => exact absurd hxs hrun
  | cons x xs =>
      rw [hxs, List.mem_cons, List.mem_cons, not_or, not_or] at hin
      cases x with
      -- so the next access is a read after the last decrement: the condition excludes it
      | read f => exact ⟨f, xs, hxs, hin.1.2, hin.2.2⟩
      | fetchSub => exact absurd rfl hin.1.1
      | delete => exact absurd rfl hin.2.1

section Step

variable {w : ι} {a : Nat} {x : Access φ} {xs ys : List (Access φ)}

/-- What is still to come of the object whose access `x` thread `w` has made. -/
theorem owed_step (hw : M.running w = (a, x :: xs)) (hr : M'.running = update M.running w (a, ys))
    (y : Access φ) :
    M'.owed y a + (if x = y then 1 else 0) + xs.count y = M.owed y a + ys.count y := by
  have := owed_update hr y a
  rw [hw, due_cons, due, due, if_pos rfl, if_pos rfl] at this
  simp only [true_and] at this
  omega

/-- A step of thread `w` on its object keeps the invariant if it does for this object. -/
theorem Inv.step (h : M.Inv shared) (hw : M.running w = (a, x :: xs))
    (hr : M'.running = update M.running w (a, ys)) (hq : M'.queue = M.queue)
    (hl : M'.allocs = M.allocs) (hrel : ∀ b, b ≠ a → M'.released b = M.released b)
    (hcnt : ∀ b, b ≠ a → M'.refCounter b = M.refCounter b)
    (hself : (if M'.released a then 1 else 0) + M'.owed .delete a =
      if M.waiting a + M'.owed .fetchSub a = 0 then 1 else 0)
    (hcounter : shared a → M'.refCounter a = M.waiting a + M'.owed .fetchSub a)
    (hsingle : ¬ shared a → M'.owed .fetchSub a = 0) : M'.Inv shared := by
  have hwait : ∀ b, M'.waiting b = M.waiting b := fun b => by rw [waiting, hq, waiting]
  -- what is owed of the other objects does not change
  have howed : ∀ b, b ≠ a → ∀ y, M'.owed y b = M.owed y b := by
    intro b hb y
    have := owed_update hr y b
    rw [hw, due, due, if_neg hb.symm, if_neg hb.symm] at this
    exact this
  -- each clause of the invariant: for object `a` it is given, for the others it is as before
  refine ⟨fun b hb => ?_, fun b hb hs => ?_, fun b hb hs => ?_, fun v b hb => ?_, fun v hv => ?_⟩
  · rw [hwait]
    by_cases hba : b = a
    · rw [hba]
      exact hself
    · rw [hrel b hba, howed b hba, howed b hba]
      exact h.released b (hl ▸ hb)
  · rw [hwait]
    by_cases hba : b = a
    · rw [hba] at hs ⊢
      exact hcounter hs
    · rw [hcnt b hba, howed b hba]
      exact h.counter b (hl ▸ hb) hs
  · rw [hwait]
    refine ⟨(h.single b (hl ▸ hb) hs).1, ?_⟩
    by_cases hba : b = a
    · rw [hba] at hs ⊢
      exact hsingle hs
    · rw [howed b hba]
      exact (h.single b (hl ▸ hb) hs).2
  · rw [hq] at hb
    rw [hl]
    exact h.queued v b hb
  · rw [hl]
    by_cases hvw : v = w
    · have ha := h.run w (by rw [hw]; exact List.cons_ne_nil _ _)
      rw [hw] at ha
      rw [hr, hvw, update_self]
      exact ha
    · rw [hr, update_of_ne hvw] at hv ⊢
      exact h.run v hv

/-- A field is read. -/
theorem Inv.read (h : M.Inv shared) {f : φ} (hw : M.running w = (a, .read f :: xs))
    (ha : a < M.allocs) : ({ M with running := update M.running w (a, xs) }).Inv shared := by
  obtain ⟨M', hM'⟩ : ∃ M', M' = { M with running := update M.running w (a, xs) } := ⟨_, rfl⟩
  have hr : M'.running = update M.running w (a, xs) := by rw [hM']
  -- a read pays neither a decrement nor a `delete`
  have hf : M'.owed .fetchSub a = M.owed .fetchSub a := by
    have := owed_step hw hr .fetchSub
    rw [if_neg (by simp)] at this
    omega
  have hd : M'.owed .delete a = M.owed .delete a := by
    have := owed_step hw hr .delete
    rw [if_neg (by simp)] at this
    omega
  rw [← hM']
  refine h.step hw hr (by rw [hM']) (by rw [hM']) (fun b _ => by rw [hM']) (fun b _ => by rw [hM'])
    ?_ (fun hs => ?_) (fun hs => ?_)
  · rw [hf, hd, hM']
    exact h.released a ha
  · rw [hf, hM']
    exact h.counter a ha hs
  · rw [hf]
    exact (h.single a ha hs).2

/-- The counter is decremented; the thread that gets `1` back is to release the object. -/
theorem Inv.fetchSub (h : M.Inv shared) (hw : M.running w = (a, .fetchSub :: xs))
    (ha : a < M.allocs) (hrel : M.released a = false) :
    M.refCounter a ≠ 0 ∧ ({ M with
      refCounter := update M.refCounter a (M.refCounter a - 1)
      running := update M.running w
        (a, if M.refCounter a = 1 then .delete :: xs else xs) }).Inv shared := by
  obtain ⟨ys, hys⟩ : ∃ ys, ys = if M.refCounter a = 1 then .delete :: xs else xs := ⟨_, rfl⟩
  rw [← hys]
  obtain ⟨M', hM'⟩ : ∃ M', M' = { M with
    refCounter := update M.refCounter a (M.refCounter a - 1)
    running := update M.running w (a, ys) } := ⟨_, rfl⟩
  have hr : M'.running = update M.running w (a, ys) := by rw [hM']
  -- the access is one of those that the counter counts
  have hpos : 0 < M.owed .fetchSub a := by
    have := M.due_le_owed .fetchSub a w
    rw [hw, due_cons, if_pos ⟨rfl, rfl⟩] at this
    omega
  have hs : shared a := by
    by_contra hs
    have := (h.single a ha hs).2
    omega
  have hcnt := h.counter a ha hs
  have hf : M'.owed .fetchSub a + 1 = M.owed .fetchSub a := by
    have := owed_step hw hr .fetchSub
    rw [if_pos rfl] at this
    have hcount : ys.count .fetchSub = xs.count .fetchSub := by
      rw [hys]
      split <;> simp
    omega
  -- the one that reads `1` has to delete the object
  have hd : M'.owed .delete a = M.owed .delete a + if M.refCounter a = 1 then 1 else 0 := by
    have := owed_step hw hr .delete
    rw [if_neg (by simp)] at this
    have hcount : ys.count .delete = xs.count .delete + if M.refCounter a = 1 then 1 else 0 := by
      rw [hys]
      split <;> simp
    omega
  have hold := h.released a ha
  rw [hrel] at hold
  refine ⟨by omega, ?_⟩
  rw [← hM']
  have hcnt' : M'.refCounter a = M.refCounter a - 1 := by rw [hM']; exact update_self ..
  have hrel' : M'.released = M.released := by rw [hM']
  refine h.step hw hr (by rw [hM']) (by rw [hM']) (fun b _ => by rw [hM'])
    (fun b hb => by rw [hM']; exact update_of_ne hb ..) ?_ (fun _ => ?_) (fun hs' => absurd hs hs')
  · rw [hrel', hrel, hd]
    have hbefore : ¬ M.waiting a + M.owed .fetchSub a = 0 := by omega
    rw [if_neg hbefore] at hold
    by_cases hone : M.refCounter a = 1
    · have hafter : M.waiting a + M'.owed .fetchSub a = 0 := by omega
      rw [if_pos hone, if_pos hafter]
      omega
    · have hafter : ¬ M.waiting a + M'.owed .fetchSub a = 0 := by omega
      rw [if_neg hone, if_neg hafter]
      omega
  · omega

/-- The object is released. -/
theorem Inv.delete (h : M.Inv shared) (hw : M.running w = (a, .delete :: xs)) (ha : a < M.allocs)
    (hrel : M.released a = false) : ({ M with
      released := update M.released a true
      running := update M.running w (a, xs) }).Inv shared := by
  obtain ⟨M', hM'⟩ : ∃ M', M' = { M with
    released := update M.released a true
    running := update M.running w (a, xs) } := ⟨_, rfl⟩
  have hr : M'.running = update M.running w (a, xs) := by rw [hM']
  have hf : M'.owed .fetchSub a = M.owed .fetchSub a := by
    have := owed_step hw hr .fetchSub
    rw [if_neg (by simp)] at this
    omega
  -- the `delete` that was owed has been paid
  have hd : M'.owed .delete a + 1 = M.owed .delete a := by
    have := owed_step hw hr .delete
    rw [if_pos rfl] at this
    omega
  have hold := h.released a ha
  rw [hrel, if_neg Bool.false_ne_true] at hold
  have hrel' : M'.released a = true := by rw [hM']; exact update_self ..
  rw [← hM']
  refine h.step hw hr (by rw [hM']) (by rw [hM']) (fun b hb => by rw [hM']; exact update_of_ne hb ..)
    (fun b _ => by rw [hM']) ?_ (fun hs => ?_) (fun hs => ?_)
  · rw [hf, ← hold, hrel', if_pos rfl]
    omega
  · rw [hf, hM']
    exact h.counter a ha hs
  · rw [hf]
    exact (h.single a ha hs).2

end Step

/-- **A thread makes an access.** If it is a late read, somebody else must be later still. -/
theorem Inv.access (h : M.Inv shared) {w : ι} (hrun : (M.running w).2 ≠ [])
    (hlate : M.LateRead w → M.Pending (M.running w).1) :
    ∃ M', M.access w = .ok M' ∧ M'.Inv shared ∧ M'.queue = M.queue ∧ M'.allocs = M.allocs := by
  have hrel := h.not_released hrun hlate
  have ha := h.run w hrun
  rcases hw : M.running w with ⟨a, _ | ⟨x, xs⟩⟩
  · rw [hw] at hrun
    exact absurd rfl hrun
  · rw [hw] at hrel ha
    have hno : ¬ M.released a = true := by
      rw [hrel]
      exact Bool.false_ne_true
    -- a read of a live object, a decrement of a positive counter, or the `delete` owed
    cases x with
    | read f =>
        refine ⟨_, ?_, h.read hw ha, rfl, rfl⟩
        rw [Memory.access, hw]
        exact if_neg hno
    | fetchSub =>
        obtain ⟨hpos, hinv⟩ := h.fetchSub hw ha hrel
        refine ⟨_, ?_, hinv, rfl, rfl⟩
        rw [Memory.access, hw]
        exact (if_neg hno).trans (if_neg hpos)
    | delete =>
        refine ⟨_, ?_, h.delete hw ha hrel, rfl, rfl⟩
        rw [Memory.access, hw]
        exact if_neg hno

/-- A late read is a fault if nobody is later. -/
theorem Inv.access_late (h : M.Inv shared) {w : ι} (hlate : M.LateRead w)
    (hno : ¬ M.Pending (M.running w).1) : M.access w = .error .released := by
  obtain ⟨f, xs, hxs, -⟩ := hlate
  have ha := h.run w (by rw [hxs]; exact List.cons_ne_nil _ _)
  have hrel := (h.exact.released_iff _ ha).mpr hno
  rw [Memory.access, ← Prod.mk.eta (p := M.running w), hxs]
  exact if_pos hrel

end Memory

end ElasticPPQ.Lifetime
