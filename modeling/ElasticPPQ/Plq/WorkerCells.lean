import ElasticPPQ.Lib.FifoNet
import ElasticPPQ.Plq.Worker
import Mathlib.Data.List.TakeWhile

/-! # A PLQ worker seen one pane at a time

The deque of a worker is kept sorted by pane identifier, so what happens to one pane does not depend
on the others. For each pane we look at a *cell*: the instance counters of the results sets the
worker holds for that pane, and of those it has emitted for it. `svc` acts on the deque as
`cellStep` acts on every cell (`svc_cell`), and a whole list of messages likewise
(`feedAll_cell`). -/

namespace ElasticPPQ

open FifoNet

/-- The instance counters of the open and of the emitted results sets of one pane. -/
abbrev Cell := List Nat × List Nat

/-- What one message does to the cell of pane `p` in a `PlqWorker`, or in a `PlqWorker` of the
in-order pipeline (`iop`), where every message for a later pane closes the cell. -/
def cellStep {DIM : Nat} (iop : Bool) (p : Nat) (c : Cell) (t : Tuple DIM) : Cell :=
  match t.type with
  | .punct => if p < t.paneId then ([], c.2 ++ c.1) else c
  | .end => ([], c.2 ++ c.1)
  | .newInst => if p = t.paneId then (c.1.map fun _ => t.noInstances, c.2) else c
  | .flush =>
      if iop ∧ p < t.paneId then ([], c.2 ++ c.1) else ([], c.2 ++ c.1.map fun _ => 0)
  | .lull => if p = t.paneId then (c.1, c.2 ++ [t.noInstances]) else c
  | _ =>
      if p = t.paneId ∧ c.1 = [] then ([t.noInstances], c.2)
      else if iop ∧ p < t.paneId then ([], c.2 ++ c.1)
      else c

/-- What a message asks of the cells: the pane of a `NEW_INST` is open; in the in-order pipeline
there are no punctuations, and no later pane is open when a tuple or an `EMPTYPANE` arrives. -/
structure MsgOk {DIM : Nat} (iop : Bool) (c : Nat → Cell) (t : Tuple DIM) : Prop where
  isOpen : t.type = .newInst → (c t.paneId).1 ≠ []
  noPunct : iop = true → t.type ≠ .punct
  latest : iop = true → t.type = .regular ∨ t.type = .emptyPane ∨ t.type = .unspecified →
    ∀ p, t.paneId < p → (c p).1 = []

/-- The messages can be processed one after the other. -/
def CellsOk {DIM : Nat} (iop : Bool) (c : Nat → Cell) : List (Tuple DIM) → Prop
  | [] => True
  | t :: ts => MsgOk iop c t ∧ CellsOk iop (fun p => cellStep iop p (c p) t) ts

namespace PlqWorker

variable {R : Type} {DIM : Nat}

/-- The deque is strictly increasing in pane identifier. -/
def Sorted (w : PlqWorker R) : Prop := w.paneSet.Pairwise fun r s => r.id < s.id

/-- The cell of pane `p` of a worker with its emissions. -/
def cell (p : Nat) (x : PlqWorker R × List (Rset R)) : Cell :=
  ((x.1.paneSet.filter fun r => r.id = p).map Rset.noInstances,
    (x.2.filter fun r => r.id = p).map Rset.noInstances)

/-! ## The lower bound in a sorted deque -/

/-- A deque is what is before a pane, and the rest. -/
theorem before_append_lowerBound (w : PlqWorker R) (p : Nat) :
    w.before p ++ w.lowerBound p = w.paneSet :=
  List.takeWhile_append_dropWhile

/-- What is before a pane has a smaller identifier. -/
theorem id_lt_of_mem_before {w : PlqWorker R} {p : Nat} {r : Rset R} (h : r ∈ w.before p) :
    r.id < p := by
  have := List.mem_takeWhile_imp h
  simpa using this

/-- In a sorted deque everything from the lower bound on has at least that identifier. -/
theorem Sorted.le_of_mem_lowerBound {w : PlqWorker R} (hw : w.Sorted) {p : Nat} {r : Rset R}
    (h : r ∈ w.lowerBound p) : p ≤ r.id := by
  have hpw : (w.lowerBound p).Pairwise fun r s => r.id < s.id :=
    hw.sublist (List.dropWhile_sublist _)
  -- the first set not below the pane is at least it, and the deque is increasing
  cases hl : w.lowerBound p with
  | nil => rw [hl] at h; cases h
  | cons a l =>
      have ha : p ≤ a.id := by
        have hhead := List.head?_dropWhile_not (fun r : Rset R => decide (r.id < p)) w.paneSet
        have hl' : (w.paneSet.dropWhile fun r => r.id < p) = a :: l := hl
        rw [hl'] at hhead
        simpa using hhead
      rw [hl] at h hpw
      rcases List.mem_cons.mp h with rfl | h
      · exact ha
      · exact ha.trans (List.rel_of_pairwise_cons hpw h).le

/-! ## One message -/

/-- Results sets of another pane do not enter a cell. -/
theorem filter_eq_nil_of_lt {l : List (Rset R)} {p : Nat} (h : ∀ r ∈ l, r.id < p) :
    l.filter (fun r => r.id = p) = [] := by
  rw [List.filter_eq_nil_iff]
  intro r hr
  have := h r hr
  simp only [decide_eq_true_eq]
  omega

/-- Among panes with greater identifiers the pane is not found. -/
theorem filter_eq_nil_of_gt {l : List (Rset R)} {p : Nat} (h : ∀ r ∈ l, p < r.id) :
    l.filter (fun r => r.id = p) = [] := by
  rw [List.filter_eq_nil_iff]
  intro r hr
  have := h r hr
  simp only [decide_eq_true_eq]
  omega

/-- Inserting at the lower bound keeps the deque sorted. -/
theorem Sorted.insert {w : PlqWorker R} (hw : w.Sorted) {p : Nat} {r : Rset R} (hr : r.id = p)
    (h : ∀ s ∈ w.lowerBound p, s.id ≠ p) :
    (w.before p ++ r :: w.lowerBound p).Pairwise fun r s => r.id < s.id := by
  -- the deque splits at the pane into smaller and not smaller ids
  have hsplit := hw
  rw [Sorted, ← before_append_lowerBound w p, List.pairwise_append] at hsplit
  obtain ⟨hb, hl, hbl⟩ := hsplit
  rw [List.pairwise_append, List.pairwise_cons]
  -- the new set is below those behind it and above those before it
  refine ⟨hb, ⟨?_, hl⟩, ?_⟩
  · intro s hs
    have := hw.le_of_mem_lowerBound hs
    have := h s hs
    omega
  · intro a ha b hb'
    have := id_lt_of_mem_before ha
    rcases List.mem_cons.mp hb' with rfl | hb'
    · omega
    · exact hbl a ha b hb'

/-- Replacing the results set at the lower bound by one of the same pane keeps the deque sorted. -/
theorem Sorted.replace {w : PlqWorker R} (hw : w.Sorted) {p : Nat} {r r' : Rset R}
    {rest : List (Rset R)} (hl : w.lowerBound p = r :: rest) (hr : r'.id = r.id) :
    (w.before p ++ r' :: rest).Pairwise fun r s => r.id < s.id := by
  have hsplit := hw
  rw [Sorted, ← before_append_lowerBound w p, hl, List.pairwise_append, List.pairwise_cons]
    at hsplit
  obtain ⟨hb, ⟨hrest, hl'⟩, hbl⟩ := hsplit
  rw [List.pairwise_append, List.pairwise_cons]
  refine ⟨hb, ⟨fun s hs => hr ▸ hrest s hs, hl'⟩, ?_⟩
  intro a ha b hb'
  rcases List.mem_cons.mp hb' with rfl | hb'
  · exact hr ▸ hbl a ha r List.mem_cons_self
  · exact hbl a ha b (List.mem_cons_of_mem _ hb')

/-- Where the lower bound of a pane stands: either the pane is not in the deque, or its only results
set is there. -/
theorem Sorted.lowerBound_cases {w : PlqWorker R} (hw : w.Sorted) (q : Nat) :
    (w.paneSet.filter (fun r => r.id = q) = [] ∧ ∀ s ∈ w.lowerBound q, q < s.id) ∨
      ∃ r rest, w.lowerBound q = r :: rest ∧ r.id = q ∧
        w.paneSet.filter (fun r => r.id = q) = [r] ∧ ∀ s ∈ rest, q < s.id := by
  -- the sets before the bound are all of smaller panes
  have hfilter : w.paneSet.filter (fun r => r.id = q)
      = (w.lowerBound q).filter (fun r => r.id = q) := by
    rw [← before_append_lowerBound w q, List.filter_append,
      filter_eq_nil_of_lt fun r hr => id_lt_of_mem_before hr, List.nil_append]
  rw [hfilter]
  have hpw : (w.lowerBound q).Pairwise fun r s => r.id < s.id :=
    hw.sublist (List.dropWhile_sublist _)
  have hle := fun r hr => hw.le_of_mem_lowerBound (p := q) (r := r) hr
  cases hl : w.lowerBound q with
  | nil => exact Or.inl ⟨rfl, fun s hs => absurd hs List.not_mem_nil⟩
  | cons r rest =>
      rw [hl] at hpw hle
      have hrest : ∀ s ∈ rest, r.id < s.id := fun s hs => List.rel_of_pairwise_cons hpw hs
      have hr := hle r List.mem_cons_self
      -- the set found either is the pane's own, the only one, or belongs to a later pane
      by_cases hq : r.id = q
      · refine Or.inr ⟨r, rest, rfl, hq, ?_, fun s hs => hq ▸ hrest s hs⟩
        rw [List.filter_cons_of_pos (by simpa using hq),
          filter_eq_nil_of_gt fun s hs => hq ▸ hrest s hs]
      · have hgt : ∀ s ∈ r :: rest, q < s.id := by
          intro s hs
          rcases List.mem_cons.mp hs with rfl | hs
          · omega
          · have := hrest s hs
            omega
        exact Or.inl ⟨filter_eq_nil_of_gt hgt, hgt⟩

/-- Where the deque is cut does not matter to the partitions of a pane. -/
theorem filter_before (w : PlqWorker R) (p q : Nat) :
    (w.before q).filter (fun r => r.id = p) ++ (w.lowerBound q).filter (fun r => r.id = p)
      = w.paneSet.filter fun r => r.id = p := by
  rw [← List.filter_append, before_append_lowerBound]

/-- The cells of a worker change only where its deque and its emissions do. -/
theorem cell_append (p : Nat) (w : PlqWorker R) (out o : List (Rset R)) :
    cell p (w, out ++ o) =
      ((w.paneSet.filter fun r => r.id = p).map Rset.noInstances,
        (cell p (w, out)).2 ++ (o.filter fun r => r.id = p).map Rset.noInstances) := by
  simp [cell]

/-- The deque after a `NEW_INST` message for an open pane: its counter is the one of the message. -/
theorem setInstances_spec {w : PlqWorker R} (hw : w.Sorted) {t : Tuple DIM}
    (ht : w.paneSet.filter (fun r => r.id = t.paneId) ≠ []) :
    ∃ w', w.setInstances t = some w' ∧ w'.Sorted ∧ w'.allocs = w.allocs ∧
      (∀ p, p ≠ t.paneId → w'.paneSet.filter (fun r => r.id = p)
        = w.paneSet.filter fun r => r.id = p) ∧
      w'.paneSet.filter (fun r => r.id = t.paneId)
        = (w.paneSet.filter fun r => r.id = t.paneId).map
            fun r => r.setNoInstances t.noInstances := by
  -- the pane's set is there, and only its count is written
  rcases hw.lowerBound_cases t.paneId with ⟨hnil, -⟩ | ⟨r, rest, hl, hr, hone, hgt⟩
  · exact absurd hnil ht
  · refine ⟨{ w with paneSet := w.before t.paneId ++ r.setNoInstances t.noInstances :: rest },
      by simp [setInstances, hl, hr], hw.replace hl rfl, rfl, fun p hp => ?_, ?_⟩
    · have hsplit := filter_before w p t.paneId
      have hrp : ¬ r.id = p := by rw [hr]; exact Ne.symm hp
      rw [hl, List.filter_cons_of_neg (by simpa using hrp)] at hsplit
      simp only [List.filter_append]
      rw [List.filter_cons_of_neg (by simp [hrp]), hsplit]
    · simp only [List.filter_append]
      rw [filter_eq_nil_of_lt fun r hr => id_lt_of_mem_before hr,
        List.filter_cons_of_pos (by simp [hr]), filter_eq_nil_of_gt hgt, hone]
      rfl

variable [PrefQuery (Row ℚ DIM) R]

/-- A tuple leaves the pane of a results set alone. -/
@[simp] theorem compute_id (r : Rset R) (t : Tuple DIM) : (compute r t).id = r.id := by
  unfold compute
  split <;> rfl

/-- A tuple leaves the number of partitions alone. -/
@[simp] theorem compute_noInstances (r : Rset R) (t : Tuple DIM) :
    (compute r t).noInstances = r.noInstances := by
  unfold compute
  split <;> rfl

/-- A tuple leaves the address of a results set alone. -/
@[simp] theorem compute_addr (r : Rset R) (t : Tuple DIM) : (compute r t).addr = r.addr := by
  unfold compute
  split <;> rfl

/-- A new results set is of the pane of the tuple. -/
@[simp] theorem newRset_id (wp sp : Nat) (w : PlqWorker R) (t : Tuple DIM) :
    (newRset wp sp w t).id = t.paneId := rfl

/-- A new results set has the number of partitions that the tuple brings. -/
@[simp] theorem newRset_noInstances (wp sp : Nat) (w : PlqWorker R) (t : Tuple DIM) :
    (newRset wp sp w t).noInstances = t.noInstances := rfl

/-- The deque after a regular tuple or an `EMPTYPANE` message: the pane, if it is not open yet, is
inserted where it belongs, and no other pane is touched. -/
theorem updatePane_spec (wp sp : Nat) {w : PlqWorker R} (hw : w.Sorted) (t : Tuple DIM) :
    (updatePane wp sp w t).Sorted ∧
      (∀ p, p ≠ t.paneId → (updatePane wp sp w t).paneSet.filter (fun r => r.id = p)
        = w.paneSet.filter fun r => r.id = p) ∧
      ∃ r, (updatePane wp sp w t).paneSet.filter (fun r => r.id = t.paneId) = [compute r t] ∧
        (w.paneSet.filter (fun r => r.id = t.paneId) = [] ∧ r = newRset wp sp w t ∨
          w.paneSet.filter (fun r => r.id = t.paneId) = [r]) := by
  have hother : ∀ p, p ≠ t.paneId → ∀ (r : Rset R), r.id = t.paneId → ∀ l,
      (r :: l).filter (fun r => r.id = p) = l.filter fun r => r.id = p := by
    intro p hp r hr l
    exact List.filter_cons_of_neg (by simpa [hr] using hp.symm)
  rcases hw.lowerBound_cases t.paneId with ⟨hnil, hgt⟩ | ⟨r, rest, hl, hr, hone, hgt⟩
  · -- the pane is not open: both insertions put it at the lower bound
    have hnew : updatePane wp sp w t = ⟨w.before t.paneId ++
        compute (newRset wp sp w t) t :: w.lowerBound t.paneId, w.allocs + 1⟩ := by
      unfold updatePane
      cases hl : w.lowerBound t.paneId with
      | nil =>
          have hsplit := before_append_lowerBound w t.paneId
          rw [hl, List.append_nil] at hsplit
          simp [hsplit]
      | cons r rest =>
          have := hgt r (hl ▸ List.mem_cons_self)
          simp only [ne_eq, ite_not]
          rw [if_neg (by omega)]
    rw [hnew]
    refine ⟨hw.insert (by simp) fun s hs => (hgt s hs).ne', ?_, ?_⟩
    · intro p hp
      simp only [List.filter_append]
      rw [hother p hp _ (by simp), filter_before]
    · refine ⟨_, ?_, Or.inl ⟨hnil, rfl⟩⟩
      simp only [List.filter_append]
      rw [filter_eq_nil_of_lt fun r hr => id_lt_of_mem_before hr,
        List.filter_cons_of_pos (by simp), filter_eq_nil_of_gt hgt, List.nil_append]
  · have hold : updatePane wp sp w t
        = { w with paneSet := w.before t.paneId ++ compute r t :: rest } := by
      simp [updatePane, hl, hr]
    rw [hold]
    refine ⟨hw.replace hl (by simp), ?_, ?_⟩
    · intro p hp
      have hsplit := filter_before w p t.paneId
      rw [hl, hother p hp _ hr] at hsplit
      simp only [List.filter_append]
      rw [hother p hp _ (by simp [hr]), hsplit]
    · refine ⟨r, ?_, Or.inr hone⟩
      simp only [List.filter_append]
      rw [filter_eq_nil_of_lt fun r hr => id_lt_of_mem_before hr,
        List.filter_cons_of_pos (by simp [hr]), filter_eq_nil_of_gt hgt, List.nil_append]

/-- **One message, seen from the cells.** On a sorted deque `svc` succeeds, unless the message is a
`NEW_INST` for a pane that is not open, and acts on every cell as `cellStep` does. -/
theorem svc_cell (wp sp : Nat) {x : PlqWorker R × List (Rset R)} (hx : x.1.Sorted) {t : Tuple DIM}
    (ht : t.type = .newInst → (cell t.paneId x).1 ≠ []) :
    ∃ y, feed (svc wp sp) x t = some y ∧ y.1.Sorted ∧
      ∀ p, cell p y = cellStep false p (cell p x) t := by
  obtain ⟨w, out⟩ := x
  -- the messages that go to the results set of a pane, which is created if need be
  have hother : (t.type = .regular ∨ t.type = .emptyPane ∨ t.type = .unspecified) →
      ∃ y, feed (svc wp sp) (w, out) t = some y ∧ y.1.Sorted ∧
        ∀ p, cell p y = cellStep false p (cell p (w, out)) t := by
    intro hty
    obtain ⟨hsort, hne, r, hr, hcase⟩ := updatePane_spec wp sp hx t
    have hsvc : svc wp sp w t = some (updatePane wp sp w t, []) := by
      rcases hty with hty | hty | hty <;> simp only [svc, hty]
    refine ⟨(updatePane wp sp w t, out), by simp [feed, hsvc], hsort, fun p => ?_⟩
    have hstep : cellStep false p (cell p (w, out)) t =
        if p = t.paneId ∧ (cell p (w, out)).1 = [] then ([t.noInstances], (cell p (w, out)).2)
        else cell p (w, out) := by
      rcases hty with hty | hty | hty <;> simp [cellStep, hty]
    rw [hstep]
    by_cases hp : p = t.paneId
    · subst hp
      rcases hcase with ⟨hnil, rfl⟩ | hone
      · simp [cell, hr, hnil]
      · simp [cell, hr, hone]
    · simp [cell, hne p hp, hp]
  cases hty : t.type with
  | regular => exact hother (Or.inl hty)
  | emptyPane => exact hother (Or.inr (Or.inl hty))
  | unspecified => exact hother (Or.inr (Or.inr hty))
  | punct =>
      refine ⟨({ w with paneSet := w.lowerBound t.paneId }, out ++ w.before t.paneId),
        by simp [feed, svc, hty], hx.sublist (List.dropWhile_sublist _), fun p => ?_⟩
      rw [cell_append]
      simp only [cellStep, hty]
      have hsplit := filter_before w p t.paneId
      -- the panes below the one of the punctuation are sent out, and leave the deque
      by_cases hp : p < t.paneId
      · have hge : (w.lowerBound t.paneId).filter (fun r => r.id = p) = [] :=
          filter_eq_nil_of_gt fun r hr => hp.trans_le (hx.le_of_mem_lowerBound hr)
        rw [hge, List.append_nil] at hsplit
        simp [hp, cell, hge, hsplit]
      · have hlt : (w.before t.paneId).filter (fun r => r.id = p) = [] :=
          filter_eq_nil_of_lt fun r hr => (id_lt_of_mem_before hr).trans_le (Nat.not_lt.mp hp)
        rw [hlt, List.nil_append] at hsplit
        simp [hp, cell, hlt, hsplit]
  | «end» =>
      refine ⟨({ w with paneSet := [] }, out ++ w.paneSet), by simp [feed, svc, hty],
        List.Pairwise.nil, fun p => ?_⟩
      simp [cellStep, hty, cell]
  | flush =>
      refine ⟨({ w with paneSet := [] }, out ++ w.paneSet.map fun r => r.setNoInstances 0),
        by simp [feed, svc, hty], List.Pairwise.nil, fun p => ?_⟩
      simp [cellStep, hty, cell, List.filter_map, Function.comp_def]
      rfl
  | lull =>
      refine ⟨({ w with allocs := w.allocs + 1 }, out ++ [newRset wp sp w t]),
        by simp [feed, svc, hty], hx, fun p => ?_⟩
      by_cases hp : p = t.paneId
      · subst hp; simp [cellStep, hty, cell]
      · simp [cellStep, hty, cell, hp, Ne.symm hp]
  | newInst =>
      have hopen : w.paneSet.filter (fun r => r.id = t.paneId) ≠ [] := by
        intro hnil
        exact ht hty (by simp only [cell, hnil, List.map_nil])
      obtain ⟨w', hw', hsort, -, hne, heq⟩ := setInstances_spec hx hopen
      refine ⟨(w', out), by simp [feed, svc, hty, hw'], hsort, fun p => ?_⟩
      by_cases hp : p = t.paneId
      · subst hp
        simp [cellStep, hty, cell, heq, Function.comp_def]
      · simp [cellStep, hty, cell, hp, hne p hp]

/-! ## The in-order pipeline -/

/-- **The deque of an in-order worker never holds two panes.** -/
theorem svcIop_length_le (wp sp : Nat) {w w' : PlqWorker R} {t : Tuple DIM} {o : List (Rset R)}
    (hw : w.paneSet.length ≤ 1) (h : svcIop wp sp w t = some (w', o)) :
    w'.paneSet.length ≤ 1 := by
  -- a tuple of a new pane closes the one before, so one set at most stays
  have hupdate : (updatePaneIop wp sp w t).paneSet.length ≤ 1 := by
    unfold updatePaneIop
    have hsplit := before_append_lowerBound w t.paneId
    cases hl : w.lowerBound t.paneId with
    | nil => simp
    | cons r rest =>
        rw [hl] at hsplit
        rw [← hsplit] at hw
        simpa using hw
  -- writing a count adds no set
  have hset : ∀ {w'}, w.setInstances t = some w' → w'.paneSet.length ≤ 1 := by
    intro w' hw'
    have hsplit := before_append_lowerBound w t.paneId
    unfold setInstances at hw'
    cases hl : w.lowerBound t.paneId with
    | nil => simp [hl] at hw'
    | cons r rest =>
        rw [hl] at hsplit hw'
        by_cases hr : r.id = t.paneId
        · simp only [hr, ne_eq, not_true_eq_false, if_false, Option.some.injEq] at hw'
          rw [← hw', List.length_append, List.length_cons]
          rw [← hsplit, List.length_append, List.length_cons] at hw
          exact hw
        · simp [hr] at hw'
  unfold svcIop at h
  -- END and FLUSH empty the deque, the others update one set of it
  cases hty : t.type with
  | newInst =>
      rw [hty] at h
      obtain ⟨w₁, hw₁, he⟩ := Option.map_eq_some_iff.mp h
      cases he
      exact hset hw₁
  | «end» => rw [hty] at h; cases h; exact Nat.zero_le _
  | flush => rw [hty] at h; cases h; exact Nat.zero_le _
  | lull => rw [hty] at h; cases h; exact hw
  | regular => rw [hty] at h; cases h; exact hupdate
  | emptyPane => rw [hty] at h; cases h; exact hupdate
  | unspecified => rw [hty] at h; cases h; exact hupdate
  | punct => rw [hty] at h; cases h; exact hupdate

/-- A deque of at most one pane. -/
theorem paneSet_cases {w : PlqWorker R} (hw : w.paneSet.length ≤ 1) :
    w.paneSet = [] ∨ ∃ r, w.paneSet = [r] := by
  rcases Nat.le_one_iff_eq_zero_or_eq_one.mp hw with hzero | hone
  · exact Or.inl (List.length_eq_zero_iff.mp hzero)
  · exact Or.inr (List.length_eq_one_iff.mp hone)

/-- It is sorted. -/
theorem sorted_of_length_le {w : PlqWorker R} (hw : w.paneSet.length ≤ 1) : w.Sorted := by
  rcases paneSet_cases hw with hnil | ⟨r, hr⟩
  · rw [Sorted, hnil]
    exact List.Pairwise.nil
  · rw [Sorted, hr]
    exact List.pairwise_singleton _ _

/-- Where the only pane of the deque stands with respect to a message that is not for an earlier
pane: its results set is kept if it is for the same pane, and otherwise sent out. -/
theorem updatePaneIop_spec (wp sp : Nat) {w : PlqWorker R} (hw : w.paneSet.length ≤ 1)
    {t : Tuple DIM} (hle : ∀ r ∈ w.paneSet, r.id ≤ t.paneId) :
    (w.paneSet = [] ∨ ∃ r, w.paneSet = [r] ∧ r.id < t.paneId) ∧
        (updatePaneIop wp sp w t).paneSet = [compute (newRset wp sp w t) t] ∧
        w.before t.paneId = w.paneSet ∨
      ∃ r, w.paneSet = [r] ∧ r.id = t.paneId ∧
        (updatePaneIop wp sp w t).paneSet = [compute r t] ∧ w.before t.paneId = [] := by
  -- the worker holds one set at most: none, one of an earlier pane, or the pane's own
  rcases paneSet_cases hw with hnil | ⟨r, hone⟩
  · exact Or.inl ⟨Or.inl hnil, by simp [updatePaneIop, lowerBound, hnil], by simp [before, hnil]⟩
  · have hr := hle r (by rw [hone]; exact List.mem_singleton_self r)
    by_cases hlt : r.id < t.paneId
    · refine Or.inl ⟨Or.inr ⟨r, hone, hlt⟩, ?_, ?_⟩
      · simp [updatePaneIop, lowerBound, hone, hlt]
      · simp [before, hone, hlt]
    · refine Or.inr ⟨r, hone, by omega, ?_, ?_⟩
      · simp [updatePaneIop, lowerBound, before, hone, hlt]
      · simp [before, hone, hlt]

/-- **One message, seen from the cells, in the in-order pipeline.** -/
theorem svcIop_cell (wp sp : Nat) {x : PlqWorker R × List (Rset R)} (hx : x.1.paneSet.length ≤ 1)
    {t : Tuple DIM} (ht : MsgOk true (fun p => cell p x) t) :
    ∃ y, feed (svcIop wp sp) x t = some y ∧ ∀ p, cell p y = cellStep true p (cell p x) t := by
  -- the branches shared with the other version
  have hshared : (∀ w : PlqWorker R, svcIop wp sp w t = svc wp sp w t) →
      (∀ p c, cellStep true p c t = cellStep false p c t) →
      ∃ y, feed (svcIop wp sp) x t = some y ∧ ∀ p, cell p y = cellStep true p (cell p x) t := by
    intro hsvc hstep
    obtain ⟨y, hy, -, hcell⟩ := svc_cell wp sp (sorted_of_length_le hx) ht.isOpen
    refine ⟨y, ?_, fun p => by rw [hstep, hcell]⟩
    rw [feed, hsvc]
    exact hy
  obtain ⟨w, out⟩ := x
  replace hx : w.paneSet.length ≤ 1 := hx
  have hother : (t.type = .regular ∨ t.type = .emptyPane ∨ t.type = .unspecified) →
      ∃ y, feed (svcIop wp sp) (w, out) t = some y ∧
        ∀ p, cell p y = cellStep true p (cell p (w, out)) t := by
    intro hty
    have hsvc : svcIop wp sp w t = some (updatePaneIop wp sp w t, w.before t.paneId) := by
      rcases hty with hty | hty | hty <;> simp only [svcIop, hty]
    -- no pane later than the one of the message is open
    have hle : ∀ r ∈ w.paneSet, r.id ≤ t.paneId := by
      intro r hr
      by_contra hlt
      have hnil := ht.latest rfl hty r.id (by omega)
      simp only [cell, List.map_eq_nil_iff, List.filter_eq_nil_iff, decide_eq_true_eq] at hnil
      exact hnil r hr rfl
    refine ⟨(updatePaneIop wp sp w t, out ++ w.before t.paneId), by simp [feed, hsvc], ?_⟩
    intro p
    have hstep : cellStep true p (cell p (w, out)) t =
        if p = t.paneId ∧ (cell p (w, out)).1 = [] then ([t.noInstances], (cell p (w, out)).2)
        else if p < t.paneId then ([], (cell p (w, out)).2 ++ (cell p (w, out)).1)
        else cell p (w, out) := by
      rcases hty with hty | hty | hty <;> simp [cellStep, hty]
    rw [hstep, cell_append]
    rcases updatePaneIop_spec wp sp hx hle with ⟨hold, hnew, hbefore⟩ | ⟨r, hold, hr, hnew, hbefore⟩
    · -- a new pane, which takes the place of an earlier one
      rw [hnew, hbefore]
      rcases lt_trichotomy p t.paneId with hp | rfl | hp
      · simp [cell, hp, hp.ne, hp.ne']
      · rcases hold with hold | ⟨r, hold, hr⟩
        · simp [cell, hold]
        · simp [cell, hold, hr.ne]
      · have hgt : ¬ p < t.paneId := by omega
        rcases hold with hold | ⟨r, hold, hr⟩
        · simp [cell, hold, hp.ne, hp.ne', hgt]
        · have : r.id ≠ p := by omega
          simp [cell, hold, hp.ne, hp.ne', hgt, this]
    · rw [hnew, hbefore]
      by_cases hp : p = t.paneId
      · subst hp
        simp [cell, hold, hr]
      · have : r.id ≠ p := by rw [hr]; exact Ne.symm hp
        simp [cell, hold, hp, this]
  cases hty : t.type with
  | regular => exact hother (Or.inl hty)
  | emptyPane => exact hother (Or.inr (Or.inl hty))
  | unspecified => exact hother (Or.inr (Or.inr hty))
  | punct => exact absurd hty (ht.noPunct rfl)
  | «end» => exact hshared (fun _ => by simp [svcIop, svc, hty]) fun _ _ => by simp [cellStep, hty]
  | lull => exact hshared (fun _ => by simp [svcIop, svc, hty]) fun _ _ => by simp [cellStep, hty]
  | newInst =>
      exact hshared (fun _ => by simp [svcIop, svc, hty]) fun _ _ => by simp [cellStep, hty]
  | flush =>
      refine ⟨({ w with paneSet := [] }, out ++ w.paneSet.map fun r =>
        if t.paneId ≤ r.id then r.setNoInstances 0 else r), by simp [feed, svcIop, hty], ?_⟩
      intro p
      rcases paneSet_cases hx with hw | ⟨r, hw⟩
      · by_cases hp : p < t.paneId <;> simp [cellStep, hty, cell, hw, hp]
      · by_cases hrp : r.id = p
        · subst hrp
          by_cases hp : r.id < t.paneId
          · simp [cellStep, hty, cell, hw, hp, not_le.mpr hp]
          · simp [cellStep, hty, cell, hw, hp, not_lt.mp hp]
        · by_cases hp : p < t.paneId <;> by_cases hr : t.paneId ≤ r.id <;>
            simp [cellStep, hty, cell, hw, hp, hr, hrp]

/-- `svc` of the workers of the pipeline at hand. -/
def svcOf (iop : Bool) (wp sp : Nat) (w : PlqWorker R) (t : Tuple DIM) :
    Option (PlqWorker R × List (Rset R)) :=
  if iop then svcIop wp sp w t else svc wp sp w t

/-- The version of the out-of-order pipeline. -/
theorem svcOf_oop {iop : Bool} (hi : iop = false) (wp sp : Nat) :
    (svcOf iop wp sp : PlqWorker R → Tuple DIM → Option (PlqWorker R × List (Rset R))) =
      svc wp sp := by
  funext w t
  rw [svcOf, hi, if_neg Bool.false_ne_true]

/-- The shape of a deque: sorted, with one pane at most in the in-order pipeline. -/
structure Shape (iop : Bool) (w : PlqWorker R) : Prop where
  sorted : w.Sorted
  single : iop = true → w.paneSet.length ≤ 1

/-- **One message, seen from the cells**, in either pipeline. -/
theorem feed_cell (iop : Bool) (wp sp : Nat) {x : PlqWorker R × List (Rset R)} {t : Tuple DIM}
    (hx : Shape iop x.1) (ht : MsgOk iop (fun p => cell p x) t) :
    ∃ y, feed (svcOf iop wp sp) x t = some y ∧ Shape iop y.1 ∧
      ∀ p, cell p y = cellStep iop p (cell p x) t := by
  cases iop with
  | false =>
      obtain ⟨y, hy, hsort, hcell⟩ := svc_cell wp sp hx.sorted ht.isOpen
      exact ⟨y, hy, ⟨hsort, fun h => absurd h Bool.false_ne_true⟩, hcell⟩
  | true =>
      obtain ⟨y, hy, hcell⟩ := svcIop_cell wp sp (hx.single rfl) ht
      obtain ⟨o, ho, -⟩ := feed_eq_some.mp hy
      have hlen := svcIop_length_le wp sp (hx.single rfl) ho
      exact ⟨y, hy, ⟨sorted_of_length_le hlen, fun _ => hlen⟩, hcell⟩

/-- **A list of messages, seen from the cells.** -/
theorem feedAll_cell (iop : Bool) (wp sp : Nat) {ts : List (Tuple DIM)}
    {x : PlqWorker R × List (Rset R)} (hx : Shape iop x.1)
    (hts : CellsOk iop (fun p => cell p x) ts) :
    ∃ y, feedAll (svcOf iop wp sp) x ts = some y ∧ Shape iop y.1 ∧
      ∀ p, cell p y = ts.foldl (cellStep iop p) (cell p x) := by
  -- induction on the messages, each of which steps the cell of every pane
  induction ts generalizing x with
  | nil => exact ⟨x, rfl, hx, fun _ => rfl⟩
  | cons t ts ih =>
      obtain ⟨y, hy, hshape, hcell⟩ := feed_cell iop wp sp hx hts.1
      have hts' : CellsOk iop (fun p => cell p y) ts := by
        have := hts.2
        simpa only [← hcell] using this
      obtain ⟨z, hz, hshape', hcell'⟩ := ih hshape hts'
      refine ⟨z, by rw [feedAll_cons, hy]; exact hz, hshape', fun p => ?_⟩
      rw [hcell', hcell, List.foldl_cons]

end PlqWorker

end ElasticPPQ
