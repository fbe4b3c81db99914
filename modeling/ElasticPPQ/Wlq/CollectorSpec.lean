import ElasticPPQ.Wlq.Collector

/-! # What the WLQ collector does

Whatever the order in which the windows come, each of them once, the client has received an initial
segment of the windows in the order of their identifiers; the others are buffered. -/

namespace ElasticPPQ.WlqCollector

/-- Window `k` has been received. -/
def received (c : WlqCollector Addr) (k : Nat) : Bool :=
  decide (k < c.nextWinId) || (c.winSet.getD (k - c.nextWinId) none).isSome

/-- **The collector and its client**: what has been transmitted, and what is buffered. -/
structure Ordered (c : WlqCollector Addr) (client : List Addr) : Prop where
  client : client = (List.range c.nextWinId).map .win
  buffered : ∀ i a, c.winSet.getD i none = some a → a = .win (c.nextWinId + i)
  next : c.winSet.getD 0 none = none

/-- The collector as constructed. -/
theorem ordered_new : Ordered (.new Addr) [] :=
  ⟨rfl, fun i a h => by simp [WlqCollector.new] at h, rfl⟩

/-- The windows transmitted are a full initial segment of those buffered. -/
theorem transmit_spec (ws : List (Option Addr)) :
    ws = (transmit ws).1.map some ++ (transmit ws).2 ∧ (transmit ws).2.getD 0 none = none := by
  induction ws with
  | nil => exact ⟨rfl, rfl⟩
  | cons x ws ih =>
      rcases x with _ | w
      · exact ⟨rfl, rfl⟩
      · simp only [transmit, List.map_cons, List.cons_append]
        exact ⟨congrArg _ ih.1, ih.2⟩

/-- Consecutive windows. -/
theorem eq_map_range' {l : List Addr} {n : Nat}
    (h : ∀ i a, (l.map some).getD i none = some a → a = .win (n + i)) :
    l = (List.range' n l.length).map .win := by
  induction l generalizing n with
  | nil => rfl
  | cons x l ih =>
      rw [List.length_cons, List.range'_succ, List.map_cons, ← ih (n := n + 1), h 0 x rfl, Nat.add_zero]
      intro i a hi
      rw [h (i + 1) a hi, Nat.add_assoc, Nat.add_comm 1 i]

variable {c : WlqCollector Addr} {client : List Addr}

/-- What a collector does with window `k`, received for the first time. -/
def Receives (c : WlqCollector Addr) (client : List Addr) (k : Nat) : Prop :=
  ∃ c' out, c.svc k (.win k) = .ok (c', out) ∧ c'.Ordered (client ++ out) ∧
    ∀ j, c'.received j = (c.received j || decide (j = k))

/-- The window that comes next, with none buffered. -/
theorem Ordered.receive_alone (h : c.Ordered client) (hws : c.winSet = []) :
    c.Receives client c.nextWinId := by
  refine ⟨⟨c.nextWinId + 1, []⟩, [.win c.nextWinId], ?_, ⟨?_, fun i a hi => by simp at hi, rfl⟩,
    fun j => ?_⟩
  · rw [svc, if_pos rfl, hws]
  · rw [h.client, List.range_succ, List.map_append]
    rfl
  · simp only [received, hws, List.getD_nil, Option.isSome_none, Bool.or_false,
      Nat.lt_succ_iff_lt_or_eq]
    simp

/-- The windows `out` are buffered right after the next one. -/
theorem Ordered.buffered_run (h : c.Ordered client) {out : List Addr} {rest : List (Option Addr)}
    (hget : ∀ i, c.winSet.getD (i + 1) none = (out.map some ++ rest).getD i none) :
    out = (List.range' (c.nextWinId + 1) out.length).map .win := by
  refine eq_map_range' fun i a hi => ?_
  have hlt : i < (out.map some).length := by
    by_contra hge
    rw [List.getD_eq_default _ _ (Nat.not_lt.mp hge)] at hi
    cases hi
  rw [← List.getD_append _ rest _ _ hlt, ← hget] at hi
  rw [h.buffered _ a hi]
  congr 1
  omega

/-- The window that comes next: the ones buffered right after it are transmitted with it. -/
theorem Ordered.receive_next (h : c.Ordered client) {x : Option Addr} {ws : List (Option Addr)}
    (hws : c.winSet = x :: ws) : c.Receives client c.nextWinId := by
  obtain ⟨hsplit, hnext⟩ := transmit_spec ws
  obtain ⟨out, hout⟩ : ∃ out, out = (transmit ws).1 := ⟨_, rfl⟩
  obtain ⟨rest, hrest⟩ : ∃ rest, rest = (transmit ws).2 := ⟨_, rfl⟩
  rw [← hout, ← hrest] at hsplit
  rw [← hrest] at hnext
  -- the deque is the window itself, those transmitted with it, and the rest
  have hget : ∀ i, c.winSet.getD (i + 1) none = (out.map some ++ rest).getD i none := by
    intro i
    rw [hws, hsplit]
    rfl
  have hget' : ∀ i, c.winSet.getD (i + 1 + out.length) none = rest.getD i none := by
    intro i
    rw [Nat.add_right_comm, hget, List.getD_append_right _ _ _ _ (by simp), List.length_map,
      Nat.add_sub_cancel]
  have houts := h.buffered_run hget
  refine ⟨⟨c.nextWinId + 1 + out.length, rest⟩, .win c.nextWinId :: out, ?_, ⟨?_, ?_, hnext⟩,
    fun j => ?_⟩
  · rw [svc, if_pos rfl, hws, hout, hrest]
  · show client ++ .win c.nextWinId :: out = (List.range (c.nextWinId + 1 + out.length)).map .win
    rw [List.range_add, List.range_succ, List.map_append, List.map_append, ← h.client, List.map_map]
    rw [List.append_cons]
    congr 1
    rw [List.range'_eq_map_range, List.map_map] at houts
    exact houts
  · intro i a hi
    have hi' : rest.getD i none = some a := hi
    rw [← hget'] at hi'
    rw [h.buffered _ a hi']
    show Addr.win _ = Addr.win (c.nextWinId + 1 + out.length + i)
    congr 1
    omega
  · rw [received, received]
    show (decide (j < c.nextWinId + 1 + out.length)
      || (rest.getD (j - (c.nextWinId + 1 + out.length)) none).isSome) = _
    rcases Nat.lt_trichotomy j c.nextWinId with hj | hj | hj
    · rw [decide_eq_true (by omega : j < c.nextWinId + 1 + out.length), decide_eq_true hj]
      rfl
    · rw [decide_eq_true (by omega : j < c.nextWinId + 1 + out.length), decide_eq_true hj,
        Bool.true_or, Bool.or_true]
    · -- a later window: it is one of those transmitted, or still buffered
      rw [decide_eq_false (by omega : ¬ j < c.nextWinId), decide_eq_false (by omega : j ≠ _),
        Bool.false_or, Bool.or_false]
      rcases Nat.lt_or_ge j (c.nextWinId + 1 + out.length) with hlt | hge
      · rw [decide_eq_true hlt, Bool.true_or,
          show j - c.nextWinId = (j - c.nextWinId - 1) + 1 by omega, hget,
          List.getD_append _ _ _ _ (by rw [List.length_map]; omega)]
        rw [List.getD_eq_getElem _ _ (by rw [List.length_map]; omega), List.getElem_map]
        rfl
      · rw [decide_eq_false (Nat.not_lt.mpr hge), Bool.false_or, ← hget']
        congr 2
        omega

/-- A later window is buffered. -/
theorem Ordered.receive_later (h : c.Ordered client) {k : Nat} (hlt : c.nextWinId < k) :
    c.Receives client k := by
  obtain ⟨i, hi⟩ : ∃ i, i = k - c.nextWinId := ⟨_, rfl⟩
  -- the deque grows up to the window, whose entry is then written
  have hlen : i < (growTable c.winSet i (none : Option Addr)).length := by
    rw [length_growTable]
    omega
  have hget : ∀ j, ((growTable c.winSet i none).set i (some (Addr.win k))).getD j none
      = if j = i then some (.win k) else c.winSet.getD j none := by
    intro j
    rw [getD_set_of_lt hlen, getD_growTable]
  refine ⟨{ c with winSet := (growTable c.winSet i none).set i (some (.win k)) }, [], ?_,
    ⟨?_, fun j a hj => ?_, ?_⟩, fun j => ?_⟩
  · rw [svc, if_neg hlt.ne', if_neg (by omega), hi]
  · rw [List.append_nil]
    exact h.client
  · have hj' := hj
    rw [hget] at hj'
    -- the window written, and the ones buffered before
    by_cases hji : j = i
    · rw [if_pos hji] at hj'
      cases hj'
      show Addr.win k = Addr.win (c.nextWinId + j)
      congr 1
      omega
    · rw [if_neg hji] at hj'
      exact h.buffered j a hj'
  -- the next window is an earlier one, so it is still missing
  · show ((growTable c.winSet i none).set i _).getD 0 none = none
    rw [hget, if_neg (by omega)]
    exact h.next
  · rw [received, received]
    show (decide (j < c.nextWinId) || (((growTable c.winSet i none).set i _).getD
      (j - c.nextWinId) none).isSome) = _
    rw [hget]
    -- a window handed over, the one received now, or one of the others
    by_cases hj : j < c.nextWinId
    · rw [decide_eq_true hj]
      rfl
    · rw [decide_eq_false hj, Bool.false_or, Bool.false_or]
      by_cases hjk : j = k
      · rw [if_pos (by omega), decide_eq_true hjk, Bool.or_true]
        rfl
      · rw [if_neg (by omega), decide_eq_false hjk, Bool.or_false]

/-- **A window is received**, for the first time. -/
theorem Ordered.receive (h : c.Ordered client) {k : Nat} (hk : c.received k = false) :
    c.Receives client k := by
  rw [received, Bool.or_eq_false_iff, decide_eq_false_iff_not] at hk
  obtain ⟨hge, -⟩ := hk
  rcases (Nat.not_lt.mp hge).eq_or_lt with heq | hlt
  · subst heq
    cases hws : c.winSet with
    | nil => exact h.receive_alone hws
    | cons x ws => exact h.receive_next hws
  · exact h.receive_later hlt

/-! ## Any sequence of windows -/

variable {α β : Type}

/-- The collector receives windows one after the other, `idOf` reading their identifiers: the windows
transmitted. -/
def receiveAll (idOf : α → Nat) :
    List α → WlqCollector α → Except WlqError (WlqCollector α × List α)
  | [], c => .ok (c, [])
  | w :: ws, c => do
      let (c, out) ← c.svc (idOf w) w
      let (c, outs) ← receiveAll idOf ws c
      .ok (c, out ++ outs)

/-- The windows that `Client::svc` reports as received out of order, from the identifiers it receives;
`next` is the identifier it expects. -/
def outOfOrder : Nat → List Nat → List Nat
  | _, [] => []
  | next, id :: ids => if next ≠ id then id :: outOfOrder next ids else outOfOrder (next + 1) ids

/-- Consecutive windows are not reported out of order. -/
theorem outOfOrder_range' (next n : Nat) : outOfOrder next (List.range' next n) = [] := by
  induction n generalizing next with
  | zero => rfl
  | succ n ih =>
      rw [List.range'_succ, outOfOrder, if_neg (not_not_intro rfl), ih]

/-- What has been received is either transmitted, in the order of the identifiers, or buffered in the
place of its identifier. -/
structure Reordered (idOf : α → Nat) (ws : List α) (c : WlqCollector α) (client : List α) :
    Prop where
  ids : client.map idOf = List.range c.nextWinId
  mem : ∀ w ∈ client, w ∈ ws
  least : c.nextWinId ∉ ws.map idOf
  buffered : ∀ i w, c.winSet[i]? = some (some w) ↔ w ∈ ws ∧ idOf w = c.nextWinId + i

/-- The same collector, over other pointers. -/
def map (f : α → β) (c : WlqCollector α) : WlqCollector β :=
  ⟨c.nextWinId, c.winSet.map (Option.map f)⟩

/-- Transmission does not look into the windows. -/
theorem transmit_map (f : α → β) (ws : List (Option α)) :
    transmit (ws.map (Option.map f))
      = ((transmit ws).1.map f, (transmit ws).2.map (Option.map f)) := by
  induction ws with
  | nil => rfl
  | cons x ws ih =>
      rcases x with _ | w
      · rfl
      · simp only [List.map_cons, Option.map_some, transmit, ih]

/-- **The collector does not look at the windows**, only at their identifiers. -/
theorem svc_map (f : α → β) (k : Nat) (w : α) (c : WlqCollector α) :
    (c.map f).svc k (f w) = (c.svc k w).map fun x => (x.1.map f, x.2.map f) := by
  obtain ⟨next, set⟩ := c
  -- growing the deque adds empty entries, which the map leaves empty
  have hgrow : ∀ i, growTable (set.map (Option.map f)) i none
      = (growTable set i none).map (Option.map f) := by
    intro i
    unfold growTable resize
    rw [List.length_map]
    split
    · simp
    · rfl
  show svc k (f w) ⟨next, set.map (Option.map f)⟩ = _
  unfold svc
  -- the window awaited, one already handed over, or a later one
  by_cases heq : k = next
  · rw [if_pos heq, if_pos heq]
    cases set with
    | nil => rfl
    | cons x ws =>
        simp only [List.map_cons, transmit_map, Except.map, List.length_map, map]
  · rw [if_neg heq, if_neg heq]
    by_cases hlt : k < next
    · rw [if_pos hlt, if_pos hlt]
      rfl
    · rw [if_neg hlt, if_neg hlt]
      simp only [Except.map, map, List.map_set, Option.map_some, List.map_nil, hgrow]

/-- Neither does the collector, apart from their identifiers. -/
theorem receiveAll_map {f : α → β} {idOf : α → Nat} {idOf' : β → Nat} {ws : List α}
    (hf : ∀ w ∈ ws, idOf' (f w) = idOf w) (c : WlqCollector α) :
    receiveAll idOf' (ws.map f) (c.map f)
      = (receiveAll idOf ws c).map fun x => (x.1.map f, x.2.map f) := by
  -- induction on the windows received
  induction ws generalizing c with
  | nil => rfl
  | cons w ws ih =>
      have hws : ∀ v ∈ ws, idOf' (f v) = idOf v := fun v hv => hf v (List.mem_cons_of_mem _ hv)
      simp only [List.map_cons, receiveAll, hf w List.mem_cons_self, svc_map]
      cases hx : c.svc (idOf w) w with
      | error e => rfl
      | ok y =>
          simp only [Except.map, bind, Except.bind, ih hws]
          cases receiveAll idOf ws y.1 with
          | error e => rfl
          | ok z => simp only [List.map_append]

/-- The identifier of the window at an address. -/
def winIdOf : Addr → Nat
  | .win k => k
  | .pane _ => 0
  | .merged _ => 0

/-- Windows with distinct identifiers, none of which has been received. -/
theorem Ordered.receiveAll {ks : List Nat} (hks : ks.Nodup) {c : WlqCollector Addr}
    {client : List Addr} (h : c.Ordered client) (hnew : ∀ k ∈ ks, c.received k = false) :
    ∃ c' out, receiveAll winIdOf (ks.map .win) c = .ok (c', out) ∧ c'.Ordered (client ++ out) ∧
      ∀ j, c'.received j = (c.received j || decide (j ∈ ks)) := by
  -- induction on the windows received, each of which is new
  induction ks generalizing c client with
  | nil =>
      refine ⟨c, [], rfl, ?_, fun j => ?_⟩
      · rw [List.append_nil]
        exact h
      · simp
  | cons k ks ih =>
      rw [List.nodup_cons] at hks
      obtain ⟨c₁, out₁, hrun₁, hord₁, hrec₁⟩ := h.receive (hnew k List.mem_cons_self)
      have hnew₁ : ∀ j ∈ ks, c₁.received j = false := by
        intro j hj
        have hjk : j ≠ k := fun hjk => hks.1 (hjk ▸ hj)
        rw [hrec₁, hnew j (List.mem_cons_of_mem _ hj), decide_eq_false hjk]
        rfl
      obtain ⟨c₂, out₂, hrun₂, hord₂, hrec₂⟩ := ih hks.2 hord₁ hnew₁
      refine ⟨c₂, out₁ ++ out₂, ?_, ?_, fun j => ?_⟩
      · simp only [List.map_cons, WlqCollector.receiveAll, winIdOf, hrun₁, hrun₂, bind, Except.bind]
      · rw [← List.append_assoc]
        exact hord₂
      · rw [hrec₂, hrec₁]
        by_cases hjk : j = k
        · simp [hjk]
        · simp [hjk]

/-- A collector of windows that has received those of `ks`. -/
theorem Ordered.reordered {ks : List Nat} {c : WlqCollector Addr} {client : List Addr}
    (h : c.Ordered client) (hrec : ∀ j, c.received j = decide (j ∈ ks)) :
    Reordered winIdOf (ks.map .win) c client := by
  -- the id of a window is the number of its address
  have hids : ∀ l : List Nat, (l.map Addr.win).map winIdOf = l := by
    intro l
    rw [List.map_map]
    exact List.map_id l
  -- the entries of the deque are the windows received beyond the next one
  have hbuf : ∀ i, c.winSet.getD i none ≠ none ↔ c.nextWinId + i ∈ ks := by
    intro i
    have := hrec (c.nextWinId + i)
    rw [received, decide_eq_false (by omega), Bool.false_or, Nat.add_sub_cancel_left] at this
    rw [← decide_eq_true_iff (p := c.nextWinId + i ∈ ks), ← this, Option.isSome_iff_ne_none]
  refine ⟨?_, fun a ha => ?_, fun hin => ?_, fun i a => ?_⟩
  · rw [h.client, hids]
  · rw [h.client] at ha
    obtain ⟨k, hk, rfl⟩ := List.mem_map.mp ha
    have := hrec k
    rw [received, decide_eq_true (List.mem_range.mp hk), Bool.true_or] at this
    exact List.mem_map.mpr ⟨k, of_decide_eq_true this.symm, rfl⟩
  · rw [hids] at hin
    exact (hbuf 0).mpr hin h.next
  -- an entry of the deque holds exactly the window of its place
  · constructor
    · intro hi
      have hget : c.winSet.getD i none = some a := by
        rw [List.getD_eq_getElem?_getD, hi]
        rfl
      have hin := (hbuf i).mp (by rw [hget]; exact Option.some_ne_none a)
      rw [h.buffered i a hget]
      exact ⟨List.mem_map.mpr ⟨_, hin, rfl⟩, rfl⟩
    · rintro ⟨hin, hid⟩
      obtain ⟨k, hk, rfl⟩ := List.mem_map.mp hin
      obtain rfl : k = c.nextWinId + i := hid
      obtain ⟨a, ha⟩ := Option.ne_none_iff_exists'.mp ((hbuf i).mpr hk)
      have hget := h.buffered i a ha
      rw [List.getD_eq_getElem?_getD] at ha
      cases hopt : c.winSet[i]? with
      | none =>
          rw [hopt] at ha
          cases ha
      | some x =>
          rw [hopt] at ha
          have hx : x = some a := ha
          rw [hx, hget]

/-- The same, over other pointers. -/
theorem Reordered.map {idOf : α → Nat} {idOf' : β → Nat} {ws : List α} {c : WlqCollector α}
    {client : List α} (h : Reordered idOf ws c client) {f : α → β}
    (hf : ∀ w ∈ ws, idOf' (f w) = idOf w) : Reordered idOf' (ws.map f) (c.map f) (client.map f) := by
  refine ⟨?_, fun b hb => ?_, ?_, fun i b => ?_⟩
  · rw [List.map_map]
    exact (List.map_congr_left fun w hw => hf w (h.mem w hw)).trans h.ids
  · obtain ⟨w, hw, rfl⟩ := List.mem_map.mp hb
    exact List.mem_map_of_mem (h.mem w hw)
  · have hids : ws.map (idOf' ∘ f) = ws.map idOf := List.map_congr_left hf
    rw [List.map_map, hids]
    exact h.least
  · simp only [WlqCollector.map, List.getElem?_map, Option.map_eq_some_iff]
    -- the place of an entry does not depend on what is stored there
    constructor
    · rintro ⟨x, hx, w, rfl, rfl⟩
      obtain ⟨hw, hid⟩ := (h.buffered i w).mp hx
      exact ⟨List.mem_map_of_mem hw, by rw [hf w hw, hid]⟩
    · rintro ⟨hb, hid⟩
      obtain ⟨w, hw, rfl⟩ := List.mem_map.mp hb
      rw [hf w hw] at hid
      exact ⟨some w, (h.buffered i w).mpr ⟨hw, hid⟩, w, rfl, rfl⟩

/-- **The collector reorders without loss or duplication.** For windows with distinct identifiers, in
any order: no access is out of range, what has been transmitted are the windows `0, 1, …` up to the
least one not received, in this order (the client reports none), and the others are buffered each in
its place, with nothing else in the deque. -/
theorem receiveAll_reorders (idOf : α → Nat) (ws : List α) (hws : (ws.map idOf).Nodup) :
    ∃ c client, receiveAll idOf ws (new α) = .ok (c, client) ∧ Reordered idOf ws c client ∧
      outOfOrder 0 (client.map idOf) = [] := by
  cases ws with
  | nil =>
      refine ⟨new α, [], rfl, ⟨rfl, fun w hw => hw, List.not_mem_nil, fun i w => ?_⟩, rfl⟩
      simp [new]
  | cons w₀ ws =>
      obtain ⟨l, hl⟩ : ∃ l, l = w₀ :: ws := ⟨_, rfl⟩
      rw [← hl] at hws ⊢
      -- the window with a given identifier
      obtain ⟨f, hf⟩ : ∃ f : Addr → α, ∀ w ∈ l, f (.win (idOf w)) = w := by
        refine ⟨fun a => (l.find? fun w => idOf w = winIdOf a).getD w₀, fun w hw => ?_⟩
        have hsome : (l.find? fun v => idOf v = idOf w).isSome :=
          List.find?_isSome.mpr ⟨w, hw, decide_eq_true rfl⟩
        obtain ⟨v, hv⟩ := Option.isSome_iff_exists.mp hsome
        have hid : idOf v = idOf w := of_decide_eq_true (List.find?_some hv :)
        show (l.find? fun v => idOf v = idOf w).getD w₀ = w
        rw [hv]
        exact List.inj_on_of_nodup_map hws (List.mem_of_find?_eq_some hv) hw hid
      have hlf : ((l.map idOf).map Addr.win).map f = l := by
        rw [List.map_map, List.map_map]
        conv_rhs => rw [← List.map_id l]
        exact List.map_congr_left hf
      have hidf : ∀ a ∈ (l.map idOf).map Addr.win, idOf (f a) = winIdOf a := by
        intro a ha
        obtain ⟨k, hk, rfl⟩ := List.mem_map.mp ha
        obtain ⟨w, hw, rfl⟩ := List.mem_map.mp hk
        rw [hf w hw]
        rfl
      obtain ⟨c, out, hrun, hord, hrec⟩ := ordered_new.receiveAll hws fun k _ => rfl
      have hmem : ∀ j, c.received j = decide (j ∈ l.map idOf) := fun j => by rw [hrec j]; rfl
      have hre := (hord.reordered hmem).map hidf
      rw [hlf, List.nil_append] at hre
      refine ⟨c.map f, out.map f, ?_, hre, ?_⟩
      · have := receiveAll_map hidf (new Addr)
        rw [hlf, hrun] at this
        exact this
      · rw [hre.ids, List.range_eq_range', outOfOrder_range']

/-- Window 2 comes before window 1. -/
theorem receiveAll_reorders_witness :
    ∃ c client, receiveAll id [0, 3, 2, 1] (new Nat) = .ok (c, client) ∧
      Reordered id [0, 3, 2, 1] c client ∧ outOfOrder 0 (client.map id) = [] :=
  receiveAll_reorders id [0, 3, 2, 1] (by decide)

end ElasticPPQ.WlqCollector
