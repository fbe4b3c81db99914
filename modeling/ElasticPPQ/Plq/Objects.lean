import ElasticPPQ.Plq.Events

/-! # The message objects behind the sends

A multicast sends one object to one addressee after the other, and its counter is the number of
addressees; any other message is an object of its own. `objects` reads the objects back from a list of
sends. The lists that the strategies send are made of whole multicasts and single messages
(`Multicasts`), so that every counter is right. -/

namespace ElasticPPQ

variable {N DIM : Nat}

deriving instance DecidableEq for Row

deriving instance DecidableEq for Tuple

/-- The types of the messages that have a counter: they are sent to several workers. -/
def TypeMsg.shared : TypeMsg → Bool
  | .punct | .end | .newInst | .flush => true
  | _ => false

/-- A message object and its addressees. -/
abbrev Msg (N DIM : Nat) := Tuple DIM × List (Fin N)

namespace Sends

/-- One more send, before the others. It is of the same object as the next one if both are the same
message with a counter: no method makes two equal multicasts in a row. -/
def addSend (w : Fin N) (m : Tuple DIM) : List (Msg N DIM) → List (Msg N DIM)
  | [] => [(m, [w])]
  | (m', ws) :: gs =>
      if m.type.shared = true ∧ m = m' then (m', w :: ws) :: gs else (m, [w]) :: (m', ws) :: gs

/-- The message objects behind a list of sends, with their addressees in order. -/
def objects : Sends N DIM → List (Msg N DIM)
  | [] => []
  | (w, m) :: out => addSend w m (objects out)

/-- The sends of a message object. -/
def ofMsg (x : Msg N DIM) : Sends N DIM := x.2.map fun w => (w, x.1)

/-- The objects stand for the sends. -/
theorem flatMap_objects (out : Sends N DIM) : (objects out).flatMap ofMsg = out := by
  induction out with
  | nil => rfl
  | cons x out ih =>
      obtain ⟨w, m⟩ := x
      rw [objects]
      -- the message starts a new object, or shares that of the messages after it
      cases hgs : objects out with
      | nil =>
          rw [hgs] at ih
          rw [← ih]
          rfl
      | cons g gs =>
          obtain ⟨m', ws⟩ := g
          rw [hgs] at ih
          rw [addSend]
          split
          · rename_i h
            rw [← ih, h.2]
            rfl
          · rw [← ih]
            rfl

/-- Every object has addressees, and one only if it has no counter. -/
theorem length_objects {out : Sends N DIM} {x : Msg N DIM} (hx : x ∈ objects out) :
    x.2 ≠ [] ∧ (x.1.type.shared = false → x.2.length = 1) := by
  induction out generalizing x with
  | nil => exact absurd hx List.not_mem_nil
  | cons y out ih =>
      obtain ⟨w, m⟩ := y
      have hnew : ([w] : List (Fin N)) ≠ [] ∧ (m.type.shared = false → [w].length = 1) :=
        ⟨List.cons_ne_nil _ _, fun _ => rfl⟩
      rw [objects] at hx
      cases hgs : objects out with
      | nil =>
          rw [hgs, addSend, List.mem_singleton] at hx
          rw [hx]
          exact hnew
      | cons g gs =>
          obtain ⟨m', ws⟩ := g
          rw [hgs, addSend] at hx
          -- objects merge only where their type is shared
          split at hx
          · rename_i h
            rcases List.mem_cons.mp hx with rfl | hx
            · refine ⟨List.cons_ne_nil _ _, fun hs => ?_⟩
              have hs' : m'.type.shared = false := hs
              rw [← h.2, h.1] at hs'
              cases hs'
            · exact ih (hgs ▸ List.mem_cons_of_mem _ hx)
          · rcases List.mem_cons.mp hx with rfl | hx
            · exact hnew
            · exact ih (hgs ▸ hx)

/-- The first object is the first message. -/
theorem head_objects (out : Sends N DIM) :
    (objects out).head?.map Prod.fst = out.head?.map Prod.snd := by
  cases out with
  | nil => rfl
  | cons x out =>
      obtain ⟨w, m⟩ := x
      rw [objects]
      cases objects out with
      | nil => rfl
      | cons g gs =>
          obtain ⟨m', ws⟩ := g
          rw [addSend]
          split
          · rename_i h
            rw [h.2]
            rfl
          · rfl

/-- A message without a counter is an object of its own. -/
theorem objects_single (w : Fin N) {m : Tuple DIM} (hm : m.type.shared = false) (out : Sends N DIM) :
    objects ((w, m) :: out) = (m, [w]) :: objects out := by
  rw [objects]
  cases objects out with
  | nil => rfl
  | cons g gs =>
      obtain ⟨m', ws⟩ := g
      rw [addSend, if_neg]
      rintro ⟨hs, -⟩
      rw [hm] at hs
      cases hs

/-- A multicast is one object, unless the same message is sent again next. -/
theorem objects_multicast {ws : List (Fin N)} (hws : ws ≠ []) {m : Tuple DIM}
    (hm : m.type.shared = true) {out : Sends N DIM} (hnext : ∀ x ∈ out.head?, x.2 ≠ m) :
    objects (ws.map (fun w => (w, m)) ++ out) = (m, ws) :: objects out := by
  induction ws with
  | nil => exact absurd rfl hws
  | cons w ws ih =>
      rw [List.map_cons, List.cons_append, objects]
      -- the last of the group must not merge with what follows
      by_cases hnil : ws = []
      · have hhead := head_objects out
        rw [hnil, List.map_nil, List.nil_append]
        cases hgs : objects out with
        | nil => rfl
        | cons g gs =>
            obtain ⟨m', ws'⟩ := g
            rw [hgs] at hhead
            obtain ⟨x, hx, hxm⟩ := Option.map_eq_some_iff.mp hhead.symm
            rw [addSend, if_neg]
            rintro ⟨-, rfl⟩
            exact hnext x hx hxm
      · rw [ih hnil, addSend, if_pos ⟨hm, rfl⟩]

/-! ## Whole multicasts -/

/-- The list is made of whole multicasts and of single messages. -/
inductive Multicasts : Sends N DIM → Prop
  | nil : Multicasts []
  | single (w : Fin N) {m : Tuple DIM} (hm : m.type.shared = false) {out : Sends N DIM}
      (h : Multicasts out) : Multicasts ((w, m) :: out)
  | multicast (ws : List (Fin N)) {m : Tuple DIM} (hm : m.type.shared = true)
      (hcount : m.refCounter = ws.length) {out : Sends N DIM} (h : Multicasts out)
      (hnext : ∀ x ∈ out.head?, x.2 ≠ m) : Multicasts (ws.map (fun w => (w, m)) ++ out)

/-- **The counters are right**: that of an object is the number of its addressees. -/
theorem Multicasts.refCounter {out : Sends N DIM} (h : Multicasts out) {x : Msg N DIM}
    (hx : x ∈ objects out) (hs : x.1.type.shared = true) : x.1.refCounter = x.2.length := by
  -- induction on how the messages have been sent
  induction h with
  | nil => exact absurd hx List.not_mem_nil
  | single w hm h ih =>
      rw [objects_single w hm] at hx
      rcases List.mem_cons.mp hx with rfl | hx
      · rw [hm] at hs
        cases hs
      · exact ih hx
  | multicast ws hm hcount h hnext ih =>
      by_cases hnil : ws = []
      · rw [hnil] at hx
        exact ih hx
      · rw [objects_multicast hnil hm hnext] at hx
        rcases List.mem_cons.mp hx with rfl | hx
        · exact hcount
        · exact ih hx

/-- A multicast alone. -/
theorem Multicasts.alone (ws : List (Fin N)) {m : Tuple DIM} (hm : m.type.shared = true)
    (hcount : m.refCounter = ws.length) : Multicasts (ws.map fun w => (w, m)) := by
  have h := Multicasts.multicast ws hm hcount Multicasts.nil fun x hx => by cases hx
  rwa [List.append_nil] at h

/-- Single messages before the others. -/
theorem Multicasts.singles {α : Type} (f : α → Fin N × Tuple DIM)
    (hf : ∀ a, (f a).2.type.shared = false) (l : List α) {out : Sends N DIM} (h : Multicasts out) :
    Multicasts (l.map f ++ out) := by
  induction l with
  | nil => exact h
  | cons a l ih => exact Multicasts.single (f a).1 (hf a) ih

end Sends

end ElasticPPQ
