import ElasticPPQ.Wlq.Emitter

/-! # The WLQ workers

The class `WLQ_Worker` (`wlq.hpp`), over the results sets of the second stage that the addresses of
the tasks stand for. A results set is kept when its last task deletes it; the values that
`decreaseRefCounter` has returned say when that happens. -/

namespace ElasticPPQ

/-- A call of `decreaseRefCounter`. -/
structure Consumed where
  /-- The results set. -/
  addr : Addr
  /-- The window of the task. -/
  winId : Nat
  /-- The value returned; with `1` the results set is deleted. -/
  value : UInt64
  deriving DecidableEq

/-- The results sets of the second stage. -/
structure WlqMemory (R : Type) where
  /-- The results set at each address. -/
  heap : Addr → Rset R
  /-- Number of results sets created by `MERGE` tasks. -/
  merges : Nat
  /-- The calls of `decreaseRefCounter` so far. -/
  consumed : List Consumed

namespace WlqMemory

variable {τ R : Type} [PrefQuery τ R]

/-- The results set that a constructor call creates at an address. -/
def construct : Addr → Rset R
  | .pane i => ⟨i, 1, 0, 1, PrefQuery.new⟩
  | .merged j => ⟨j, 1, 0, 1, PrefQuery.new⟩
  | .win k => ⟨k, 1, k, 1, PrefQuery.new⟩

variable (R) in
/-- Before anything has happened. -/
def new : WlqMemory R := ⟨construct, 0, []⟩

omit [PrefQuery τ R] in
/-- A results set is written to an address. -/
def write (a : Addr) (r : Rset R) (m : WlqMemory R) : WlqMemory R :=
  { m with heap := Function.update m.heap a r }

/-- `addComputeSet` of the results set at `a`, with the one at `b`. -/
def addComputeSet (a b : Addr) (m : WlqMemory R) : WlqMemory R :=
  m.write a { m.heap a with set := PrefQuery.addComputeSet (m.heap a).set (m.heap b).set }

omit [PrefQuery τ R] in
/-- `decreaseRefCounter` of the results set at `a`, by a task of window `winId`. -/
def decreaseRefCounter (a : Addr) (winId : Nat) (m : WlqMemory R) : WlqMemory R :=
  let past := (m.heap a).refCounter
  { m.write a { m.heap a with refCounter := past - 1 } with
    consumed := m.consumed ++ [⟨a, winId, past⟩] }

/-- `WLQ_Worker::svc`, up to the sends: the task as it is sent back. -/
def svc (t : WTask) (m : WlqMemory R) : Except WlqError (WlqMemory R × WTask) :=
  match t.p2, t.type with
  -- the second results set is dereferenced
  | none, _ => .error .null
  | some p2, .winUpdate =>
      .ok (((m.addComputeSet t.p1 p2).decreaseRefCounter p2 t.winId), { t with p2 := none })
  | some p2, .merge =>
      let p3 := .merged m.merges
      -- the results set of the task is a new one
      let m := { m.write p3 (construct p3) with merges := m.merges + 1 }
      let m := (m.addComputeSet p3 t.p1).addComputeSet p3 p2
      .ok ((m.decreaseRefCounter t.p1 t.winId).decreaseRefCounter p2 t.winId,
        { t with p1 := p3, p2 := none })

end WlqMemory

end ElasticPPQ
