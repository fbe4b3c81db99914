import ElasticPPQ.Wlq.Emitter
import ElasticPPQ.Lib.Resize

/-! # The WLQ collector

The class `WLQ_Collector` (`wlq.hpp`), compiled without `UNORDERING_COLLECTOR`: the windows leave in
the order of their identifiers, whatever the order in which they come. -/

namespace ElasticPPQ

/-- The state of `WLQ_Collector`, for pointers `α` to results sets. -/
structure WlqCollector (α : Type) where
  /-- Identifier of the next window to transmit. -/
  nextWinId : Nat
  /-- The windows received and buffered, by identifier relative to the next one. -/
  winSet : List (Option α)

namespace WlqCollector

variable {α : Type}

/-- The constructor. -/
def new (α : Type) : WlqCollector α := ⟨0, []⟩

/-- The loop that transmits the buffered windows after the first place of the deque, up to the first
one missing. -/
def transmit : List (Option α) → List α × List (Option α)
  | some w :: ws =>
      let (out, rest) := transmit ws
      (w :: out, rest)
  | ws => ([], ws)

/-- `svc`, for window `w` with identifier `id`: the windows transmitted. -/
def svc (id : Nat) (w : α) (c : WlqCollector α) : Except WlqError (WlqCollector α × List α) :=
  if id = c.nextWinId then
    match c.winSet with
    | [] => .ok (⟨c.nextWinId + 1, []⟩, [w])
    -- the place of the window itself is dropped first
    | _ :: ws =>
        let (out, rest) := transmit ws
        .ok (⟨c.nextWinId + 1 + out.length, rest⟩, w :: out)
  else if id < c.nextWinId then .error .underflow
  else
    let i := id - c.nextWinId
    .ok ({ c with winSet := (growTable c.winSet i none).set i (some w) }, [])

end WlqCollector

end ElasticPPQ
