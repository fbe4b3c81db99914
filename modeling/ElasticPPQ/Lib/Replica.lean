import Mathlib.Init

/-! # A replica that lags behind

An authority informs a replica of its changes through a FIFO channel. `step` is what the replica does
with a message and `Ok` says when it is able to. The replica *lags* when it is able to process the
messages in flight one after the other, and then knows what the authority knows. The authority sends
at one end of the channel (`Lags.send`), the replica receives at the other one (`Lags.receive`). -/

namespace ElasticPPQ.Replica

variable {α β : Type*} (Ok : α → β → Prop) (step : α → β → α)

/-- With the messages in flight the replica gets from what it knows to `known`. -/
def Lags : α → List β → α → Prop
  | a, [], known => a = known
  | a, m :: ms, known => Ok a m ∧ Lags (step a m) ms known

variable {Ok step} {a known : α} {ms : List β}

/-- Processing the messages in flight, which fails for none of them, gives what the authority
knows. -/
theorem Lags.foldlM {f : α → β → Option α} (hf : ∀ a m, Ok a m → f a m = some (step a m))
    (h : Lags Ok step a ms known) : ms.foldlM f a = some known := by
  induction ms generalizing a with
  | nil => exact congrArg some h
  | cons m ms ih =>
      rw [List.foldlM_cons, hf a m h.1]
      exact ih h.2

/-- The authority sends a message that can be applied to what it knows. -/
theorem Lags.send (h : Lags Ok step a ms known) {m : β} (hm : Ok known m) :
    Lags Ok step a (ms ++ [m]) (step known m) := by
  induction ms generalizing a with
  | nil =>
      obtain rfl : a = known := h
      exact ⟨hm, rfl⟩
  | cons m' ms ih => exact ⟨h.1, ih h.2⟩

/-- The replica is able to process the next message, and lags less afterwards. -/
theorem Lags.receive {m : β} (h : Lags Ok step a (m :: ms) known) :
    Ok a m ∧ Lags Ok step (step a m) ms known := h

end ElasticPPQ.Replica
