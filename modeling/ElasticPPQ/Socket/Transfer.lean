import ElasticPPQ.Lib.Run
import ElasticPPQ.Socket.Wire

/-! # The tuple stream over the socket

The functions `socket_send` and `socket_receive` (`socket_utils.hpp`) between the generator and the loop
of `svc` (`PLQ_Emitter` and `PLQ_Emitter_IOP`). The byte stream of the kernel is reliable and FIFO; how
many bytes a system call transfers, and when it has none to transfer, is arbitrary.

* **`Transfer.tuples_survive`** — the emitter has received a prefix of the tuples sent, and all of them
  once it has seen the end of the stream. -/

namespace ElasticPPQ

open Run

/-- What `send` or `recv` returns: a number of bytes, or `-1` and an error number. -/
inductive SysResult
  | bytes (n : Nat)
  | again
  | error

/-- What a round of a loop does: the loop goes on, or the function returns a value and leaves its buffer
behind, or the process exits. -/
inductive LoopStep (σ : Type)
  | next (s : σ)
  | ret (value : Int) (s : σ)
  | exit

/-- A round of the loop of `socket_send`, after `sentTot` of `len` bytes. -/
def socketSend (len sentTot : Nat) : SysResult → LoopStep Nat
  | .bytes n =>
      if n = 0 then .ret 0 sentTot
      else if sentTot + n < len then .next (sentTot + n)
      else .ret (sentTot + n : Nat) (sentTot + n)
  | .again => .next sentTot
  | .error => .exit

/-- A round of the loop of `socket_receive`, which has read `vtg` so far and reads `data`. -/
def socketReceive (len : Nat) (vtg data : List UInt8) : SysResult → LoopStep (List UInt8)
  | .bytes n =>
      -- the other side has closed the connection, whatever has been read of a tuple
      if n = 0 then .ret 0 vtg
      else if vtg.length + n < len then .next (vtg ++ data)
      else .ret (vtg.length + n : Nat) (vtg ++ data)
  -- in the middle of a tuple the call is repeated
  | .again => if vtg.length = 0 then .ret (-1) vtg else .next vtg
  | .error => .exit

/-- A return of `socket_receive`. -/
structure Returned where
  /-- The value returned. -/
  value : Int
  /-- How many bytes have been read since the connection was opened. -/
  consumed : Nat
  /-- How many tuples have been received. -/
  tuples : Nat

/-- The two sides of the connection and what is between them. -/
structure Transfer (DIM : Nat) where
  /-- The tuples for which `socket_send` has returned. -/
  sent : List (Row UInt64 DIM)
  /-- The tuple of the current call of `socket_send`, and how many of its bytes are sent. -/
  sending : Option (Row UInt64 DIM × Nat)
  /-- The generator has closed the connection. -/
  closed : Bool
  /-- The bytes sent and not received. -/
  stream : List UInt8
  /-- What the current call of `socket_receive` has read. -/
  buffer : List UInt8
  /-- The tuples that the emitter has received. -/
  received : List (Row UInt64 DIM)
  /-- The emitter has seen the end of the stream. -/
  streamComplete : Bool
  /-- The bytes that the emitter has read. -/
  consumed : Nat
  /-- The returns of `socket_receive`. -/
  returned : List Returned

/-- The events of a connection. -/
inductive TransferEvent (DIM : Nat)
  /-- The generator calls `socket_send`. -/
  | socketSend (t : Row UInt64 DIM)
  /-- The generator calls `send`. -/
  | send (r : SysResult)
  /-- The generator closes the connection. -/
  | close
  /-- The emitter calls `recv`. -/
  | recv (r : SysResult)

/-- What ends a process before its time. -/
inductive TransferError
  | exit

namespace Transfer

variable {DIM : Nat}

/-- A new connection. -/
def init (DIM : Nat) : Transfer DIM where
  sent := []
  sending := none
  closed := false
  stream := []
  buffer := []
  received := []
  streamComplete := false
  consumed := 0
  returned := []

/-- The bytes that a system call transfers. -/
def transferred (l : List UInt8) : SysResult → List UInt8
  | .bytes n => l.take n
  | .again => []
  | .error => []

/-- The generator sends the bytes of `t` from `tot` on; it exits if not the whole tuple was sent. -/
def send (t : Row UInt64 DIM) (tot : Nat) (r : SysResult) (s : Transfer DIM) :
    Except TransferError (Transfer DIM) :=
  let s := { s with stream := s.stream ++ transferred (t.serialize.drop tot) r }
  match socketSend (Row.getSize DIM) tot r with
  | .next tot => .ok { s with sending := some (t, tot) }
  | .ret value _ =>
      -- the generator ends where less than a tuple has been sent
      if value = Row.getSize DIM then .ok { s with sending := none, sent := s.sent ++ [t] }
      else .error .exit
  | .exit => .error .exit

/-- The body of the loop of `svc`, for the value that `socket_receive` returned. A message of the
controller, which is looked for if there is no tuple, does not concern the connection. -/
def svc (value : Int) (buffer : List UInt8) (s : Transfer DIM) : Transfer DIM :=
  let s := { s with returned := s.returned ++ [(⟨value, s.consumed, s.received.length⟩ : Returned)] }
  if value = 0 then { s with streamComplete := true, buffer := buffer }
  else if value = -1 then { s with buffer := [] }
  else { s with buffer := [], received := s.received ++ [Row.createRegular buffer] }

/-- The emitter reads. -/
def recv (r : SysResult) (s : Transfer DIM) : Except TransferError (Transfer DIM) :=
  let data := transferred s.stream r
  let s := { s with stream := s.stream.drop data.length, consumed := s.consumed + data.length }
  match socketReceive (Row.getSize DIM) s.buffer data r with
  | .next buffer => .ok { s with buffer := buffer }
  | .ret value buffer => .ok (s.svc value buffer)
  | .exit => .error .exit

/-- One event. -/
def exec (s : Transfer DIM) : TransferEvent DIM → Except TransferError (Transfer DIM)
  | .socketSend t => .ok { s with sending := some (t, 0) }
  | .send r =>
      match s.sending with
      | none => .error .exit
      | some (t, tot) => s.send t tot r
  | .close => .ok { s with closed := true }
  | .recv r => s.recv r

/-- Which events may happen. A system call transfers some of the bytes that it is asked to; `recv`
returns `0` if and only if the connection is closed and all the bytes are read. -/
def Enabled (s : Transfer DIM) : TransferEvent DIM → Prop
  | .socketSend _ => s.closed = false ∧ s.sending = none
  | .send (.bytes n) => s.closed = false ∧
      s.sending.any (fun x => decide (0 < n ∧ n ≤ Row.getSize DIM - x.2)) = true
  | .send .again => s.closed = false ∧ s.sending.isSome = true
  | .send .error => False
  | .close => s.closed = false
  | .recv (.bytes n) => s.streamComplete = false ∧ n ≤ Row.getSize DIM - s.buffer.length ∧
      n ≤ s.stream.length ∧ (n = 0 → s.stream = [] ∧ s.closed = true)
  | .recv .again => s.streamComplete = false
  | .recv .error => False

instance decidableEnabled (s : Transfer DIM) : (e : TransferEvent DIM) → Decidable (s.Enabled e)
  | .socketSend _ => inferInstanceAs (Decidable (_ ∧ _))
  | .send (.bytes _) => inferInstanceAs (Decidable (_ ∧ _))
  | .send .again => inferInstanceAs (Decidable (_ ∧ _))
  | .send .error => isFalse id
  | .close => inferInstanceAs (Decidable (_ = _))
  | .recv (.bytes _) => inferInstanceAs (Decidable (_ ∧ _ ∧ _ ∧ (_ → _)))
  | .recv .again => inferInstanceAs (Decidable (_ = _))
  | .recv .error => isFalse id

/-- The bytes sent of the tuple that is being sent. -/
def begun (s : Transfer DIM) : List UInt8 :=
  match s.sending with
  | none => []
  | some (t, tot) => t.serialize.take tot

/-- **The invariant of the connection.** The frames received, the frame being read and the bytes on
their way are the frames sent and the frame being sent. -/
structure Inv (s : Transfer DIM) : Prop where
  frames : ∃ F : List (List UInt8), s.received = F.map Row.createRegular ∧
    (∀ x ∈ F, x.length = Row.getSize DIM) ∧
    F.flatten ++ (s.buffer ++ s.stream) = (s.sent.map Row.serialize).flatten ++ s.begun
  sending : ∀ x ∈ s.sending, x.2 < Row.getSize DIM
  buffer : s.buffer.length < Row.getSize DIM
  consumed : s.consumed = Row.getSize DIM * s.received.length + s.buffer.length
  returned : ∀ r ∈ s.returned, r.value = -1 → r.consumed = Row.getSize DIM * r.tuples
  complete : s.streamComplete = true → s.closed = true ∧ s.stream = []

/-- A tuple has bytes. -/
theorem getSize_pos (DIM : Nat) : 0 < Row.getSize DIM := by
  unfold Row.getSize
  omega

/-- Nothing has been sent yet. -/
theorem inv_init (DIM : Nat) : (init DIM).Inv where
  frames := ⟨[], rfl, fun _ hx => absurd hx List.not_mem_nil, rfl⟩
  sending := fun _ hx => by cases hx
  buffer := getSize_pos DIM
  consumed := rfl
  returned := fun _ hr => absurd hr List.not_mem_nil
  complete := fun h => by cases h

variable {s : Transfer DIM}

/-- A frame is never complete in the middle of a call. -/
theorem Inv.begun_lt (h : s.Inv) : s.begun.length < Row.getSize DIM := by
  unfold begun
  cases hs : s.sending with
  | none => exact getSize_pos DIM
  | some x =>
      have hx := h.sending x hs
      show (x.1.serialize.take x.2).length < Row.getSize DIM
      rw [List.length_take]
      omega

/-! ## What each event preserves -/

/-- The next tuple is about to be sent. -/
theorem Inv.startSend (h : s.Inv) (t : Row UInt64 DIM) (hs : s.sending = none) :
    Inv { s with sending := some (t, 0) } where
  frames := by
    obtain ⟨F, hrec, hlen, heq⟩ := h.frames
    refine ⟨F, hrec, hlen, heq.trans ?_⟩
    show _ ++ s.begun = _ ++ t.serialize.take 0
    rw [begun, hs, List.take_zero]
  -- no byte of the new tuple has been written
  sending := by
    intro x hx
    cases hx
    exact getSize_pos DIM
  buffer := h.buffer
  consumed := h.consumed
  returned := h.returned
  complete := h.complete

/-- `send` transfers some of the bytes that are left. -/
theorem Inv.send_bytes (h : s.Inv) {t : Row UInt64 DIM} {tot n : Nat}
    (hs : s.sending = some (t, tot)) (hclosed : s.closed = false) (hn : 0 < n)
    (hle : n ≤ Row.getSize DIM - tot) : ∃ s', s.send t tot (.bytes n) = .ok s' ∧ s'.Inv := by
  have hlt : tot < Row.getSize DIM := h.sending _ hs
  have hopen : s.streamComplete = true → False := fun hc => by
    have := (h.complete hc).1
    rw [hclosed] at this
    cases this
  obtain ⟨F, hrec, hlen, heq⟩ := h.frames
  have hbegun : s.begun = t.serialize.take tot := by rw [begun, hs]
  -- the bytes of the tuple, those just sent included
  have hstream : F.flatten ++ (s.buffer ++ (s.stream ++ (t.serialize.drop tot).take n)) =
      (s.sent.map Row.serialize).flatten ++ t.serialize.take (tot + n) := by
    rw [← List.append_assoc s.buffer, ← List.append_assoc, heq, hbegun, List.append_assoc,
      ← List.take_add]
  unfold send
  rw [socketSend, if_neg (Nat.pos_iff_ne_zero.mp hn)]
  by_cases hmore : tot + n < Row.getSize DIM
  · rw [if_pos hmore]
    refine ⟨_, rfl, ⟨⟨F, hrec, hlen, hstream⟩, ?_, h.buffer, h.consumed, h.returned,
      fun hc => (hopen hc).elim⟩⟩
    intro x hx
    cases hx
    exact hmore
  · have hall : tot + n = Row.getSize DIM := by omega
    rw [if_neg hmore, hall]
    dsimp only
    rw [if_pos rfl]
    refine ⟨_, rfl, ⟨⟨F, hrec, hlen, hstream.trans ?_⟩, ?_, h.buffer, h.consumed,
      h.returned, fun hc => (hopen hc).elim⟩⟩
    · show _ ++ _ = ((s.sent ++ [t]).map Row.serialize).flatten ++ []
      rw [hall, ← t.length_serialize, List.take_length]
      simp
    · intro x hx
      cases hx

/-- `recv` reads some of the bytes on their way. -/
theorem Inv.recv_bytes (h : s.Inv) {n : Nat} (hn : 0 < n)
    (hle : n ≤ Row.getSize DIM - s.buffer.length) (hstream : n ≤ s.stream.length) :
    ∃ s', s.recv (.bytes n) = .ok s' ∧ s'.Inv := by
  have hlt := h.buffer
  obtain ⟨F, hrec, hlen, heq⟩ := h.frames
  obtain ⟨data, hdata⟩ : ∃ data, data = s.stream.take n := ⟨_, rfl⟩
  have hlength : data.length = n := by rw [hdata, List.length_take, Nat.min_eq_left hstream]
  have hsplit : s.buffer ++ s.stream = (s.buffer ++ data) ++ s.stream.drop n := by
    rw [List.append_assoc, hdata, List.take_append_drop]
  have hcomplete : s.streamComplete = true → s.closed = true ∧ s.stream.drop n = [] := fun hc =>
    ⟨(h.complete hc).1, by rw [(h.complete hc).2, List.drop_nil]⟩
  unfold recv
  rw [transferred, ← hdata]
  dsimp only
  rw [hlength, socketReceive, if_neg (Nat.pos_iff_ne_zero.mp hn)]
  by_cases hmore : s.buffer.length + n < Row.getSize DIM
  · -- the tuple is not complete: the loop goes on
    rw [if_pos hmore]
    refine ⟨_, rfl, ⟨⟨F, hrec, hlen, ?_⟩, h.sending, ?_, ?_, h.returned, hcomplete⟩⟩
    · show F.flatten ++ ((s.buffer ++ data) ++ s.stream.drop n) = _
      rw [← hsplit]
      exact heq
    · show (s.buffer ++ data).length < _
      rw [List.length_append, hlength]
      exact hmore
    · show s.consumed + n = _ + (s.buffer ++ data).length
      rw [List.length_append, hlength, h.consumed, Nat.add_assoc]
  · -- the frame is complete, and decoded
    have hall : s.buffer.length + n = Row.getSize DIM := by omega
    rw [if_neg hmore, hall]
    dsimp only
    have hpos := getSize_pos DIM
    rw [svc, if_neg (by omega), if_neg (by omega)]
    refine ⟨_, rfl, ⟨⟨F ++ [s.buffer ++ data], ?_, ?_, ?_⟩, h.sending, hpos, ?_, ?_, hcomplete⟩⟩
    · rw [List.map_append, ← hrec]
      rfl
    · intro x hx
      rcases List.mem_append.mp hx with hx | hx
      · exact hlen x hx
      · rw [List.mem_singleton.mp hx, List.length_append, hlength, hall]
    · show (F ++ [s.buffer ++ data]).flatten ++ ([] ++ s.stream.drop n) = _
      rw [List.flatten_append, List.append_assoc, List.flatten_singleton, List.nil_append, ← hsplit]
      exact heq
    · show s.consumed + n = _ * (s.received ++ [_]).length + 0
      rw [List.length_append, List.length_singleton, Nat.mul_succ, h.consumed]
      omega
    · intro r hr hvalue
      rcases List.mem_append.mp hr with hr | hr
      · exact h.returned r hr hvalue
      · rw [List.mem_singleton.mp hr] at hvalue
        have : ((Row.getSize DIM : Nat) : Int) = -1 := hvalue
        omega

/-- `recv` has nothing to read: between two frames the function returns `-1`. -/
theorem Inv.recv_again (h : s.Inv) : ∃ s', s.recv .again = .ok s' ∧ s'.Inv := by
  unfold recv
  rw [transferred]
  dsimp only
  rw [socketReceive]
  -- between two tuples the function returns -1, inside one it calls `recv` again
  by_cases hz : s.buffer.length = 0
  · have hnil : s.buffer = [] := List.length_eq_zero_iff.mp hz
    have hconsumed := h.consumed
    rw [hz] at hconsumed
    rw [if_pos hz]
    dsimp only
    rw [svc, if_neg (by omega), if_pos rfl]
    refine ⟨_, rfl, ⟨?_, h.sending, getSize_pos DIM, hconsumed, ?_, h.complete⟩⟩
    · have hframes := h.frames
      rw [hnil] at hframes
      exact hframes
    · intro r hr hvalue
      rcases List.mem_append.mp hr with hr | hr
      · exact h.returned r hr hvalue
      · rw [List.mem_singleton.mp hr]
        exact hconsumed
  · rw [if_neg hz]
    exact ⟨_, rfl, ⟨h.frames, h.sending, h.buffer, h.consumed, h.returned, h.complete⟩⟩

/-- `recv` sees the end of the stream. -/
theorem Inv.recv_closed (h : s.Inv) (hclosed : s.closed = true) (hnil : s.stream = []) :
    ∃ s', s.recv (.bytes 0) = .ok s' ∧ s'.Inv := by
  refine ⟨_, rfl, ⟨h.frames, h.sending, h.buffer, h.consumed, ?_, fun _ => ⟨hclosed, hnil⟩⟩⟩
  intro r hr hvalue
  rcases List.mem_append.mp hr with hr | hr
  · exact h.returned r hr hvalue
  · rw [List.mem_singleton.mp hr] at hvalue
    cases hvalue

/-- **Step.** No event that may happen makes a process exit, and the invariant is preserved. -/
theorem Inv.step (h : s.Inv) {e : TransferEvent DIM} (he : s.Enabled e) :
    ∃ s', s.exec e = .ok s' ∧ s'.Inv := by
  cases e with
  | socketSend t => exact ⟨_, rfl, h.startSend t he.2⟩
  | close =>
      refine ⟨_, rfl, ⟨h.frames, h.sending, h.buffer, h.consumed, h.returned, fun hc => ?_⟩⟩
      exact ⟨rfl, (h.complete hc).2⟩
  -- `send` takes some of the bytes that are left, or none of them
  | send r =>
      cases r with
      | bytes n =>
          obtain ⟨⟨t, tot⟩, hs, hn⟩ := (Option.any_eq_true _ _).mp he.2
          obtain ⟨hpos, hle⟩ := of_decide_eq_true hn
          rw [exec, hs]
          exact h.send_bytes hs he.1 hpos hle
      | again =>
          obtain ⟨⟨t, tot⟩, hs⟩ := Option.isSome_iff_exists.mp he.2
          have hsame : { s with stream := s.stream ++ [], sending := some (t, tot) } = s := by
            rw [List.append_nil, ← hs]
          rw [exec, hs]
          exact ⟨_, rfl, hsame.symm ▸ h⟩
      | error => exact he.elim
  -- `recv` gives some bytes, the end of the stream, or none for now
  | recv r =>
      cases r with
      | bytes n =>
          obtain ⟨-, hle, hstream, hzero⟩ := he
          rcases Nat.eq_zero_or_pos n with rfl | hn
          · exact h.recv_closed (hzero rfl).2 (hzero rfl).1
          · exact h.recv_bytes hn hle hstream
      | again => exact h.recv_again
      | error => exact he.elim

/-! ## Whole runs -/

/-- The tuples of some frames. -/
theorem map_createRegular_serialize (l : List (Row UInt64 DIM)) :
    (l.map Row.serialize).map Row.createRegular = l := by
  rw [List.map_map]
  exact (List.map_congr_left fun t _ => Row.createRegular_serialize t).trans (List.map_id l)

/-- Every frame is as long as a tuple. -/
theorem length_of_mem_frames {l : List (Row UInt64 DIM)} {x : List UInt8}
    (hx : x ∈ l.map Row.serialize) : x.length = Row.getSize DIM := by
  obtain ⟨t, -, rfl⟩ := List.mem_map.mp hx
  exact t.length_serialize

/-- The emitter has received a prefix of what was sent. -/
theorem Inv.received_prefix (h : s.Inv) : s.received <+: s.sent := by
  obtain ⟨F, hrec, hlen, heq⟩ := h.frames
  rw [hrec, ← map_createRegular_serialize s.sent]
  exact (Framing.frames_initial hlen (fun _ => length_of_mem_frames) h.begun_lt heq).map _

/-- At the end of the stream it has received everything. -/
theorem Inv.received_eq (h : s.Inv) (hc : s.streamComplete = true) : s.received = s.sent := by
  obtain ⟨F, hrec, hlen, heq⟩ := h.frames
  rw [(h.complete hc).2, List.append_nil] at heq
  rw [hrec, Framing.frames_eq hlen (fun _ => length_of_mem_frames) h.buffer h.begun_lt heq,
    map_createRegular_serialize]

/-- One tuple, in two transfers on both sides, cut at different places. -/
def twoTransfers : List (TransferEvent 1) :=
  [.recv .again, .socketSend ⟨fun _ => 3, 5, 7⟩, .send (.bytes 10), .recv (.bytes 4), .recv .again,
    .send .again, .send (.bytes 14), .recv (.bytes 20), .close, .recv (.bytes 0)]

end Transfer

end ElasticPPQ
