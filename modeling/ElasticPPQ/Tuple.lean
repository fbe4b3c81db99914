import Mathlib.Data.Rat.Floor

/-! # Messages between the PLQ emitter and the PLQ workers

The class `tuple_t` (`tuple_t.hpp`): one record for the regular tuples of the stream and for the
control messages of the emitter, told apart by `type`. Doubles are exact rationals. The arrival
ticks, used for latency statistics only, are left out. -/

namespace ElasticPPQ

/-- The types of message (`type_msg_t`). -/
inductive TypeMsg
  | unspecified
  | regular
  | flush
  | newInst
  | punct
  | lull
  | emptyPane
  | end
  deriving DecidableEq, Repr

/-- Results sets of at least two dimensions have a first one. -/
instance (priority := high) neZeroAddTwo (k : Nat) : NeZero (k + 2) := ⟨Nat.succ_ne_zero (k + 1)⟩

/-- The columns after the coordinates are `0` and `1`. -/
instance (priority := high) neZeroTwo : NeZero 2 := ⟨Nat.succ_ne_zero 1⟩

/-- The values a results set stores for one tuple: `DIM` coordinates, application timestamp and
generator timestamp. -/
@[ext]
structure Row (α : Type) (DIM : Nat) where
  /-- The coordinates. -/
  d : Fin DIM → α
  /-- Application timestamp (microseconds). -/
  appTs : α
  /-- Generator timestamp (microseconds). -/
  genTs : α

/-- The message `tuple_t`; the row is meaningful for regular tuples only. -/
structure Tuple (DIM : Nat) extends Row ℚ DIM where
  /-- Type of the message. -/
  type : TypeMsg
  /-- Number of workers that receive the message (multicast messages). -/
  refCounter : Nat
  /-- Punctuation value. -/
  puncValue : ℚ
  /-- Number of instances of the pane. -/
  noInstances : Nat
  /-- Identifier of the pane. -/
  paneId : Nat

namespace Tuple

variable {DIM : Nat}

/-- The empty constructor. -/
def new (DIM : Nat) : Tuple DIM where
  d := fun _ => 0
  appTs := 0
  genTs := 0
  type := .unspecified
  refCounter := 0
  puncValue := 0
  noInstances := 0
  paneId := 0

/-- The pane that a timestamp (in microseconds) falls into, for panes of `paneLength`
milliseconds. -/
def paneOf (paneLength : Nat) (ts : ℚ) : Nat := ⌊ts / ((paneLength * 1000 : Nat) : ℚ)⌋₊

/-- A regular tuple, from the row decoded out of the receive buffer. -/
def createRegular (row : Row ℚ DIM) (paneLength : Nat) : Tuple DIM :=
  { new DIM with
    toRow := row
    type := .regular
    paneId := paneOf paneLength row.appTs
    noInstances := 1 }

/-- A punctuation of value `ts`, for `nw` receivers. -/
def createPunctuation (ts : ℚ) (pId nw : Nat) : Tuple DIM :=
  { new DIM with type := .punct, puncValue := ts, paneId := pId, refCounter := nw }

/-- An end-of-stream message for `nw` receivers. -/
def createEnd (nw : Nat) : Tuple DIM :=
  { new DIM with type := .end, refCounter := nw }

/-- The message that pane `pId` now has `noInst` instances, for `nw` receivers. -/
def createNewinst (pId noInst nw : Nat) : Tuple DIM :=
  { new DIM with type := .newInst, paneId := pId, noInstances := noInst, refCounter := nw }

/-- A flush for `nw` receivers; panes below `pId` are closed. -/
def createFlush (nw pId : Nat) : Tuple DIM :=
  { new DIM with type := .flush, paneId := pId, refCounter := nw }

/-- The message that pane `pId` is closed and empty. -/
def createLull (pId : Nat) : Tuple DIM :=
  { new DIM with type := .lull, paneId := pId, noInstances := 1 }

/-- The message that opens an empty instance of pane `pId`. -/
def createEmptypane (pId noInst : Nat) : Tuple DIM :=
  { new DIM with type := .emptyPane, paneId := pId, noInstances := noInst }

/-- Pane identifiers do not decrease along nondecreasing timestamps. -/
theorem paneOf_mono (paneLength : Nat) {t u : ℚ} (h : t ≤ u) :
    paneOf paneLength t ≤ paneOf paneLength u := by
  have hlen : (0 : ℚ) ≤ ((paneLength * 1000 : Nat) : ℚ) := Nat.cast_nonneg _
  exact Nat.floor_mono (div_le_div_of_nonneg_right h hlen)

/-- With one more row decoded, all the tuples still come from rows of the stream. -/
theorem regular_append {paneLength : Nat} {received : List (Tuple DIM)} {row : Row ℚ DIM}
    (h : ∀ t ∈ received, ∃ row : Row ℚ DIM, 0 ≤ row.appTs ∧ t = createRegular row paneLength)
    (hts : 0 ≤ row.appTs) :
    ∀ t ∈ received ++ [createRegular row paneLength],
      ∃ row : Row ℚ DIM, 0 ≤ row.appTs ∧ t = createRegular row paneLength := by
  intro t ht
  rcases List.mem_append.mp ht with ht | ht
  · exact h t ht
  · exact ⟨row, hts, List.mem_singleton.mp ht⟩

end Tuple

end ElasticPPQ
