import ElasticPPQ.Tuple
import Mathlib.Algebra.Order.Group.Multiset

/-! # Results sets

The abstract class `Rset` (`Rset.hpp`) and the two virtual methods a preference query implements.
The starting, ending and closing ticks serve latency statistics only and are left out. -/

namespace ElasticPPQ

/-- What a preference query provides: the container of a fresh results set, and the two methods that
update it with a tuple (of values `τ`) or with another results set. -/
class PrefQuery (τ : outParam Type) (R : Type) where
  /-- The container the constructor creates. -/
  new : R
  /-- `addComputeTuple`: update with a new tuple. -/
  addComputeTuple : R → τ → R
  /-- `addComputeSet`: update with another results set. -/
  addComputeSet : R → R → R

/-- A results set: the fields of `Rset` and the container of the query. The field `addr` tells apart
the objects one worker allocates, as their addresses do. -/
structure Rset (R : Type) where
  /-- Which allocation of its creator the object is. -/
  addr : Nat
  /-- Reference counter the object is created with. -/
  refCounter : UInt64
  /-- Identifier (of a pane or of a window). -/
  id : Nat
  /-- Number of results sets with this identifier, `0` if unspecified. -/
  noInstances : Nat
  /-- The container of the query. -/
  set : R
  deriving DecidableEq

namespace Rset

variable {R R' : Type}

/-- `setNoInstances`. -/
def setNoInstances (r : Rset R) (n : Nat) : Rset R := { r with noInstances := n }

/-- Setting the number of partitions keeps the pane. -/
@[simp] theorem setNoInstances_id (r : Rset R) (n : Nat) : (r.setNoInstances n).id = r.id := rfl

/-- The number that has been set. -/
@[simp] theorem setNoInstances_noInstances (r : Rset R) (n : Nat) :
    (r.setNoInstances n).noInstances = n := rfl

/-- The same object with another container. -/
def map (f : R → R') (r : Rset R) : Rset R' := { r with set := f r.set }

/-- A mapped results set has the same address. -/
@[simp] theorem map_addr (f : R → R') (r : Rset R) : (r.map f).addr = r.addr := rfl

/-- A mapped results set is of the same pane. -/
@[simp] theorem map_id (f : R → R') (r : Rset R) : (r.map f).id = r.id := rfl

/-- A mapped results set has the same number of partitions. -/
@[simp] theorem map_noInstances (f : R → R') (r : Rset R) :
    (r.map f).noInstances = r.noInstances := rfl

/-- A mapped results set holds the image of the set. -/
@[simp] theorem map_set (f : R → R') (r : Rset R) : (r.map f).set = f r.set := rfl

/-- The number may be set before or after. -/
@[simp] theorem map_setNoInstances (f : R → R') (r : Rset R) (n : Nat) :
    (r.setNoInstances n).map f = (r.map f).setNoInstances n := rfl

end Rset

/-- How a results set has come about: which tuples and which other results sets it has been updated
with. This is the query that records everything and computes nothing. -/
inductive Build (τ : Type)
  /-- As the constructor leaves it. -/
  | empty
  /-- Updated with a tuple. -/
  | addTuple (b : Build τ) (t : τ)
  /-- Updated with another results set. -/
  | addSet (b b' : Build τ)
  deriving DecidableEq

namespace Build

variable {τ : Type}

instance prefQuery : PrefQuery τ (Build τ) where
  new := empty
  addComputeTuple := addTuple
  addComputeSet := addSet

/-- All the tuples that have been fed. -/
def tuples : Build τ → Multiset τ
  | empty => 0
  | addTuple b t => b.tuples + {t}
  | addSet b b' => b.tuples + b'.tuples

/-- The container that a query computes in that way. -/
def eval (R : Type) [PrefQuery τ R] : Build τ → R
  | empty => PrefQuery.new
  | addTuple b t => PrefQuery.addComputeTuple (b.eval R) t
  | addSet b b' => PrefQuery.addComputeSet (b.eval R) (b'.eval R)

/-- A block of tuples, fed one by one. -/
def block (ts : List τ) : Build τ := ts.foldl addTuple empty

/-- Tuples added one after the other. -/
theorem tuples_foldl (ts : List τ) (b : Build τ) :
    (ts.foldl addTuple b).tuples = b.tuples + ts := by
  induction ts generalizing b with
  | nil => rw [List.foldl_nil, Multiset.coe_nil, add_zero]
  | cons t ts ih =>
      rw [List.foldl_cons, ih, tuples, add_assoc, Multiset.singleton_add, Multiset.cons_coe]

/-- The tuples of a block. -/
@[simp] theorem tuples_block (ts : List τ) : (block ts).tuples = ts := by
  rw [block, tuples_foldl, tuples, zero_add]

end Build

end ElasticPPQ
