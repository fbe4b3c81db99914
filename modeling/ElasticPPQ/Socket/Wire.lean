import ElasticPPQ.Lib.Framing
import ElasticPPQ.Tuple

/-! # Tuples on the wire

The methods `getSize`, `serialize` and `create_regular` of `tuple_t` (`tuple_t.hpp`). A double is its
bit pattern of type `UInt64`; both methods copy the bytes of its representation in memory, here the
lowest one first. The other fields that `create_regular` sets depend on these values only. -/

namespace ElasticPPQ

/-! ## Numbers as bytes -/

/-- The `n` lowest bytes of a number. -/
def bytesOf : Nat → Nat → List UInt8
  | 0, _ => []
  | n + 1, v => UInt8.ofNat v :: bytesOf n (v / 256)

/-- The number with these bytes. -/
def valueOf : List UInt8 → Nat
  | [] => 0
  | b :: bs => b.toNat + 256 * valueOf bs

/-- As many bytes as asked for. -/
theorem length_bytesOf (n v : Nat) : (bytesOf n v).length = n := by
  induction n generalizing v with
  | zero => rfl
  | succ n ih => rw [bytesOf, List.length_cons, ih]

/-- The value of the bytes of a number is that number, as far as there is room for it. -/
theorem valueOf_bytesOf (n v : Nat) : valueOf (bytesOf n v) = v % 256 ^ n := by
  induction n generalizing v with
  | zero => rw [bytesOf, valueOf, Nat.pow_zero, Nat.mod_one]
  | succ n ih =>
      have hpow : v % 256 ^ (n + 1) = v % 256 + 256 * (v / 256 % 256 ^ n) := by
        rw [Nat.pow_succ', Nat.mod_mul]
      rw [bytesOf, valueOf, ih, UInt8.toNat_ofNat', hpow]

/-- The bytes of a double in memory. -/
def bytesOfDouble (x : UInt64) : List UInt8 := bytesOf 8 x.toNat

/-- The double with these bytes in memory. -/
def doubleOfBytes (bs : List UInt8) : UInt64 := UInt64.ofNat (valueOf bs)

/-- A double has eight bytes. -/
theorem length_bytesOfDouble (x : UInt64) : (bytesOfDouble x).length = 8 := length_bytesOf 8 _

/-- A double is read back from its bytes. -/
theorem doubleOfBytes_bytesOfDouble (x : UInt64) : doubleOfBytes (bytesOfDouble x) = x := by
  have hx : x.toNat % 256 ^ 8 = x.toNat := Nat.mod_eq_of_lt x.toNat_lt
  rw [doubleOfBytes, bytesOfDouble, valueOf_bytesOf, hx, UInt64.ofNat_toNat]

/-! ## Rows -/

namespace Row

variable {DIM : Nat}

/-- `getSize`: the size of a serialized tuple in bytes. -/
def getSize (DIM : Nat) : Nat := 8 * (DIM + 2)

/-- `serialize`: the coordinates, then the two timestamps. -/
def serialize (t : Row UInt64 DIM) : List UInt8 :=
  (List.finRange DIM).flatMap (fun i => bytesOfDouble (t.d i)) ++ bytesOfDouble t.appTs ++
    bytesOfDouble t.genTs

/-- The eight bytes from position `b` on. -/
def readDouble (buffer : List UInt8) (b : Nat) : UInt64 := doubleOfBytes ((buffer.drop b).take 8)

/-- `create_regular`: the values are read in the same order. -/
def createRegular (buffer : List UInt8) : Row UInt64 DIM where
  d := fun i => readDouble buffer (8 * i.val)
  appTs := readDouble buffer (8 * DIM)
  genTs := readDouble buffer (8 * (DIM + 1))

/-- The doubles of a tuple, in the order of the wire. -/
def words (t : Row UInt64 DIM) : List (List UInt8) :=
  (List.finRange DIM).map (fun i => bytesOfDouble (t.d i)) ++
    [bytesOfDouble t.appTs, bytesOfDouble t.genTs]

/-- A tuple is serialized word by word. -/
theorem serialize_eq (t : Row UInt64 DIM) : t.serialize = t.words.flatten := by
  rw [serialize, words, List.flatten_append, List.flatMap_def]
  simp

/-- A tuple has a word for each coordinate and two timestamps. -/
theorem length_words (t : Row UInt64 DIM) : t.words.length = DIM + 2 := by
  simp [words]

/-- Each word has eight bytes. -/
theorem length_of_mem_words {t : Row UInt64 DIM} {w : List UInt8} (hw : w ∈ t.words) :
    w.length = 8 := by
  rcases List.mem_append.mp hw with hw | hw
  · obtain ⟨i, -, rfl⟩ := List.mem_map.mp hw
    exact length_bytesOfDouble _
  · rcases List.mem_pair.mp hw with rfl | rfl
    · exact length_bytesOfDouble _
    · exact length_bytesOfDouble _

/-- The bytes of a tuple are as many as `getSize` says. -/
theorem length_serialize (t : Row UInt64 DIM) : t.serialize.length = getSize DIM := by
  rw [serialize_eq, Framing.length_flatten fun _ => length_of_mem_words, length_words, getSize]

/-- The double at a given place. -/
theorem readDouble_serialize (t : Row UInt64 DIM) {i : Nat} (hi : i < t.words.length) :
    readDouble t.serialize (8 * i) = doubleOfBytes t.words[i] := by
  rw [readDouble, serialize_eq, Framing.take_drop_flatten (fun _ => length_of_mem_words) hi]

/-- **A serialized tuple is read back bit by bit.** -/
theorem createRegular_serialize (t : Row UInt64 DIM) : createRegular t.serialize = t := by
  have hlen := t.length_words
  -- each field is read from its own word
  refine Row.ext (funext fun i => ?_) ?_ ?_
  · show readDouble t.serialize (8 * i.val) = t.d i
    have hi : i.val < t.words.length := by omega
    have hget : t.words[i.val] = bytesOfDouble (t.d i) := by
      simp [words]
    rw [readDouble_serialize t hi, hget, doubleOfBytes_bytesOfDouble]
  · show readDouble t.serialize (8 * DIM) = t.appTs
    have hi : DIM < t.words.length := by omega
    have hget : t.words[DIM] = bytesOfDouble t.appTs := by
      simp [words]
    rw [readDouble_serialize t hi, hget, doubleOfBytes_bytesOfDouble]
  · show readDouble t.serialize (8 * (DIM + 1)) = t.genTs
    have hi : DIM + 1 < t.words.length := by omega
    have hget : t.words[DIM + 1] = bytesOfDouble t.genTs := by
      simp [words]
    rw [readDouble_serialize t hi, hget, doubleOfBytes_bytesOfDouble]

end Row

end ElasticPPQ
