import ElasticPPQ.Query.Dominance
import Mathlib.Data.Rat.Floor

/-! # The points of the skyline checker

The structure `SkyPoint` (`skyline_checker.cpp`) and the regions of the spatial index. Dominance is
decided on coordinates converted to `int`, so the tool works for integer coordinates only: for those
in the range of `int` it decides dominance between tuples. A conversion that overflows is undefined;
what it gives is a parameter `u` of the model. -/

namespace ElasticPPQ

variable {DIM : Nat}

/-! ## Conversion to `int` -/

/-- The integer part of a number. -/
def truncate (c : ℚ) : Int := if 0 ≤ c then ⌊c⌋ else ⌈c⌉

/-- The conversion of a `double` to an `int`. -/
def toInt (u : ℚ → Int) (c : ℚ) : Int :=
  if -2147483648 ≤ truncate c ∧ truncate c ≤ 2147483647 then truncate c else u c

/-- A number is an integer in the range of `int`. -/
def IsInt (c : ℚ) : Prop := ∃ n : Int, c = n ∧ -2147483648 ≤ n ∧ n ≤ 2147483647

/-- An integer is its own integer part. -/
theorem truncate_intCast (n : Int) : truncate n = n := by
  unfold truncate
  split
  · exact Int.floor_intCast n
  · exact Int.ceil_intCast n

/-- The conversion is exact on the integers in the range. -/
theorem toInt_eq {c : ℚ} (h : IsInt c) (u : ℚ → Int) : (toInt u c : ℚ) = c := by
  obtain ⟨n, rfl, hlow, hhigh⟩ := h
  rw [toInt, truncate_intCast, if_pos ⟨hlow, hhigh⟩]

/-! ## Points and regions -/

/-- A region of the spatial index, given by its low and its high corner. -/
structure Region (DIM : Nat) where
  /-- `m_pLow` -/
  pLow : Fin DIM → ℚ
  /-- `m_pHigh` -/
  pHigh : Fin DIM → ℚ

instance decidableEqRow : DecidableEq (Row ℚ DIM) := fun _ _ => decidable_of_iff _ Row.ext_iff.symm

/-- A point: its address, which is its identifier in the index, and the tuple in it. -/
structure SkyPoint (DIM : Nat) where
  addr : Nat
  t : Row ℚ DIM
  deriving DecidableEq

/-- The direction of a comparison. -/
inductive Relation where
  | dominates
  | isDominated
  deriving DecidableEq

/-- The corner of a region. -/
inductive Corner where
  | maxCorner
  | minCorner
  deriving DecidableEq

namespace SkyPoint

/-- The region of a point, which has only one corner. -/
def pRegion (x : SkyPoint DIM) : Region DIM := ⟨x.t.d, x.t.d⟩

/-- The loop of `dominance` over the dimensions. -/
def dominanceLoop (a b : Fin DIM → Int) : List (Fin DIM) → Bool → Bool
  | [], sless => sless
  | i :: is, sless =>
      if b i < a i then false else dominanceLoop a b is (if a i < b i then true else sless)

/-- `dominance(const double *, int)`. -/
def dominance (u : ℚ → Int) (x : SkyPoint DIM) (pcoords : Fin DIM → ℚ) (relation : Relation) :
    Bool :=
  dominanceLoop
    (fun i => toInt u (if relation = .isDominated then pcoords i else x.t.d i))
    (fun i => toInt u (if relation = .isDominated then x.t.d i else pcoords i))
    (List.finRange DIM) false

/-- `dominance(const SkyPoint &, int)`. -/
def dominancePoint (u : ℚ → Int) (x other : SkyPoint DIM) (relation : Relation) : Bool :=
  x.dominance u other.t.d relation

/-- `dominance(const Region &, int, int)`. -/
def dominanceRegion (u : ℚ → Int) (x : SkyPoint DIM) (other : Region DIM) (relation : Relation)
    (what : Corner) : Bool :=
  x.dominance u (if what = .minCorner then other.pLow else other.pHigh) relation

/-! ## What the comparisons decide -/

/-- What the loop over the coordinates returns: no coordinate is greater, and one is smaller, here or
before. -/
theorem dominanceLoop_iff (a b : Fin DIM → Int) (is : List (Fin DIM)) (sless : Bool) :
    dominanceLoop a b is sless = true ↔
      (∀ i ∈ is, a i ≤ b i) ∧ (sless = true ∨ ∃ i ∈ is, a i < b i) := by
  induction is generalizing sless with
  | nil => simp [dominanceLoop]
  | cons i is ih =>
      rw [dominanceLoop]
      by_cases hgt : b i < a i
      -- a greater coordinate: the loop returns false at once
      · rw [if_pos hgt]
        refine iff_of_false (by decide) ?_
        rintro ⟨hall, -⟩
        exact absurd (hall i List.mem_cons_self) (not_le.mpr hgt)
      · rw [if_neg hgt, ih]
        have hle := not_lt.mp hgt
        -- a smaller one is remembered in `sless`, an equal one changes nothing
        by_cases hlt : a i < b i
        · simp [hlt, hle]
        · simp [hlt, hle]

/-- Coordinates that are integers in the range of `int`. -/
def IntCoords (c : Fin DIM → ℚ) : Prop := ∀ i, IsInt (c i)

/-- **The comparison is that of the coordinates**: at most as great in every dimension and less in
one. -/
theorem dominance_iff {x : SkyPoint DIM} {c : Fin DIM → ℚ} (hx : IntCoords x.t.d) (hc : IntCoords c)
    (u : ℚ → Int) :
    (x.dominance u c .dominates = true ↔ x.t.d < c) ∧
      (x.dominance u c .isDominated = true ↔ c < x.t.d) := by
  have hcast : ∀ {a b : Fin DIM → ℚ}, IntCoords a → IntCoords b →
      (dominanceLoop (fun i => toInt u (a i)) (fun i => toInt u (b i)) (List.finRange DIM) false
        = true ↔ a < b) := by
    intro a b ha hb
    -- the casts to `int` are exact here, so they keep the order of the coordinates
    have hle : ∀ i, toInt u (a i) ≤ toInt u (b i) ↔ a i ≤ b i := fun i => by
      rw [← Int.cast_le (R := ℚ), toInt_eq (ha i), toInt_eq (hb i)]
    have hlt : ∀ i, toInt u (a i) < toInt u (b i) ↔ a i < b i := fun i => by
      rw [← Int.cast_lt (R := ℚ), toInt_eq (ha i), toInt_eq (hb i)]
    rw [dominanceLoop_iff, Pi.lt_def]
    simp only [List.mem_finRange, true_implies, true_and, hle, hlt, Bool.false_eq_true, false_or]
    rfl
  exact ⟨hcast hx hc, hcast hc hx⟩

/-- Comparing two points decides which one dominates the other. -/
theorem dominancePoint_iff {x p : SkyPoint DIM} (hx : IntCoords x.t.d) (hp : IntCoords p.t.d)
    (u : ℚ → Int) :
    (x.dominancePoint u p .dominates = true ↔ x.t.Dominates p.t) ∧
      (x.dominancePoint u p .isDominated = true ↔ p.t.Dominates x.t) := by
  rw [Row.dominates_iff_lt, Row.dominates_iff_lt]
  exact dominance_iff hx hp u

end SkyPoint

namespace Region

/-- The region contains a point. -/
def Contains (r : Region DIM) (p : SkyPoint DIM) : Prop := r.pLow ≤ p.t.d ∧ p.t.d ≤ r.pHigh

/-- The corners have integer coordinates in the range of `int`. -/
def IntCorners (r : Region DIM) : Prop := SkyPoint.IntCoords r.pLow ∧ SkyPoint.IntCoords r.pHigh

variable {r : Region DIM} {x p : SkyPoint DIM}

/-- A point that dominates a point of the region dominates its high corner. -/
theorem Contains.lt_high (h : r.Contains p) (hdom : x.t.Dominates p.t) : x.t.d < r.pHigh :=
  (Row.dominates_iff_lt.mp hdom).trans_le h.2

/-- A point that a point of the region dominates is dominated by its low corner. -/
theorem Contains.low_lt (h : r.Contains p) (hdom : p.t.Dominates x.t) : r.pLow < x.t.d :=
  h.1.trans_lt (Row.dominates_iff_lt.mp hdom)

/-- A point that the high corner dominates is dominated by every point of the region. -/
theorem Contains.dominates (h : r.Contains p) (hlt : r.pHigh < x.t.d) : p.t.Dominates x.t :=
  Row.dominates_iff_lt.mpr (h.2.trans_lt hlt)

end Region

end ElasticPPQ
