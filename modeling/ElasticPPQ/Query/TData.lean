import ElasticPPQ.Rset
import Mathlib.Data.Fin.VecNotation
import Mathlib.Data.Fintype.Basic
import Mathlib.Tactic.FinCases

/-! # The container of tuples

The class `TData` (`queries.hpp`): the tuples of a results set stored by columns, one vector for each
coordinate and two for the timestamps. The columns of a container always have the same length. What
the container holds is the list of its rows (`TData.rows`); each operation on the columns is one on
that list. Doubles are elements of a linear order, and the number of coordinates is `DIM`. -/

namespace ElasticPPQ

variable {α : Type} {DIM : Nat}

namespace Row

/-- The values of a tuple in the order of the columns: coordinates, `app_ts`, `gen_ts`. -/
def cols (r : Row α DIM) : Fin (DIM + 2) → α := Fin.append r.d ![r.appTs, r.genTs]

/-- The tuple with these values. -/
def ofCols (f : Fin (DIM + 2) → α) : Row α DIM where
  d := fun i => f (Fin.castAdd 2 i)
  appTs := f (Fin.natAdd DIM 0)
  genTs := f (Fin.natAdd DIM 1)

/-- A row is read back from its columns. -/
@[simp] theorem ofCols_cols (r : Row α DIM) : ofCols r.cols = r := by
  simp [ofCols, cols]

/-- Columns are read back from their row. -/
@[simp] theorem cols_ofCols (f : Fin (DIM + 2) → α) : (ofCols f).cols = f := by
  funext c
  refine Fin.addCases (fun d => ?_) (fun d => ?_) c
  · rw [cols, Fin.append_left]
    rfl
  · rw [cols, Fin.append_right]
    fin_cases d <;> rfl

end Row

/-- The container: `size` is `last_idx + 1`. -/
structure TData (α : Type) (DIM : Nat) where
  /-- Number of tuples. -/
  size : Nat
  /-- The columns. -/
  vDim : Fin (DIM + 2) → List α
  /-- The columns have the same length. -/
  length_vDim : ∀ c, (vDim c).length = size

namespace TData

/-- The constructor. -/
def new (α : Type) (DIM : Nat) : TData α DIM := ⟨0, fun _ => [], fun _ => rfl⟩

/-- Index of the last valid tuple (`-1` if the container is empty). -/
def lastIdx (s : TData α DIM) : Int := s.size - 1

/-- The tuple at index `i`, read column by column. -/
def row (s : TData α DIM) (i : Fin s.size) : Row α DIM :=
  Row.ofCols fun c => (s.vDim c).get (i.cast (s.length_vDim c).symm)

/-- The tuples of the container. -/
def rows (s : TData α DIM) : List (Row α DIM) := List.ofFn s.row

/-- `append`: a tuple is added at the end of the container. -/
def append (s : TData α DIM) (t : Row α DIM) : TData α DIM where
  size := s.size + 1
  vDim := fun c => s.vDim c ++ [t.cols c]
  length_vDim := fun c => by rw [List.length_append, s.length_vDim]; rfl

/-- `removeFromIndex`: the tuples from position `pos` on are removed. -/
def removeFromIndex (pos : Nat) (s : TData α DIM) : TData α DIM :=
  if h : s.size ≤ pos then s
  -- just the last tuple
  else if hlast : pos + 1 = s.size then
    { size := pos
      vDim := fun c => (s.vDim c).dropLast
      length_vDim := fun c => by rw [List.length_dropLast, s.length_vDim]; omega }
  else
    { size := pos
      vDim := fun c => (s.vDim c).take pos
      length_vDim := fun c => by rw [List.length_take, s.length_vDim]; omega }

/-- The tuple at index `j` is copied to index `i`. -/
def copyRow (i j : Nat) (s : TData α DIM) : TData α DIM where
  size := s.size
  -- a row that does not exist is not copied
  vDim := fun c => (s.vDim c)[j]?.elim (s.vDim c) ((s.vDim c).set i)
  length_vDim := fun c => by
    cases (s.vDim c)[j]? with
    | none => exact s.length_vDim c
    | some x => exact (List.length_set).trans (s.length_vDim c)

/-- As many rows as the container says. -/
@[simp] theorem length_rows (s : TData α DIM) : s.rows.length = s.size := List.length_ofFn

/-- A new container is empty. -/
@[simp] theorem rows_new : (new α DIM).rows = [] := rfl

/-- A column holds that value of every tuple. -/
theorem vDim_eq (s : TData α DIM) (c : Fin (DIM + 2)) : s.vDim c = s.rows.map fun r => r.cols c := by
  refine List.ext_getElem (by rw [List.length_map, length_rows, s.length_vDim]) fun i hi hi' => ?_
  rw [List.getElem_map]
  simp only [rows, List.getElem_ofFn, row, Row.cols_ofCols]
  rfl

/-- The tuples of a container are determined by its columns. -/
theorem rows_eq {s : TData α DIM} {l : List (Row α DIM)}
    (h : ∀ c, s.vDim c = l.map fun r => r.cols c) : s.rows = l := by
  have hlen : s.size = l.length := by
    rw [← s.length_vDim (Fin.natAdd DIM 0), h, List.length_map]
  refine List.ext_getElem (by rw [length_rows, hlen]) fun i hi hi' => ?_
  have hget : (rows s)[i] = Row.ofCols (l[i]).cols := by
    simp only [rows, List.getElem_ofFn, row]
    congr 1
    funext c
    simp [h]
  rw [hget, Row.ofCols_cols]

/-- An appended row comes last. -/
@[simp] theorem rows_append (s : TData α DIM) (t : Row α DIM) :
    (s.append t).rows = s.rows ++ [t] := by
  refine rows_eq fun c => ?_
  show s.vDim c ++ [t.cols c] = _
  rw [vDim_eq, List.map_append]
  rfl

/-- A removal cuts the container. -/
theorem rows_removeFromIndex {s : TData α DIM} {pos : Nat} :
    (s.removeFromIndex pos).rows = s.rows.take pos := by
  unfold removeFromIndex
  -- `pos` is past the end, is the last row, or is a row before it
  split
  · rename_i h
    rw [List.take_of_length_le (by rwa [length_rows])]
  · split
    · rename_i h hlast
      refine rows_eq fun c => ?_
      show (s.vDim c).dropLast = _
      rw [vDim_eq, List.map_take, List.dropLast_eq_take, List.length_map, length_rows, ← hlast,
        Nat.add_sub_cancel]
    · refine rows_eq fun c => ?_
      show (s.vDim c).take pos = _
      rw [vDim_eq, List.map_take]

/-- A copied row replaces another one. -/
theorem rows_copyRow (s : TData α DIM) (i : Nat) {j : Nat} (hj : j < s.rows.length) :
    (s.copyRow i j).rows = s.rows.set i s.rows[j] := by
  refine rows_eq fun c => ?_
  show (s.vDim c)[j]?.elim (s.vDim c) ((s.vDim c).set i) = _
  rw [vDim_eq, List.getElem?_map, List.getElem?_eq_getElem hj, List.map_set]
  rfl

/-- One tuple takes the place of another. -/
theorem rows_copyRow_of_eq {s : TData α DIM} {A B A' B' : List (Row α DIM)} {o e : Row α DIM}
    (ho : s.rows = A ++ o :: B) (he : s.rows = A' ++ e :: B') :
    (s.copyRow A.length A'.length).rows = A ++ e :: B := by
  have hlt : A'.length < s.rows.length := by
    rw [he, List.length_append, List.length_cons]
    omega
  have hget : s.rows[A'.length] = e := by
    simp [he]
  rw [rows_copyRow s _ hlt, hget, ho]
  simp

/-- The last tuple before `J` takes the place of `e`, and the tuples `W` between stay. -/
theorem rows_copyLast {s : TData α DIM} {B W J : List (Row α DIM)} {e : Row α DIM}
    (h : s.rows = B ++ e :: (W ++ J)) :
    ∃ W' J', W'.Perm W ∧ (s.copyRow B.length (B.length + W.length)).rows = B ++ W' ++ J' := by
  -- with no new rows the place is filled by the removed row itself
  rcases List.eq_nil_or_concat W with rfl | ⟨W', w, rfl⟩
  · refine ⟨[], e :: J, List.Perm.refl _, ?_⟩
    rw [List.length_nil, Nat.add_zero, rows_copyRow_of_eq h h]
    simp
  · rw [List.concat_eq_append] at h ⊢
    refine ⟨w :: W', w :: J, (List.perm_append_singleton w W').symm, ?_⟩
    have hw : s.rows = (B ++ e :: W') ++ w :: J := by rw [h]; simp
    have hcopy := rows_copyRow_of_eq h hw
    have hlen : (B ++ e :: W').length = B.length + (W' ++ [w]).length := by simp
    rw [hlen] at hcopy
    rw [hcopy]
    simp

end TData

end ElasticPPQ
