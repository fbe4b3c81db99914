import Mathlib.Algebra.BigOperators.Group.Multiset.Basic
import Mathlib.Data.Multiset.Bind

/-! # How a value has been folded together

Values of a type with a start value and a binary operation are combined in some order and grouping.
A `FoldTree` records which of them, and how; nothing is assumed of the operation. -/

namespace ElasticPPQ

/-- Which indexed values have been combined, and how. -/
inductive FoldTree (ι : Type*)
  /-- The start value. -/
  | new
  /-- The value with index `i`. -/
  | leaf (i : ι)
  /-- Two values combined. -/
  | add (l r : FoldTree ι)

namespace FoldTree

variable {ι α β : Type*}

/-- The indices, as often as they occur. -/
def leaves : FoldTree ι → Multiset ι
  | new => 0
  | leaf i => {i}
  | add l r => l.leaves + r.leaves

/-- The value combined. -/
def eval (new : α) (add : α → α → α) (f : ι → α) : FoldTree ι → α
  | .new => new
  | .leaf i => f i
  | .add l r => add (l.eval new add f) (r.eval new add f)

/-- Only the values of the leaves matter. -/
theorem eval_congr (new : α) (add : α → α → α) {f g : ι → α} :
    {t : FoldTree ι} → (∀ i ∈ t.leaves, f i = g i) → t.eval new add f = t.eval new add g
  | .new, _ => rfl
  | .leaf i, h => h i (Multiset.mem_singleton_self i)
  | .add l r, h => by
      rw [eval, eval, eval_congr new add fun i hi => h i (Multiset.mem_add.mpr (Or.inl hi)),
        eval_congr new add fun i hi => h i (Multiset.mem_add.mpr (Or.inr hi))]

/-- A map that respects the operations. -/
theorem map_eval {new : α} {add : α → α → α} {new' : β} {add' : β → β → β} {g : α → β}
    (hnew : g new = new') (hadd : ∀ a b, g (add a b) = add' (g a) (g b)) (f : ι → α)
    (t : FoldTree ι) : g (t.eval new add f) = t.eval new' add' fun i => g (f i) := by
  induction t with
  | new => exact hnew
  | leaf i => rfl
  | add l r ihl ihr => rw [eval, hadd, ihl, ihr, eval]

/-- A measure into a commutative monoid that turns the operation into a sum is the sum over the
leaves. -/
theorem eval_eq_sum [AddCommMonoid β] {new : α} {add : α → α → α} {g : α → β} (hnew : g new = 0)
    (hadd : ∀ a b, g (add a b) = g a + g b) (f : ι → α) (t : FoldTree ι) :
    g (t.eval new add f) = (t.leaves.map fun i => g (f i)).sum := by
  induction t with
  | new => rw [eval, hnew, leaves, Multiset.map_zero, Multiset.sum_zero]
  | leaf i => rw [eval, leaves, Multiset.map_singleton, Multiset.sum_singleton]
  | add l r ihl ihr => rw [eval, hadd, ihl, ihr, leaves, Multiset.map_add, Multiset.sum_add]

/-- Where the leaves are the places of the elements of a list that satisfy `P`, each once, the sum is
over those elements. -/
theorem sum_leaves_filter [AddCommMonoid β] {l : List α} {P : α → Prop} [DecidablePred P]
    {L : Multiset Nat} (hnodup : L.Nodup) (hmem : ∀ i, i ∈ L ↔ ∃ r, l[i]? = some r ∧ P r)
    {f : Nat → β} {g : α → β} (hf : ∀ i r, l[i]? = some r → f i = g r) :
    (L.map f).sum = ((l.filter fun r => P r).map g).sum := by
  induction l using List.reverseRecOn generalizing L with
  | nil =>
      have hzero : L = 0 := Multiset.eq_zero_of_forall_notMem fun i hi => by
        obtain ⟨r, hr, -⟩ := (hmem i).mp hi
        cases hr
      rw [hzero]
      rfl
  | append_singleton l x ih =>
      have hlast : (l ++ [x])[l.length]? = some x := List.getElem?_concat_length
      have hlt : ∀ i r, l[i]? = some r → (l ++ [x])[i]? = some r := fun i r hr => by
        rw [List.getElem?_append_left (List.getElem?_eq_some_iff.mp hr).1, hr]
      have hsplit : ∀ i, (∃ r, (l ++ [x])[i]? = some r ∧ P r) ↔
          (∃ r, l[i]? = some r ∧ P r) ∨ i = l.length ∧ P x := by
        intro i
        constructor
        · rintro ⟨r, hr, hP⟩
          rcases Nat.lt_trichotomy i l.length with hi | rfl | hi
          · rw [List.getElem?_append_left hi] at hr
            exact Or.inl ⟨r, hr, hP⟩
          · rw [hlast] at hr
            exact Or.inr ⟨rfl, Option.some.inj hr ▸ hP⟩
          · rw [List.getElem?_eq_none (by rw [List.length_append]; exact hi)] at hr
            cases hr
        · rintro (⟨r, hr, hP⟩ | ⟨rfl, hP⟩)
          · exact ⟨r, hlt i r hr, hP⟩
          · exact ⟨x, hlast, hP⟩
      have hf' : ∀ i r, l[i]? = some r → f i = g r := fun i r hr => hf i r (hlt i r hr)
      have hno : ∀ r, l[l.length]? ≠ some r := fun r hr => by
        rw [List.getElem?_eq_none le_rfl] at hr
        cases hr
      rw [List.filter_append, List.map_append, List.sum_append]
      by_cases hP : P x
      · -- the last place is one of the leaves
        obtain ⟨L', rfl⟩ := Multiset.exists_cons_of_mem
          ((hmem l.length).mpr ⟨x, hlast, hP⟩)
        obtain ⟨hnot, hnodup'⟩ := Multiset.nodup_cons.mp hnodup
        have hmem' : ∀ i, i ∈ L' ↔ ∃ r, l[i]? = some r ∧ P r := by
          intro i
          have hi := (hmem i).trans (hsplit i)
          rw [Multiset.mem_cons] at hi
          constructor
          · intro hL
            rcases hi.mp (Or.inr hL) with h | ⟨rfl, -⟩
            · exact h
            · exact absurd hL hnot
          · intro h
            rcases hi.mpr (Or.inl h) with rfl | hL
            · obtain ⟨r, hr, -⟩ := h
              exact absurd hr (hno r)
            · exact hL
        rw [Multiset.map_cons, Multiset.sum_cons, ih hnodup' hmem' hf', hf _ _ hlast,
          List.filter_cons_of_pos (by simpa using hP)]
        simp [add_comm]
      · have hmem' : ∀ i, i ∈ L ↔ ∃ r, l[i]? = some r ∧ P r := by
          intro i
          rw [hmem i, hsplit i]
          exact ⟨fun h => h.resolve_right fun hx => hP hx.2, Or.inl⟩
        rw [ih hnodup hmem' hf', List.filter_cons_of_neg (by simpa using hP)]
        simp

end FoldTree

end ElasticPPQ
