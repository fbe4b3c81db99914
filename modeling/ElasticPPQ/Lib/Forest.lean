import Mathlib.Data.List.Basic

/-! # Forests

A tree is given by a relation: `holds v xs n` says that `xs` are the items stored beneath the node `v`
and `n` is the number of nodes there, `v` included. The items beneath the nodes of a list are those of
a forest. A search that keeps the nodes it still has to visit in a list knows with it what it has not
seen yet, and how much longer it may take. -/

namespace ElasticPPQ

variable {ν β : Type*} {holds : ν → List β → Nat → Prop}

/-- The items beneath the nodes of a list, and the number of nodes there. -/
inductive Forest (holds : ν → List β → Nat → Prop) : List ν → List β → Nat → Prop
  | nil : Forest holds [] [] 0
  | cons {v : ν} {vs : List ν} {xs ys : List β} {m n : Nat} :
      holds v xs m → Forest holds vs ys n → Forest holds (v :: vs) (xs ++ ys) (m + n)

namespace Forest

/-- One tree is a forest. -/
theorem singleton {v : ν} {xs : List β} {n : Nat} (h : holds v xs n) :
    Forest holds [v] xs n := by
  have hone := Forest.cons h Forest.nil
  rwa [List.append_nil, Nat.add_zero] at hone

/-- The nodes of a second list come behind those of a first one. -/
theorem append {vs ws : List ν} {xs ys : List β} {m n : Nat} (h : Forest holds vs xs m)
    (h' : Forest holds ws ys n) : Forest holds (vs ++ ws) (xs ++ ys) (m + n) := by
  induction h with
  | nil =>
      rw [Nat.zero_add]
      exact h'
  | cons hv _ ih =>
      rw [List.cons_append, List.append_assoc, Nat.add_assoc]
      exact .cons hv ih

/-- There is nothing beneath no nodes. -/
theorem eq_nil {xs : List β} {n : Nat} (h : Forest holds [] xs n) : xs = [] := by
  cases h
  rfl

end Forest

end ElasticPPQ
