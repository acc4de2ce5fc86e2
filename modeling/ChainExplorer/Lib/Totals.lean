import ChainExplorer.Lib.Ledger
import Mathlib.Algebra.BigOperators.Ring.Finset

/-!
# The totals of a ledger

What the accounts of a set come to together, by their postings and by a table that holds them.

* **`sum_balanceOf`**: the balances of a set of accounts are the sum of its postings.
* **`Keyed.total_eq_sum`**: a sum over the rows is one over any set of keys that has them all.
* **`Holds.total_eq`**, `Holds.total_holding`: the rows of a group of accounts add up to its balances.
-/

theorem Keyed.total_eq_sum {κ υ : Type} [DecidableEq κ] (f : κ → υ → ℤ) (t : Keyed κ υ) {S : Finset κ}
    (hS : ∀ k ∈ t, k ∈ S) : t.total f = ∑ k ∈ S, (t.lookup k).elim 0 (f k) := by
  have hrows : t.total f = (t.keys.map fun k => (t.lookup k).elim 0 (f k)).sum := by
    rw [total, AList.keys, List.keys, List.map_map]
    refine congrArg List.sum (List.map_congr_left fun e he => ?_)
    show f e.1 e.2 = (t.lookup e.1).elim 0 (f e.1)
    rw [mem_entries_iff.mp he, Option.elim_some]
  rw [hrows, ← List.sum_toFinset _ t.keys_nodup]
  refine Finset.sum_subset (fun k hk => hS k (AList.mem_keys.mpr (List.mem_toFinset.mp hk))) ?_
  intro k _ hk
  have hnone : t.lookup k = none :=
    AList.lookup_eq_none.mpr fun hmem => hk (List.mem_toFinset.mpr (AList.mem_keys.mp hmem))
  rw [hnone, Option.elim_none]

namespace Ledger

variable {A : Type} [DecidableEq A]

theorem sum_balanceOf (j : List (A × ℤ)) (S : Finset A) :
    ∑ a ∈ S, balanceOf j a = ((j.filter fun p => p.1 ∈ S).map Prod.snd).sum := by
  induction j with
  | nil => simp
  | cons p j ih =>
    simp only [balanceOf_cons, Pi.add_apply, Finset.sum_add_distrib, ih, Pi.single_apply,
      List.filter_cons]
    by_cases hp : p.1 ∈ S
    · simp [hp, add_comm]
    · simp [hp]

theorem Holds.total_eq {t : Keyed A String} {b : A → ℤ} (h : Holds t b) (p : A → Prop)
    [DecidablePred p] {g : ℤ → ℤ} (hg : g 0 = 0) {S : Finset A} (hS : ∀ a, b a ≠ 0 → a ∈ S) :
    (t.total fun a s => if p a then g (read s) else 0) = ∑ a ∈ S with p a, g (b a) := by
  have hkeys : ∀ a ∈ t, a ∈ S := by
    intro a ha
    refine hS a fun hzero => ?_
    have hnone : t.lookup a = none := by rw [h a, rowOf, if_pos hzero]
    exact absurd ha (AList.lookup_eq_none.mp hnone)
  rw [Keyed.total_eq_sum _ t hkeys, Finset.sum_filter]
  refine Finset.sum_congr rfl fun a _ => ?_
  rw [h a, rowOf]
  by_cases hzero : b a = 0
  · simp [hzero, hg]
  · rw [if_neg hzero, Option.elim_some, read_toString]

/-- The rows that are holdings add up to the balances above zero. -/
theorem Holds.total_holding {t : Keyed A String} {b : A → ℤ} (h : Holds t b) (p : A → Prop)
    [DecidablePred p] {S : Finset A} (hS : ∀ a, b a ≠ 0 → a ∈ S) :
    (t.total fun a s => if p a ∧ holding s then read s else 0) = ∑ a ∈ S with p a, max 0 (b a) := by
  rw [← h.total_eq p (max_self 0) hS]
  unfold Keyed.total
  refine congrArg List.sum (List.map_congr_left fun e he => ?_)
  have hrow := Keyed.mem_entries_iff.mp he
  rw [h e.1, rowOf] at hrow
  by_cases hzero : b e.1 = 0
  · simp [hzero] at hrow
  · rw [if_neg hzero] at hrow
    rw [← Option.some.inj hrow]
    simp only [read_toString, holding_toString hzero, decide_eq_true_eq]
    by_cases hp : p e.1 <;> by_cases hpos : 0 < b e.1 <;> simp [hp, hpos] <;> omega

end Ledger
