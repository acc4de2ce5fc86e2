import ChainExplorer.Lib.Collect

/-!
# Searching by halves

* `bisect p lo hi`: the first number a test fails at, by halving what is left.
* `partitionPoint p l`: how many of a list pass a test that those in front pass.
* `cut? l first past`: a range of a list, where it is one.
* **`cut?_partitionPoint`**: between the partition points of a key are all that have it, in order.
-/

namespace Bisect

/-- The first number from `lo` on that a test fails at, `hi` if there is none before it. -/
def bisect (p : ℕ → Bool) (lo hi : ℕ) : ℕ :=
  if lo < hi then
    let mid := lo + (hi - lo) / 2
    if p mid then bisect p (mid + 1) hi else bisect p lo mid
  else lo
termination_by hi - lo

theorem bisect_eq {p : ℕ → Bool} {k lo hi : ℕ} (hlo : lo ≤ k) (hhi : k ≤ hi)
    (hpass : ∀ i < k, p i = true) (hfail : ∀ i < hi, k ≤ i → p i = false) :
    bisect p lo hi = k := by
  induction lo, hi using bisect.induct p with
  | case1 lo hi hlt mid hmid ih =>
    have hbelow : mid < k := by
      by_contra hle
      have hhalf : mid < hi := by
        show lo + (hi - lo) / 2 < hi
        omega
      rw [hfail mid hhalf (not_lt.mp hle)] at hmid
      exact absurd hmid Bool.false_ne_true
    rw [bisect, if_pos hlt]
    simp only [mid] at hmid ih hbelow ⊢
    rw [if_pos hmid]
    exact ih hbelow hhi hfail
  | case2 lo hi hlt mid hmid ih =>
    have habove : k ≤ mid := by
      by_contra hle
      exact hmid (hpass mid (not_le.mp hle))
    have hhalf : mid < hi := by
      show lo + (hi - lo) / 2 < hi
      omega
    rw [bisect, if_pos hlt]
    simp only [mid] at hmid ih habove hhalf ⊢
    rw [if_neg hmid]
    exact ih hlo habove fun i hi' => hfail i (hi'.trans hhalf)
  | case3 lo hi hge =>
    rw [bisect, if_neg hge]
    omega

variable {α κ : Type*}

/-- `partition_point`: how many of a list pass a test that those in front pass. -/
def partitionPoint (p : α → Bool) (l : List α) : ℕ := bisect (fun i => (l[i]?).any p) 0 l.length

theorem partitionPoint_append {p : α → Bool} {xs ys : List α} (hxs : ∀ a ∈ xs, p a = true)
    (hys : ∀ a ∈ ys, p a = false) : partitionPoint p (xs ++ ys) = xs.length := by
  refine bisect_eq (Nat.zero_le _) (by simp) ?_ ?_
  · intro i hi
    rw [List.getElem?_append_left hi, List.getElem?_eq_getElem hi, Option.any_some]
    exact hxs _ (List.getElem_mem hi)
  · intro i hi hle
    rw [List.length_append] at hi
    have hlt : i - xs.length < ys.length := by omega
    rw [List.getElem?_append_right hle, List.getElem?_eq_getElem hlt, Option.any_some]
    exact hys _ (List.getElem_mem hlt)

/-- `l[first..past]`; there is none where it starts behind its end or ends behind the list. -/
def cut? (l : List α) (first past : ℕ) : Option (List α) :=
  if first ≤ past ∧ past ≤ l.length then some ((l.take past).drop first) else none

theorem cut?_append (xs ys zs : List α) :
    cut? (xs ++ (ys ++ zs)) xs.length (xs ++ ys).length = some ys := by
  have hrange : xs.length ≤ (xs ++ ys).length ∧ (xs ++ ys).length ≤ (xs ++ (ys ++ zs)).length := by
    simp only [List.length_append]
    omega
  rw [cut?, if_pos hrange, ← List.append_assoc, List.take_left, List.drop_left]

section Order

variable [LinearOrder κ] {key : α → κ}

theorem parted {l : List α} (h : l.Pairwise fun a b => key a ≤ key b) (k : κ) :
    ∃ xs ys zs, l = xs ++ (ys ++ zs) ∧ (∀ a ∈ xs, key a < k) ∧ (∀ a ∈ ys, key a = k) ∧
      ∀ a ∈ zs, k < key a := by
  induction l with
  | nil => exact ⟨[], [], [], rfl, by simp, by simp, by simp⟩
  | cons a l ih =>
    obtain ⟨hle, hrest⟩ := List.pairwise_cons.mp h
    obtain ⟨xs, ys, zs, rfl, hxs, hys, hzs⟩ := ih hrest
    rcases lt_trichotomy (key a) k with hlt | heq | hgt
    · exact ⟨a :: xs, ys, zs, rfl, List.forall_mem_cons.mpr ⟨hlt, hxs⟩, hys, hzs⟩
    · -- What follows `a` has a key as great, so none of it is in front.
      have hnil : xs = [] := by
        refine List.eq_nil_iff_forall_not_mem.mpr fun b hb => ?_
        exact absurd (hxs b hb) (not_lt.mpr (heq ▸ hle b (List.mem_append_left _ hb)))
      subst hnil
      exact ⟨[], a :: ys, zs, rfl, by simp, List.forall_mem_cons.mpr ⟨heq, hys⟩, hzs⟩
    · have hnone : ∀ b ∈ xs ++ (ys ++ zs), k < key b := fun b hb => hgt.trans_le (hle b hb)
      exact ⟨[], [], a :: (xs ++ (ys ++ zs)), rfl, by simp, by simp,
        List.forall_mem_cons.mpr ⟨hgt, hnone⟩⟩

/-- **Between the partition points of a key** are all that have it, in order. -/
theorem cut?_partitionPoint {l : List α} (h : l.Pairwise fun a b => key a ≤ key b) (k : κ) :
    cut? l (partitionPoint (fun a => key a < k) l) (partitionPoint (fun a => key a ≤ k) l) =
      some (l.filter fun a => key a = k) := by
  obtain ⟨xs, ys, zs, rfl, hxs, hys, hzs⟩ := parted h k
  have hfirst : partitionPoint (fun a => key a < k) (xs ++ (ys ++ zs)) = xs.length := by
    refine partitionPoint_append (fun a ha => decide_eq_true (hxs a ha)) fun a ha => ?_
    refine decide_eq_false (not_lt.mpr ?_)
    rcases List.mem_append.mp ha with ha | ha
    · exact (hys a ha).ge
    · exact (hzs a ha).le
  have hpast : partitionPoint (fun a => key a ≤ k) (xs ++ (ys ++ zs)) = (xs ++ ys).length := by
    rw [← List.append_assoc]
    refine partitionPoint_append (fun a ha => ?_) fun a ha => decide_eq_false (hzs a ha).not_ge
    rcases List.mem_append.mp ha with ha | ha
    · exact decide_eq_true (hxs a ha).le
    · exact decide_eq_true (hys a ha).le
  have hbefore : xs.filter (fun a => key a = k) = [] :=
    List.filter_eq_nil_iff.mpr fun a ha => by simpa using (hxs a ha).ne
  have hmiddle : ys.filter (fun a => key a = k) = ys :=
    List.filter_eq_self.mpr fun a ha => decide_eq_true (hys a ha)
  have hafter : zs.filter (fun a => key a = k) = [] :=
    List.filter_eq_nil_iff.mpr fun a ha => by simpa using (hzs a ha).ne'
  rw [hfirst, hpast, cut?_append, List.filter_append, List.filter_append, hbefore, hmiddle, hafter,
    List.append_nil, List.nil_append]

end Order

end Bisect
