import Mathlib.Data.List.MinMax
import Mathlib.Data.List.Sort
import Mathlib.Data.List.Flatten
import Mathlib.Order.Basic
import Mathlib.Algebra.Order.Group.Int

/-!
# Pages of an ordered query

* `orderDesc key`: `ORDER BY key DESC`.
* `limitOffset`: `LIMIT … OFFSET …`.
* **`limitOffset_walks`**: a page of a union is a page of its two parts, each cut at the page's end.
* **`flatMap_pages`**: pages side by side.
-/

namespace Paging

variable {α κ : Type} [LinearOrder κ]

/-- `ORDER BY key DESC`. -/
def orderDesc (key : α → κ) (l : List α) : List α := l.insertionSort fun a b => key b ≤ key a

/-- `LIMIT limit OFFSET offset`. A negative limit is none, a negative offset is zero. -/
def limitOffset (limit offset : ℤ) (l : List α) : List α :=
  let rest := l.drop offset.toNat
  if limit < 0 then rest else rest.take limit.toNat

/-! ## Order -/

section Order

variable (key : α → κ)

theorem orderDesc_perm (l : List α) : (orderDesc key l).Perm l := List.perm_insertionSort _ l

theorem mem_orderDesc {l : List α} {a : α} : a ∈ orderDesc key l ↔ a ∈ l :=
  (orderDesc_perm key l).mem_iff

theorem length_orderDesc (l : List α) : (orderDesc key l).length = l.length :=
  (orderDesc_perm key l).length_eq

theorem pairwise_orderDesc (l : List α) : (orderDesc key l).Pairwise fun a b => key b ≤ key a := by
  have htotal : Std.Total fun a b : α => key b ≤ key a := ⟨fun a b => le_total _ _⟩
  have htrans : IsTrans α fun a b : α => key b ≤ key a := ⟨fun a b c hab hbc => hbc.trans hab⟩
  exact List.pairwise_insertionSort _ l

variable {key}

theorem eq_orderDesc {l l' : List α} (hnodup : (l.map key).Nodup) (hperm : l'.Perm l)
    (hsorted : l'.Pairwise fun a b => key b ≤ key a) : l' = orderDesc key l := by
  have hboth : l'.Perm (orderDesc key l) := hperm.trans (orderDesc_perm key l).symm
  refine hboth.eq_of_pairwise ?_ hsorted (pairwise_orderDesc key l)
  intro a b ha hb hab hba
  have hla : a ∈ l := hperm.mem_iff.mp ha
  have hlb : b ∈ l := (mem_orderDesc key).mp hb
  exact List.inj_on_of_nodup_map hnodup hla hlb (le_antisymm hba hab)

theorem orderDesc_congr {l l' : List α} (hnodup : (l.map key).Nodup) (h : l'.Perm l) :
    orderDesc key l' = orderDesc key l :=
  eq_orderDesc hnodup ((orderDesc_perm key l').trans h) (pairwise_orderDesc key l')

theorem head?_orderDesc (key : α → κ) (l : List α) : (orderDesc key l).head? = l.argmax key := by
  induction l with
  | nil => rfl
  | cons a l ih =>
    have hinsert : orderDesc key (a :: l) =
        (orderDesc key l).orderedInsert (fun a b => key b ≤ key a) a := rfl
    rw [hinsert, List.argmax_cons, ← ih]
    cases orderDesc key l with
    | nil => rfl
    | cons b rest =>
      rw [List.orderedInsert]
      by_cases hle : key b ≤ key a
      · rw [if_pos hle]
        exact (if_neg (not_lt.mpr hle)).symm
      · rw [if_neg hle]
        exact (if_pos (not_le.mp hle)).symm

theorem orderDesc_eq_self {l : List α} (h : l.Pairwise fun a b => key b ≤ key a) :
    orderDesc key l = l :=
  h.insertionSort_eq

end Order

/-! ## Two walks -/

/-- The merge of two rows in descending order. -/
def mergeDesc (key : α → κ) (xs ys : List α) : List α :=
  xs.merge ys fun a b => decide (key b ≤ key a)

theorem orderDesc_append {key : α → κ} {xs ys : List α} (hnodup : ((xs ++ ys).map key).Nodup) :
    orderDesc key (xs ++ ys) = mergeDesc key (orderDesc key xs) (orderDesc key ys) := by
  refine (eq_orderDesc hnodup ?_ ?_).symm
  · refine List.Perm.trans (List.merge_perm_append _) ?_
    exact (orderDesc_perm key xs).append (orderDesc_perm key ys)
  · have htrans : ∀ a b c : α, decide (key b ≤ key a) = true → decide (key c ≤ key b) = true →
        decide (key c ≤ key a) = true := by
      intro a b c hab hbc
      simp only [decide_eq_true_eq] at hab hbc ⊢
      exact hbc.trans hab
    have htotal : ∀ a b : α, (decide (key b ≤ key a) || decide (key a ≤ key b)) = true := by
      intro a b
      simp only [Bool.or_eq_true, decide_eq_true_eq]
      exact le_total _ _
    have hmerge := List.pairwise_merge htrans htotal (orderDesc key xs) (orderDesc key ys)
      ((pairwise_orderDesc key xs).imp fun h => decide_eq_true h)
      ((pairwise_orderDesc key ys).imp fun h => decide_eq_true h)
    exact hmerge.imp fun h => of_decide_eq_true h

theorem take_merge_take (le : α → α → Bool) {n : ℕ} :
    ∀ {xs ys : List α} {i j : ℕ}, n ≤ i → n ≤ j →
      ((xs.take i).merge (ys.take j) le).take n = (xs.merge ys le).take n := by
  induction n with
  | zero =>
    intro xs ys i j _ _
    rw [List.take_zero, List.take_zero]
  | succ n ih =>
    intro xs ys i j hi hj
    obtain ⟨i, rfl⟩ : ∃ i', i = i' + 1 := ⟨i - 1, by omega⟩
    obtain ⟨j, rfl⟩ : ∃ j', j = j' + 1 := ⟨j - 1, by omega⟩
    cases xs with
    | nil =>
      rw [List.take_nil, List.nil_merge, List.nil_merge, List.take_take, min_eq_left hj]
    | cons x xs =>
      cases ys with
      | nil =>
        rw [List.take_nil, List.merge_right, List.merge_right, List.take_take, min_eq_left hi]
      | cons y ys =>
        rw [List.take_succ_cons, List.take_succ_cons]
        by_cases hxy : le x y
        · have hrest := @ih xs (y :: ys) i (j + 1) (by omega) (by omega)
          rw [List.take_succ_cons] at hrest
          rw [List.cons_merge_cons_pos _ _ _ hxy, List.cons_merge_cons_pos _ _ _ hxy,
            List.take_succ_cons, List.take_succ_cons, hrest]
        · have hrest := @ih (x :: xs) ys (i + 1) j (by omega) (by omega)
          rw [List.take_succ_cons] at hrest
          rw [List.cons_merge_cons_neg _ _ _ hxy, List.cons_merge_cons_neg _ _ _ hxy,
            List.take_succ_cons, List.take_succ_cons, hrest]

theorem filter_or_perm (p q : α → Prop) [DecidablePred p] [DecidablePred q] (l : List α) :
    ((l.filter fun a => p a) ++ l.filter fun a => q a ∧ ¬p a).Perm
      (l.filter fun a => p a ∨ q a) := by
  have hleft : (l.filter fun a => p a ∨ q a).filter (fun a => p a) = l.filter fun a => p a := by
    rw [List.filter_filter]
    refine List.filter_congr fun a _ => ?_
    by_cases hp : p a <;> simp [hp]
  have hright : (l.filter fun a => p a ∨ q a).filter (fun a => !decide (p a)) =
      l.filter fun a => q a ∧ ¬p a := by
    rw [List.filter_filter]
    refine List.filter_congr fun a _ => ?_
    by_cases hp : p a <;> simp [hp]
  have hsplit := List.filter_append_perm (fun a => decide (p a)) (l.filter fun a => p a ∨ q a)
  rw [hleft, hright] at hsplit
  exact hsplit

/-! ## Pages -/

theorem limitOffset_of_nonneg {limit offset : ℤ} (h : 0 ≤ limit) (l : List α) :
    limitOffset limit offset l = (l.drop offset.toNat).take limit.toNat := by
  rw [limitOffset, if_neg (not_lt.mpr h)]

theorem limitOffset_of_neg {limit : ℤ} (h : limit < 0) (l : List α) :
    limitOffset limit 0 l = l := by
  rw [limitOffset, if_pos h, Int.toNat_zero, List.drop_zero]

theorem limitOffset_congr {limit offset : ℤ} (hlimit : 0 ≤ limit) {l l' : List α}
    (h : l.take (offset.toNat + limit.toNat) = l'.take (offset.toNat + limit.toNat)) :
    limitOffset limit offset l = limitOffset limit offset l' := by
  rw [limitOffset_of_nonneg hlimit, limitOffset_of_nonneg hlimit, List.take_drop, List.take_drop, h]

/-- **A page of a union from two walks**, each cut at or past the page's end or not at all. -/
theorem limitOffset_walks {key : α → κ} {xs ys : List α} (hnodup : ((xs ++ ys).map key).Nodup)
    {limit offset cut : ℤ} (hlimit : 0 ≤ limit)
    (hcut : cut < 0 ∨ limit + max offset 0 ≤ cut ∨ xs.length + ys.length ≤ cut) :
    limitOffset limit offset (orderDesc key
        (limitOffset cut 0 (orderDesc key xs) ++ limitOffset cut 0 (orderDesc key ys))) =
      limitOffset limit offset (orderDesc key (xs ++ ys)) := by
  have hwalk : ∀ l : List α, 0 ≤ cut →
      limitOffset cut 0 (orderDesc key l) = (orderDesc key l).take cut.toNat := by
    intro l h
    rw [limitOffset_of_nonneg h, Int.toNat_zero, List.drop_zero]
  have huncut : orderDesc key (orderDesc key xs ++ orderDesc key ys) = orderDesc key (xs ++ ys) :=
    orderDesc_congr hnodup ((orderDesc_perm key xs).append (orderDesc_perm key ys))
  rcases hcut with hneg | hle | hall
  · rw [limitOffset_of_neg hneg, limitOffset_of_neg hneg, huncut]
  · have hsub : ((orderDesc key xs).take cut.toNat ++ (orderDesc key ys).take cut.toNat).Sublist
        (orderDesc key xs ++ orderDesc key ys) :=
      (List.take_sublist _ _).append (List.take_sublist _ _)
    have hall : ((orderDesc key xs ++ orderDesc key ys).map key).Nodup :=
      ((((orderDesc_perm key xs).append (orderDesc_perm key ys)).map key).nodup_iff).mpr hnodup
    have hcuts := orderDesc_append (hall.sublist (hsub.map key))
    rw [orderDesc_eq_self ((pairwise_orderDesc key xs).sublist (List.take_sublist _ _)),
      orderDesc_eq_self ((pairwise_orderDesc key ys).sublist (List.take_sublist _ _))] at hcuts
    rw [hwalk xs (by omega), hwalk ys (by omega), hcuts, orderDesc_append hnodup]
    exact limitOffset_congr hlimit (take_merge_take _ (by omega) (by omega))
  · have hxs : (orderDesc key xs).length ≤ cut.toNat := by
      rw [length_orderDesc]
      omega
    have hys : (orderDesc key ys).length ≤ cut.toNat := by
      rw [length_orderDesc]
      omega
    rw [hwalk xs (by omega), hwalk ys (by omega), List.take_of_length_le hxs,
      List.take_of_length_le hys, huncut]

/-- **Pages side by side** are the rows up to the end of the last one. -/
theorem flatMap_pages (l : List α) (size pages : ℕ) :
    ((List.range pages).flatMap fun i => (l.drop (i * size)).take size) =
      l.take (pages * size) := by
  induction pages with
  | zero => simp
  | succ pages ih =>
    rw [List.range_succ, List.flatMap_append, ih, List.flatMap_singleton, Nat.succ_mul,
      List.take_add]

theorem take_drop_ne_take {l : List α} (hnodup : l.Nodup) {skip size : ℕ} (hskip : 0 < skip)
    (hsize : 0 < size) (hl : l ≠ []) : (l.drop skip).take size ≠ l.take size := by
  intro heq
  cases l with
  | nil => exact hl rfl
  | cons x xs =>
    obtain ⟨skip, rfl⟩ : ∃ n, skip = n + 1 := ⟨skip - 1, by omega⟩
    obtain ⟨size, rfl⟩ : ∃ n, size = n + 1 := ⟨size - 1, by omega⟩
    have hx : x ∈ ((x :: xs).drop (skip + 1)).take (size + 1) := by
      rw [heq, List.take_succ_cons]
      exact List.mem_cons_self
    rw [List.drop_succ_cons] at hx
    exact (List.nodup_cons.mp hnodup).1 (List.mem_of_mem_drop (List.mem_of_mem_take hx))

end Paging
