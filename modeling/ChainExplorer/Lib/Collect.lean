import Mathlib.Data.List.Flatten
import Mathlib.Data.List.Perm.Basic
import Mathlib.Data.List.Sort

/-!
# Results collected in any order

Tasks side by side, each of which brings some results.

* `flatMap_set`, `mem_flatMap_set`, **`perm_flatMap_eraseIdx`**: a task goes on, or its results are
  collected.
* `sortBy`, **`sortBy_eq_of_perm`**: sorted by keys that all differ, the results do not show the
  order they were collected in.
-/

namespace Collect

variable {α β κ : Type*}

/-- A task that goes on brings what it was to bring. -/
theorem flatMap_set (g : α → List β) {l : List α} {i : ℕ} {a b : α} (h : l[i]? = some a)
    (hsame : g b = g a) : (l.set i b).flatMap g = l.flatMap g := by
  induction l generalizing i with
  | nil => exact absurd h nofun
  | cons x l ih =>
    cases i with
    | zero =>
      obtain rfl : x = a := Option.some.inj h
      rw [List.set_cons_zero, List.flatMap_cons, List.flatMap_cons, hsame]
    | succ i => rw [List.set_cons_succ, List.flatMap_cons, List.flatMap_cons, ih h]

/-- A task that had no results yet goes on. -/
theorem mem_flatMap_set {g : α → List β} {l : List α} {i : ℕ} {a b : α} (h : l[i]? = some a)
    (hnil : g a = []) {x : β} : x ∈ (l.set i b).flatMap g ↔ x ∈ l.flatMap g ∨ x ∈ g b := by
  induction l generalizing i with
  | nil => exact absurd h nofun
  | cons y l ih =>
    cases i with
    | zero =>
      obtain rfl : y = a := Option.some.inj h
      rw [List.set_cons_zero, List.flatMap_cons, List.flatMap_cons, hnil, List.nil_append,
        List.mem_append, or_comm]
    | succ i =>
      rw [List.set_cons_succ, List.flatMap_cons, List.flatMap_cons, List.mem_append, List.mem_append,
        ih h, or_assoc]

/-- **A task is collected.** -/
theorem perm_flatMap_eraseIdx (g : α → List β) {l : List α} {i : ℕ} {a : α} (h : l[i]? = some a) :
    (g a ++ (l.eraseIdx i).flatMap g).Perm (l.flatMap g) := by
  obtain ⟨hi, rfl⟩ := List.getElem?_eq_some_iff.mp h
  have hperm := (List.getElem_cons_eraseIdx_perm hi).flatMap_right g
  rwa [List.flatMap_cons] at hperm

section Order

variable [LinearOrder κ] (key : α → κ)

/-- In ascending order of a key. -/
def sortBy (l : List α) : List α := l.insertionSort fun a b => key a ≤ key b

theorem sortBy_perm (l : List α) : (sortBy key l).Perm l := List.perm_insertionSort _ l

theorem pairwise_sortBy (l : List α) : (sortBy key l).Pairwise fun a b => key a ≤ key b := by
  have htotal : Std.Total fun a b : α => key a ≤ key b := ⟨fun a b => le_total (key a) (key b)⟩
  have htrans : IsTrans α fun a b => key a ≤ key b := ⟨fun _ _ _ => le_trans⟩
  exact List.pairwise_insertionSort _ l

theorem pairwise_lt_sortBy {l : List α} (h : (l.map key).Nodup) :
    ((sortBy key l).map key).Pairwise (· < ·) := by
  have hnodup : ((sortBy key l).map key).Nodup := (((sortBy_perm key l).map key).nodup_iff).mpr h
  have hle := List.pairwise_map.mpr (pairwise_sortBy key l)
  exact (hle.and hnodup).imp fun hab => lt_of_le_of_ne hab.1 hab.2

theorem sortBy_eq_self {l : List α} (h : l.Pairwise fun a b => key a ≤ key b) : sortBy key l = l :=
  h.insertionSort_eq

/-- **The order of the results does not show** when their keys all differ. -/
theorem sortBy_eq_of_perm {l l' : List α} (h : l.Perm l') (hkeys : (l.map key).Nodup) :
    sortBy key l = sortBy key l' := by
  have hperm := ((sortBy_perm key l).trans h).trans (sortBy_perm key l').symm
  refine hperm.eq_of_pairwise ?_ (pairwise_sortBy key l) (pairwise_sortBy key l')
  intro a b ha hb hab hba
  have ha' : a ∈ l := (sortBy_perm key l).mem_iff.mp ha
  have hb' : b ∈ l := h.mem_iff.mpr ((sortBy_perm key l').mem_iff.mp hb)
  exact List.inj_on_of_nodup_map hkeys ha' hb' (le_antisymm hab hba)

theorem map_sortBy {γ : Type*} {key' : γ → κ} (f : α → γ) (hf : ∀ a, key' (f a) = key a) (l : List α) :
    (sortBy key l).map f = sortBy key' (l.map f) :=
  List.map_insertionSort _ _ f l fun a _ b _ => by rw [hf, hf]

end Order

end Collect
