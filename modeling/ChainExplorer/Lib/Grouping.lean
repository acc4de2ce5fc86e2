import Mathlib.Data.List.Dedup
import Mathlib.Data.List.Perm.Basic
import Mathlib.Algebra.BigOperators.Group.List.Basic

/-!
# Rows in groups

* `group`, `groupBy`: the rows of a key, and `GROUP BY`.
* **`flatMap_group_perm`**: the groups hold every row once.
* `sum_groups`: the sums of the groups are those of the rows.
* `series`, **`series_set`**: a series with an entry for each of the first keys, and one of them set.
-/

namespace Grouping

variable {α κ : Type*}

section

variable [DecidableEq κ]

/-- The rows of a key. -/
def group (key : α → κ) (k : κ) (rows : List α) : List α := rows.filter fun a => key a = k

/-- **`GROUP BY`**: each key that a row has, and its rows. -/
def groupBy (key : α → κ) (rows : List α) : List (κ × List α) :=
  (rows.map key).dedup.map fun k => (k, group key k rows)

theorem mem_group {key : α → κ} {k : κ} {rows : List α} {a : α} :
    a ∈ group key k rows ↔ a ∈ rows ∧ key a = k := by
  rw [group, List.mem_filter, decide_eq_true_iff]

theorem mem_groupBy {key : α → κ} {rows : List α} {g : κ × List α} :
    g ∈ groupBy key rows ↔ g.1 ∈ rows.map key ∧ g.2 = group key g.1 rows := by
  rw [groupBy, List.mem_map]
  constructor
  · rintro ⟨k, hk, rfl⟩
    exact ⟨List.mem_dedup.mp hk, rfl⟩
  · rintro ⟨hk, hg⟩
    exact ⟨g.1, List.mem_dedup.mpr hk, Prod.ext rfl hg.symm⟩

/-- **The groups hold every row once.** -/
theorem flatMap_group_perm {key : α → κ} {keys : List κ} (hkeys : keys.Nodup) {rows : List α}
    (h : ∀ a ∈ rows, key a ∈ keys) : (keys.flatMap fun k => group key k rows).Perm rows := by
  induction keys generalizing rows with
  | nil =>
    have hnil : rows = [] := List.eq_nil_iff_forall_not_mem.mpr fun a ha => List.not_mem_nil (h a ha)
    rw [hnil]
    exact .refl _
  | cons k keys ih =>
    obtain ⟨hk, hkeys⟩ := List.nodup_cons.mp hkeys
    let rest := rows.filter fun a => !decide (key a = k)
    have hrest : (keys.flatMap fun k' => group key k' rows) =
        keys.flatMap fun k' => group key k' rest := by
      refine List.flatMap_congr fun k' hk' => ?_
      rw [group, group, List.filter_filter]
      refine List.filter_congr fun a _ => ?_
      by_cases ha : key a = k'
      · have hne : k' ≠ k := fun heq => hk (heq ▸ hk')
        simp only [ha, hne, decide_true, decide_false, Bool.not_false, Bool.and_self]
      · simp only [ha, decide_false, Bool.false_and]
    have hmem : ∀ a ∈ rest, key a ∈ keys := by
      intro a ha
      obtain ⟨hin, hne⟩ := List.mem_filter.mp ha
      have hne' : key a ≠ k := of_decide_eq_false (Bool.not_eq_true' _ ▸ hne)
      exact (List.mem_cons.mp (h a hin)).resolve_left hne'
    rw [List.flatMap_cons, hrest]
    exact ((ih hkeys hmem).append_left _).trans (List.filter_append_perm _ rows)

/-- **The sums of the groups are those of the rows.** -/
theorem sum_groups {β : Type*} [AddCommMonoid β] {key : α → κ} {keys : List κ} (hkeys : keys.Nodup)
    {rows : List α} (h : ∀ a ∈ rows, key a ∈ keys) (f : α → β) :
    (keys.map fun k => ((group key k rows).map f).sum).sum = (rows.map f).sum := by
  rw [← ((flatMap_group_perm hkeys h).map f).sum_eq, List.map_flatMap, List.flatMap, List.sum_flatten,
    List.map_map]
  rfl

end

/-! ## A series over the first numbers -/

section Series

variable {β : Type*}

/-- One entry for each of the first `n` numbers. -/
def series (n : ℕ) (f : ℕ → β) : List β := (List.range n).map f

@[simp] theorem length_series (n : ℕ) (f : ℕ → β) : (series n f).length = n := by
  rw [series, List.length_map, List.length_range]

theorem series_congr {n : ℕ} {f g : ℕ → β} (h : ∀ m < n, f m = g m) : series n f = series n g :=
  List.map_congr_left fun m hm => h m (List.mem_range.mp hm)

/-- **An entry is set.** -/
theorem series_set (n : ℕ) (f : ℕ → β) (m : ℕ) (v : β) :
    (series n f).set m v = series n (Function.update f m v) := by
  refine List.ext_getElem ?_ fun i hi hi' => ?_
  · rw [List.length_set, length_series, length_series]
  · rw [List.getElem_set]
    simp only [series, List.getElem_map, List.getElem_range]
    by_cases him : m = i
    · rw [if_pos him, him, Function.update_self]
    · rw [if_neg him, Function.update_of_ne (Ne.symm him)]

end Series

end Grouping
