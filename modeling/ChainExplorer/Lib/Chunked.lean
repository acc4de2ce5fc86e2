import Mathlib.Data.List.Destutter
import Mathlib.Data.List.Sort
import ChainExplorer.Lib.Keyed

/-!
# Asking in chunks

* `sortedDedup l`: what is in a list, in order and once each.
* `chunks n l`: a list in pieces of `n`; **`flatten_chunks`**: they are all of it.
* **`lookup_foldl_insert`**: a table filled from a list whose keys tell its values.
-/

namespace Chunked

variable {α κ υ ι : Type}

/-! ## Once each -/

/-- `sort` and then `dedup`. -/
def sortedDedup [LinearOrder α] (l : List α) : List α :=
  (l.insertionSort (· ≤ ·)).destutter (· ≠ ·)

/-- What is dropped is there once more. -/
theorem mem_destutter'_ne [DecidableEq α] {a b : α} {l : List α} :
    a ∈ l.destutter' (· ≠ ·) b ↔ a ∈ b :: l := by
  induction l generalizing b with
  | nil => rfl
  | cons c l ih =>
    rw [List.destutter'_cons]
    split_ifs with hne
    · rw [List.mem_cons, ih, ← List.mem_cons]
    · obtain rfl := not_not.mp hne
      rw [ih]
      simp

theorem mem_sortedDedup [LinearOrder α] {a : α} {l : List α} : a ∈ sortedDedup l ↔ a ∈ l := by
  rw [← (List.perm_insertionSort (· ≤ ·) l).mem_iff, sortedDedup]
  cases l.insertionSort (· ≤ ·) with
  | nil => rfl
  | cons b l => exact mem_destutter'_ne

/-! ## Chunks -/

/-- `chunks(n)`: pieces of `n`, the last one of what is left. -/
def chunks (n : ℕ) : List α → List (List α)
  | [] => []
  | a :: l => (a :: l.take (n - 1)) :: chunks n (l.drop (n - 1))
termination_by l => l.length
decreasing_by
  rw [List.length_drop, List.length_cons]
  omega

theorem flatten_chunks (n : ℕ) (l : List α) : (chunks n l).flatten = l := by
  induction l using chunks.induct n with
  | case1 => rw [chunks, List.flatten_nil]
  | case2 a l ih =>
    rw [chunks, List.flatten_cons, ih, List.cons_append, List.take_append_drop]

/-! ## A table filled from a list -/

/-- **A table filled from a list** in any order, where a key tells its value. -/
theorem lookup_foldl_insert [DecidableEq κ] {key : ι → κ} {val : ι → υ} {l : List ι}
    (hl : ∀ i ∈ l, ∀ j ∈ l, key i = key j → val i = val j) (k : κ) (v : υ) :
    (l.foldl (fun t i => AList.insert (key i) (val i) t) (∅ : Keyed κ υ)).lookup k = some v ↔
      ∃ i ∈ l, key i = k ∧ val i = v := by
  have hput : Keyed.Writes key val fun t i => AList.insert (key i) (val i) t :=
    fun t i _ k => Keyed.lookup_insert_eq (key i) k (val i) t
  have hempty : ∀ i ∈ l, ∀ w, (∅ : Keyed κ υ).lookup (key i) = some w → w = val i := by
    intro i _ w hw
    cases hw
  rw [hput.lookup_foldl hl hempty]
  simp

end Chunked
