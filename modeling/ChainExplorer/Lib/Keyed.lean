import Mathlib.Data.Finmap
import Mathlib.Algebra.BigOperators.Group.List.Basic
import Mathlib.Tactic.Abel

/-!
# Keyed tables

A table with a primary key is an association list with unique keys. Over the lookup lemmas of
`AList` this module adds the statements a database runs on such a table and the two measures taken
of it:

* `insertOrIgnore`, `upsert`, `modify`, `bump`, each with its lookups;
* `total f`, the sum of a function over the rows, and `count p`, the number of rows with a property;
* **`total_insert`**, **`total_erase`**, **`count_insert`**, **`count_erase`**: one write moves a
  measure by what it does to its own row;
* **`perm_of_lookup_eq`**: two tables with the same lookups hold the same rows.
-/

/-- A table with a primary key `κ`. -/
abbrev Keyed (κ υ : Type) := AList fun _ : κ => υ

namespace Keyed

variable {κ υ α : Type} [DecidableEq κ]

/-! ## Statements -/

/-- `INSERT OR IGNORE`: a row whose key is taken is not written. -/
def insertOrIgnore (k : κ) (v : υ) (t : Keyed κ υ) : Keyed κ υ :=
  if k ∈ t then t else t.insert k v

/-- `INSERT … ON CONFLICT DO UPDATE`: `merge` says what an existing row becomes. -/
def upsert (k : κ) (new : υ) (merge : υ → υ) (t : Keyed κ υ) : Keyed κ υ :=
  t.insert k ((t.lookup k).elim new merge)

/-- `UPDATE … WHERE key = k`. -/
def modify (k : κ) (f : υ → υ) (t : Keyed κ υ) : Keyed κ υ :=
  (t.lookup k).elim t fun v => t.insert k (f v)

/-- Add `d` to the entry of `k`, a missing one counting as zero. -/
def bump [AddZeroClass υ] (k : κ) (d : υ) (t : Keyed κ υ) : Keyed κ υ :=
  t.insert k ((t.lookup k).getD 0 + d)

theorem lookup_insert_eq (k k' : κ) (v : υ) (t : Keyed κ υ) :
    (t.insert k v).lookup k' = if k' = k then some v else t.lookup k' := by
  split_ifs with h
  · rw [h, AList.lookup_insert]
  · exact AList.lookup_insert_ne h

theorem lookup_insertOrIgnore (k k' : κ) (v : υ) (t : Keyed κ υ) :
    (t.insertOrIgnore k v).lookup k' =
      if k' = k then some ((t.lookup k).getD v) else t.lookup k' := by
  unfold insertOrIgnore
  by_cases hk : k ∈ t
  · rw [if_pos hk]
    obtain ⟨w, hw⟩ := Option.isSome_iff_exists.mp (AList.lookup_isSome.mpr hk)
    split_ifs with h
    · rw [h, hw, Option.getD_some]
    · rfl
  · rw [if_neg hk, lookup_insert_eq, AList.lookup_eq_none.mpr hk, Option.getD_none]

theorem lookup_upsert (k k' : κ) (new : υ) (merge : υ → υ) (t : Keyed κ υ) :
    (t.upsert k new merge).lookup k' =
      if k' = k then some ((t.lookup k).elim new merge) else t.lookup k' :=
  lookup_insert_eq _ _ _ _

theorem lookup_modify (k k' : κ) (f : υ → υ) (t : Keyed κ υ) :
    (t.modify k f).lookup k' = if k' = k then (t.lookup k).map f else t.lookup k' := by
  unfold modify
  cases h : t.lookup k with
  | none =>
    simp only [Option.elim_none, Option.map_none]
    split_ifs with he
    · rw [he, h]
    · rfl
  | some v => simpa using lookup_insert_eq k k' (f v) t

/-! ## Rows -/

theorem mem_entries_iff {k : κ} {v : υ} {t : Keyed κ υ} :
    (⟨k, v⟩ : Σ _ : κ, υ) ∈ t.entries ↔ t.lookup k = some v :=
  (AList.mem_lookup_iff (β := fun _ : κ => υ)).symm

/-- Two tables with the same lookups hold the same rows. -/
theorem perm_of_lookup_eq {s t : Keyed κ υ} (h : ∀ k, s.lookup k = t.lookup k) :
    s.entries.Perm t.entries :=
  AList.toFinmap_eq.mp (Finmap.ext_lookup h)

theorem entries_perm_cons_erase {k : κ} {v : υ} {t : Keyed κ υ} (h : t.lookup k = some v) :
    t.entries.Perm (⟨k, v⟩ :: (t.erase k).entries) := by
  have hp : t.entries.Perm (t.insert k v).entries := by
    refine perm_of_lookup_eq fun k' => ?_
    rw [lookup_insert_eq]
    split_ifs with he
    · rw [he, h]
    · rfl
  simpa [AList.entries_insert, AList.erase] using hp

theorem erase_eq_self {k : κ} {t : Keyed κ υ} (h : t.lookup k = none) : t.erase k = t := by
  refine AList.ext ?_
  exact List.kerase_of_notMem_keys (AList.lookup_eq_none.mp h)

/-! ## Sums over the rows -/

section Total

variable [AddCommMonoid α]

/-- The sum of `f` over the rows. -/
def total (f : κ → υ → α) (t : Keyed κ υ) : α := (t.entries.map fun e => f e.1 e.2).sum

omit [DecidableEq κ] in
@[simp] theorem total_empty (f : κ → υ → α) : total f (∅ : Keyed κ υ) = 0 := rfl

theorem total_eq_add_erase (f : κ → υ → α) (k : κ) (t : Keyed κ υ) :
    total f t = (t.lookup k).elim 0 (f k) + total f (t.erase k) := by
  cases h : t.lookup k with
  | none => rw [erase_eq_self h, Option.elim_none, zero_add]
  | some v =>
    unfold total
    rw [((entries_perm_cons_erase h).map _).sum_eq, List.map_cons, List.sum_cons, Option.elim_some]

/-- A write replaces its own row's share. -/
theorem total_insert (f : κ → υ → α) (k : κ) (v : υ) (t : Keyed κ υ) :
    total f (t.insert k v) = f k v + total f (t.erase k) := by
  unfold total
  rw [AList.entries_insert, List.map_cons, List.sum_cons]
  rfl

end Total

theorem total_bump [AddZeroClass υ] [AddCommMonoid α] (f : κ → υ → α) (k : κ) (d : υ)
    (t : Keyed κ υ) (h0 : f k 0 = 0) (hadd : ∀ x, f k (x + d) = f k x + f k d) :
    total f (t.bump k d) = total f t + f k d := by
  rw [bump, total_insert, total_eq_add_erase f k t, hadd]
  cases t.lookup k with
  | none => rw [Option.getD_none, Option.elim_none, h0]; abel
  | some v => rw [Option.getD_some, Option.elim_some]; abel

/-! ## Counting rows -/

/-- The number of rows with property `p`. -/
def count (p : κ → υ → Bool) (t : Keyed κ υ) : ℕ := t.entries.countP fun e => p e.1 e.2

theorem count_congr_lookup (p : κ → υ → Bool) {s t : Keyed κ υ}
    (h : ∀ k, s.lookup k = t.lookup k) : count p s = count p t :=
  (perm_of_lookup_eq h).countP_eq _

theorem count_eq_add_erase (p : κ → υ → Bool) (k : κ) (t : Keyed κ υ) :
    count p t = (t.lookup k).elim 0 (fun v => (p k v).toNat) + count p (t.erase k) := by
  cases h : t.lookup k with
  | none => rw [erase_eq_self h, Option.elim_none, zero_add]
  | some v =>
    unfold count
    rw [(entries_perm_cons_erase h).countP_eq, List.countP_cons, Option.elim_some, add_comm]
    cases p k v <;> rfl

theorem count_insert (p : κ → υ → Bool) (k : κ) (v : υ) (t : Keyed κ υ) :
    count p (t.insert k v) = (p k v).toNat + count p (t.erase k) := by
  unfold count
  rw [AList.entries_insert, List.countP_cons, add_comm]
  cases p k v <;> rfl

theorem count_eq_zero {p : κ → υ → Bool} {t : Keyed κ υ}
    (h : ∀ k v, t.lookup k = some v → p k v = false) : count p t = 0 := by
  refine List.countP_eq_zero.mpr fun e he => ?_
  rw [h e.1 e.2 (mem_entries_iff.mp he)]
  exact Bool.false_ne_true

theorem count_key (k : κ) (t : Keyed κ υ) :
    count (fun k' _ => decide (k' = k)) t = if k ∈ t then 1 else 0 := by
  have hrest : count (fun k' _ => decide (k' = k)) (t.erase k) = 0 := by
    refine count_eq_zero fun k' v hv => decide_eq_false ?_
    rintro rfl
    rw [AList.lookup_erase] at hv
    exact absurd hv nofun
  rw [count_eq_add_erase _ k t, hrest, add_zero]
  by_cases hk : k ∈ t
  · obtain ⟨v, hv⟩ := Option.isSome_iff_exists.mp (AList.lookup_isSome.mpr hk)
    simp [hv, hk]
  · simp [AList.lookup_eq_none.mpr hk, hk]

omit [DecidableEq κ] in
theorem count_true (t : Keyed κ υ) : count (fun _ _ => true) t = t.entries.length :=
  congrFun List.countP_true _

/-! ## Lists of writes -/

section Writes

variable {ι : Type} {key : ι → κ} {val : ι → υ} {put : Keyed κ υ → ι → Keyed κ υ}

/-- `put` writes `val i` under `key i` wherever nothing else is stored there. -/
def Writes (key : ι → κ) (val : ι → υ) (put : Keyed κ υ → ι → Keyed κ υ) : Prop :=
  ∀ t i, (∀ w, t.lookup (key i) = some w → w = val i) →
    ∀ k, (put t i).lookup k = if k = key i then some (val i) else t.lookup k

/-- **A list of writes** that disagree neither with each other nor with the table: what is stored
afterwards was written or was stored before. -/
theorem Writes.lookup_foldl (hput : Writes key val put) {l : List ι} {t : Keyed κ υ}
    (hl : ∀ i ∈ l, ∀ j ∈ l, key i = key j → val i = val j)
    (ht : ∀ i ∈ l, ∀ w, t.lookup (key i) = some w → w = val i) (k : κ) (v : υ) :
    (l.foldl put t).lookup k = some v ↔
      (∃ i ∈ l, key i = k ∧ val i = v) ∨ t.lookup k = some v := by
  induction l generalizing t with
  | nil => simp
  | cons i l ih =>
    have hti := ht i List.mem_cons_self
    have hrest : ∀ j ∈ l, ∀ w, (put t i).lookup (key j) = some w → w = val j := by
      intro j hj w hw
      rw [hput t i hti] at hw
      split_ifs at hw with hkey
      · rw [← Option.some.inj hw]
        exact hl i List.mem_cons_self j (List.mem_cons_of_mem _ hj) hkey.symm
      · exact ht j (List.mem_cons_of_mem _ hj) w hw
    have hstep : (put t i).lookup k = some v ↔ (key i = k ∧ val i = v) ∨ t.lookup k = some v := by
      rw [hput t i hti]
      split_ifs with hk
      · subst hk
        constructor
        · intro h
          exact .inl ⟨rfl, Option.some.inj h⟩
        · rintro (⟨-, rfl⟩ | h)
          · rfl
          · rw [hti v h]
      · constructor
        · exact .inr
        · rintro (⟨rfl, -⟩ | h)
          · exact absurd rfl hk
          · exact h
    rw [List.foldl_cons, ih (fun i hi j hj => hl i (List.mem_cons_of_mem _ hi) j
      (List.mem_cons_of_mem _ hj)) hrest, hstep]
    simp only [List.mem_cons, exists_eq_or_imp]
    rw [or_left_comm, or_assoc]

theorem Writes.count_foldl (hput : Writes key val put) (p : κ → υ → Bool) {l : List ι}
    {t : Keyed κ υ} (hl : (l.map key).Nodup) (ht : ∀ i ∈ l, t.lookup (key i) = none) :
    count p (l.foldl put t) = count p t + l.countP fun i => p (key i) (val i) := by
  induction l generalizing t with
  | nil => rfl
  | cons i l ih =>
    rw [List.map_cons, List.nodup_cons] at hl
    have hti := ht i List.mem_cons_self
    have hlookup : ∀ k, (put t i).lookup k = (t.insert (key i) (val i)).lookup k := by
      intro k
      rw [hput t i (fun w hw => absurd (hti.symm.trans hw) nofun), lookup_insert_eq]
    have hrest : ∀ j ∈ l, (put t i).lookup (key j) = none := by
      intro j hj
      have hne : key j ≠ key i := fun h => hl.1 (h ▸ List.mem_map_of_mem hj)
      rw [hlookup, lookup_insert_eq, if_neg hne]
      exact ht j (List.mem_cons_of_mem _ hj)
    rw [List.foldl_cons, ih hl.2 hrest, count_congr_lookup p hlookup, count_insert,
      erase_eq_self hti, List.countP_cons]
    cases p (key i) (val i) with
    | true => simp; omega
    | false => simp

end Writes

end Keyed
