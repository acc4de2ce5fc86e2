import ChainExplorer.Lib.Keyed

/-!
# A cache that starts over

A table of at most so many entries: one more empties it first.

* `Cache.put`: remember an entry.
* **`Cache.length_put_le`**: it never holds more than its bound.
* **`Cache.lookup_put`**: what it holds is what was put, and nothing that was not held before.
-/

namespace Cache

variable {κ υ : Type} [DecidableEq κ]

/-- **Remember an entry**, after starting over when the table is full. -/
def put (cap : ℕ) (t : Keyed κ υ) (k : κ) (v : υ) : Keyed κ υ :=
  (if cap ≤ t.entries.length then ∅ else t).insert k v

variable {cap : ℕ} {t : Keyed κ υ} {k k' : κ} {v v' : υ}

theorem length_insert_le (t : Keyed κ υ) (k : κ) (v : υ) :
    (t.insert k v).entries.length ≤ t.entries.length + 1 := by
  rw [AList.entries_insert, List.length_cons]
  exact Nat.succ_le_succ (List.kerase_sublist k t.entries).length_le

theorem length_put_le (hcap : 0 < cap) : (put cap t k v).entries.length ≤ cap := by
  refine (length_insert_le _ k v).trans ?_
  split_ifs with hfull
  · exact hcap
  · exact not_le.mp hfull

theorem lookup_put (h : (put cap t k v).lookup k' = some v') :
    (k' = k ∧ v' = v) ∨ t.lookup k' = some v' := by
  rw [put, Keyed.lookup_insert_eq] at h
  split_ifs at h with hk hfull
  · exact .inl ⟨hk, (Option.some.inj h).symm⟩
  · rw [AList.lookup_empty] at h
    cases h
  · exact .inr h

theorem forall_put {P : κ → υ → Prop} (h : ∀ k v, t.lookup k = some v → P k v) (hkv : P k v) :
    ∀ k' v', (put cap t k v).lookup k' = some v' → P k' v' := by
  intro k' v' hlookup
  rcases lookup_put hlookup with ⟨rfl, rfl⟩ | hold
  · exact hkv
  · exact h k' v' hold

end Cache
