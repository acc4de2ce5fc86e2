import Mathlib.Data.List.Pairwise
import Mathlib.Data.List.Nodup
import Mathlib.Data.Int.Notation
import Mathlib.Algebra.Order.Group.Int

/-!
# Tables with a sequence

An append-only table whose rows carry a unique key and an id above every id given before.

* `SeqTable`: the rows in id order, with the invariant as fields. Ids are 64-bit.
* `insertOrIgnore`: append a row under a fresh id, unless its key is taken.
* `after`: the rows past an id, in id order.
-/

/-- A row with its id and its unique key. -/
structure Entry (κ ρ : Type) where
  id : ℤ
  key : κ
  row : ρ
deriving DecidableEq

/-- The largest id there is. -/
def maxId : ℤ := 9223372036854775807

/-- **A table with a sequence**: `seq` is the largest id ever given. -/
structure SeqTable (κ ρ : Type) where
  entries : List (Entry κ ρ)
  seq : ℤ
  seq_nonneg : 0 ≤ seq
  seq_le : seq ≤ maxId
  ids : entries.Pairwise fun a b => a.id < b.id
  bounds : ∀ e ∈ entries, 0 < e.id ∧ e.id ≤ seq
  keys : (entries.map Entry.key).Nodup

namespace SeqTable

variable {κ ρ : Type}

/-- The empty table. -/
def empty : SeqTable κ ρ where
  entries := []
  seq := 0
  seq_nonneg := le_rfl
  seq_le := by decide
  ids := .nil
  bounds := by simp
  keys := List.nodup_nil

/-- The rows past an id, in id order. -/
def after (t : SeqTable κ ρ) (cursor : ℤ) : List (Entry κ ρ) :=
  t.entries.filter fun e => cursor < e.id

theorem mem_after {t : SeqTable κ ρ} {cursor : ℤ} {e : Entry κ ρ} :
    e ∈ t.after cursor ↔ e ∈ t.entries ∧ cursor < e.id := by
  simp [after]

theorem mem_take_of_le {l : List (Entry κ ρ)} (hl : l.Pairwise fun a b => a.id < b.id) {n : ℕ}
    {e last : Entry κ ρ} (he : e ∈ l) (hlast : last ∈ l.take n) (hle : e.id ≤ last.id) :
    e ∈ l.take n := by
  rw [← List.take_append_drop n l] at he hl
  rcases List.mem_append.mp he with htake | hdrop
  · exact htake
  · have hlt := (List.pairwise_append.mp hl).2.2 last hlast e hdrop
    omega

variable [DecidableEq κ]

/-- Whether a key is taken. -/
def has (t : SeqTable κ ρ) (k : κ) : Bool := decide (k ∈ t.entries.map Entry.key)

/-- `INSERT OR IGNORE` under the id `id`, which is above every earlier one. -/
def insertOrIgnore (t : SeqTable κ ρ) (id : ℤ) (hid : t.seq < id) (hmax : id ≤ maxId) (k : κ)
    (r : ρ) : SeqTable κ ρ :=
  if hk : k ∈ t.entries.map Entry.key then t
  else
    { entries := t.entries ++ [⟨id, k, r⟩]
      seq := id
      seq_nonneg := t.seq_nonneg.trans hid.le
      seq_le := hmax
      ids := List.pairwise_append.mpr ⟨t.ids, List.pairwise_singleton _ _, fun e he e' he' => by
        obtain rfl := List.mem_singleton.mp he'
        exact (t.bounds e he).2.trans_lt hid⟩
      bounds := fun e he => by
        rcases List.mem_append.mp he with he | he
        · exact ⟨(t.bounds e he).1, (t.bounds e he).2.trans hid.le⟩
        · obtain rfl := List.mem_singleton.mp he
          exact ⟨t.seq_nonneg.trans_lt hid, le_rfl⟩
      keys := by
        rw [List.map_append, List.nodup_append]
        refine ⟨t.keys, List.nodup_singleton _, fun a ha b hb hab => hk ?_⟩
        obtain rfl := List.mem_singleton.mp hb
        exact hab ▸ ha }

variable {t : SeqTable κ ρ} {id : ℤ} (hid : t.seq < id) (hmax : id ≤ maxId) {k : κ} {r : ρ}

theorem has_iff : t.has k = true ↔ k ∈ t.entries.map Entry.key := decide_eq_true_iff

theorem insertOrIgnore_of_has (h : t.has k = true) : t.insertOrIgnore id hid hmax k r = t := by
  rw [insertOrIgnore, dif_pos (of_decide_eq_true h)]

theorem entries_insertOrIgnore_of_not_has (h : t.has k = false) :
    (t.insertOrIgnore id hid hmax k r).entries = t.entries ++ [⟨id, k, r⟩] := by
  rw [insertOrIgnore, dif_neg (of_decide_eq_false h)]

theorem seq_le_insertOrIgnore : t.seq ≤ (t.insertOrIgnore id hid hmax k r).seq := by
  unfold insertOrIgnore
  split_ifs
  · exact le_rfl
  · exact hid.le

end SeqTable
